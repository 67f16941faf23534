import JsonShape.Json.Reader
import JsonShape.Proofs.Fields
import JsonShape.Proofs.Lexemes

/-!
# Proofs: JSON text read back

What is printed for a value is read back as that value. Compact text and pretty text differ only in
the white space between the parts, so both are instances of one printer that is told which white
space to put there (`Json.Spacing`), and reading is only followed through the text of that one.

The value may hold no doubles: how these are read back is a question of rounding, and not of the
form of the text.
-/

namespace JsonShape

open Json.Lexical

/-! ## Texts with regular white space -/

/-- The white space in a regular text. -/
structure Json.Spacing where
  /-- What stands in front of an item, an entry or a closing bracket at a level. -/
  newline : Nat → List Char
  /-- What stands between the colon and the value. -/
  afterColon : List Char
  newline_blank : ∀ level, Blank (newline level)
  afterColon_blank : Blank afterColon

namespace Json.Spacing

/-- No white space at all. -/
def none : Spacing where
  newline _ := []
  afterColon := []
  newline_blank _ := blank_nil
  afterColon_blank := blank_nil

/-- A line for every item and entry. -/
def lines : Spacing where
  newline := Json.newline
  afterColon := [' ']
  newline_blank level := by
    refine List.forall_mem_cons.2 ⟨rfl, fun c hc => ?_⟩
    rw [List.eq_of_mem_replicate hc]
    rfl
  afterColon_blank := List.forall_mem_singleton.2 rfl

/-- What stands in front of an item or an entry, or of the closing bracket, and before its white
space. -/
def comma (first : Bool) : List Char := if first then [] else [',']

/-- What stands in front of a closing bracket. -/
def beforeClosing (spacing : Spacing) (level : Nat) (first : Bool) : List Char :=
  if first then [] else spacing.newline level

mutual

/-- The text of a value at a level. -/
def chars (spacing : Spacing) (level : Nat) : Json → List Char
  | .null => ['n', 'u', 'l', 'l']
  | .bool b => word b
  | .number n => n.write
  | .string s => quote s
  | .array items => '[' :: itemChars spacing level true items
  | .object entries => '{' :: entryChars spacing level true entries

/-- The text of items and the closing bracket; `first` says that no item stands before them. -/
def itemChars (spacing : Spacing) (level : Nat) (first : Bool) : List Json → List Char
  | [] => spacing.beforeClosing level first ++ [']']
  | item :: rest =>
    comma first ++ spacing.newline (level + 1) ++ chars spacing (level + 1) item
      ++ itemChars spacing level false rest

/-- The text of entries and the closing brace; `first` says that no entry stands before them. -/
def entryChars (spacing : Spacing) (level : Nat) (first : Bool) :
    List (String × Json) → List Char
  | [] => spacing.beforeClosing level first ++ ['}']
  | (key, value) :: rest =>
    comma first ++ spacing.newline (level + 1) ++ quote key ++ ':' :: spacing.afterColon
      ++ chars spacing (level + 1) value ++ entryChars spacing level false rest

end

/-! ## Compact text and pretty text -/

theorem itemChars_none {items : List Json}
    (ih : ∀ item ∈ items, ∀ level, none.chars level item = item.compactChars) (level : Nat) :
    none.itemChars level false items = compactMoreItems items := by
  induction items with
  | nil => rfl
  | cons item rest ihrest =>
    obtain ⟨hitem, hrest⟩ := List.forall_mem_cons.1 ih
    rw [itemChars, hitem, ihrest hrest]
    rfl

theorem entryChars_none {entries : List (String × Json)}
    (ih : ∀ entry ∈ entries, ∀ level, none.chars level entry.2 = entry.2.compactChars)
    (level : Nat) : none.entryChars level false entries = compactMoreEntries entries := by
  induction entries with
  | nil => rfl
  | cons entry rest ihrest =>
    obtain ⟨hentry, hrest⟩ := List.forall_mem_cons.1 ih
    rw [entryChars, compactMoreEntries, hentry, ihrest hrest]
    simp [none, comma]

theorem chars_none (level : Nat) (value : Json) : none.chars level value = value.compactChars := by
  induction value generalizing level with
  | array items ih =>
    rw [chars, compactChars]
    cases items with
    | nil => rfl
    | cons item rest =>
      obtain ⟨hitem, hrest⟩ := List.forall_mem_cons.1 ih
      rw [itemChars, compactItems, hitem, itemChars_none hrest]
      rfl
  | object entries ih =>
    rw [chars, compactChars]
    cases entries with
    | nil => rfl
    | cons entry rest =>
      obtain ⟨hentry, hrest⟩ := List.forall_mem_cons.1 ih
      rw [entryChars, compactEntries, hentry, entryChars_none hrest]
      simp [none, comma]
  | _ => rfl

theorem itemChars_lines {items : List Json}
    (ih : ∀ item ∈ items, ∀ level, lines.chars level item = item.prettyChars level) (level : Nat) :
    lines.itemChars level false items = prettyMoreItems level items := by
  induction items with
  | nil => rfl
  | cons item rest ihrest =>
    obtain ⟨hitem, hrest⟩ := List.forall_mem_cons.1 ih
    rw [itemChars, hitem, ihrest hrest]
    rfl

theorem entryChars_lines {entries : List (String × Json)}
    (ih : ∀ entry ∈ entries, ∀ level, lines.chars level entry.2 = entry.2.prettyChars level)
    (level : Nat) : lines.entryChars level false entries = prettyMoreEntries level entries := by
  induction entries with
  | nil => rfl
  | cons entry rest ihrest =>
    obtain ⟨hentry, hrest⟩ := List.forall_mem_cons.1 ih
    rw [entryChars, prettyMoreEntries, hentry, ihrest hrest]
    simp [lines, comma]

theorem chars_lines (level : Nat) (value : Json) :
    lines.chars level value = value.prettyChars level := by
  induction value generalizing level with
  | array items ih =>
    rw [chars, prettyChars]
    cases items with
    | nil => rfl
    | cons item rest =>
      obtain ⟨hitem, hrest⟩ := List.forall_mem_cons.1 ih
      rw [itemChars, prettyItems, hitem, itemChars_lines hrest]
      rfl
  | object entries ih =>
    rw [chars, prettyChars]
    cases entries with
    | nil => rfl
    | cons entry rest =>
      obtain ⟨hentry, hrest⟩ := List.forall_mem_cons.1 ih
      rw [entryChars, prettyEntries, hentry, entryChars_lines hrest]
      simp [lines, comma]
  | _ => rfl

end Json.Spacing

/-! ## What is read -/

/-- All numbers in a value are integers. -/
inductive Json.Integral : Json → Prop where
  | null : Integral .null
  | bool (b : Bool) : Integral (.bool b)
  | number {n : Number} (h : ∃ i, n.toInt? = some i) : Integral (.number n)
  | string (s : String) : Integral (.string s)
  | array {items : List Json} (h : ∀ item ∈ items, Integral item) : Integral (.array items)
  | object {entries : List (String × Json)} (h : ∀ entry ∈ entries, Integral entry.2) :
      Integral (.object entries)

/-- A reader asks for every part of a value, and for records only where there are objects. -/
inductive Interest.Covers : Interest → Json → Prop where
  | whole (value : Json) : Covers .whole value
  | listOf {part : Interest} {items : List Json} (h : ∀ item ∈ items, Covers part item) :
      Covers (.listOf part) (.array items)
  | record {fields : List (String × Interest)} {entries : List (String × Json)}
      (hkeys : ∀ entry ∈ entries, (fields.lookup entry.1).isSome)
      (h : ∀ entry ∈ entries, ∀ part, fields.lookup entry.1 = some part → Covers part entry.2) :
      Covers (.record fields) (.object entries)

/-- The items of an array are asked for one like the other. -/
theorem Interest.Covers.exists_supply {interest : Interest} {items : List Json}
    (h : interest.Covers (.array items)) :
    ∃ part, interest.supply = .each part ∧ ∀ item ∈ items, part.Covers item := by
  cases h with
  | whole => exact ⟨.whole, rfl, fun item _ => .whole item⟩
  | listOf h => exact ⟨_, rfl, h⟩

/-- The value of every key of an object is asked for. -/
theorem Interest.Covers.exists_member {interest : Interest} {entries : List (String × Json)}
    (h : interest.Covers (.object entries)) :
    ∀ entry ∈ entries, ∃ part, interest.member entry.1 = some part ∧ part.Covers entry.2 := by
  cases h with
  | whole => exact fun entry _ => ⟨.whole, rfl, .whole entry.2⟩
  | record hkeys h =>
    intro entry hentry
    obtain ⟨part, hpart⟩ := Option.isSome_iff_exists.1 (hkeys entry hentry)
    exact ⟨part, hpart, h entry hentry part hpart⟩

theorem Interest.covers_record {fields : List (String × Interest)}
    {entries : List (String × Json)}
    (h : ∀ entry ∈ entries, ∃ part, fields.lookup entry.1 = some part ∧ part.Covers entry.2) :
    (Interest.record fields).Covers (.object entries) := by
  refine .record ?_ ?_
  · intro entry hentry
    obtain ⟨part, hpart, -⟩ := h entry hentry
    rw [hpart]
    rfl
  · intro entry hentry part hpart
    obtain ⟨part', hpart', hcovers⟩ := h entry hentry
    rw [hpart] at hpart'
    cases hpart'
    exact hcovers

namespace Json

variable {spacing : Spacing} {level budget depth : Nat} {interest : Interest} {text : Text}

/-- White space in front of a value is passed over. -/
theorem readValue_blank {cs : List Char} (h : Blank cs) (budget : Nat) (interest : Interest)
    (depth : Nat) (text : Text) :
    readValue budget interest depth (cs.map some ++ text) =
      readValue budget interest depth text := by
  cases budget with
  | zero => rw [readValue, readValue]
  | succ budget => simp only [readValue, skipSpace_blank h]

/-- A digit means nothing between the parts of a text, and opens and closes nothing. -/
theorem ordinary_of_isDigit {c : Char} (h : c.isDigit = true) :
    isSpace (some c) = false ∧ c ∉ ['n', 't', 'f', '"', '[', '{', ']', '}', ','] := by
  have hspace : [' ', '\t', '\n', '\r'].all (fun s => !s.isDigit) = true := rfl
  have hmark : ['n', 't', 'f', '"', '[', '{', ']', '}', ','].all (fun s => !s.isDigit) = true := rfl
  constructor
  · rw [← Bool.not_eq_true, isSpace_iff]
    intro hmem
    simpa [h] using List.all_eq_true.1 hspace c hmem
  · intro hmem
    simpa [h] using List.all_eq_true.1 hmark c hmem

theorem exists_of_write {n : Number} (hn : ∃ i, n.toInt? = some i) :
    ∃ c cs, n.write = c :: cs ∧ (c = '-' ∨ c.isDigit = true) := by
  cases n with
  | natural m =>
    obtain ⟨d, ds, hd⟩ := List.exists_cons_of_ne_nil
      (show Decimal.digitsOf m.val ≠ [] from Nat.toDigits_ne_nil)
    exact ⟨d, ds, hd, .inr (isDigit_of_mem_digitsOf d (hd ▸ List.mem_cons_self))⟩
  | negative below => exact ⟨'-', _, rfl, .inl rfl⟩
  | double x =>
    obtain ⟨i, hi⟩ := hn
    cases hi

theorem readValue_write {n : Number} (hn : ∃ i, n.toInt? = some i) (hend : EndsNumber text)
    (hbudget : 0 < budget) : readValue budget interest depth (n.write.map some ++ text) =
      (.number n, some text) := by
  obtain ⟨budget, rfl⟩ := Nat.exists_eq_succ_of_ne_zero (Nat.ne_of_gt hbudget)
  have hread := readNumber_write hn hend
  obtain ⟨c, cs, hcs, hc⟩ := exists_of_write hn
  rw [hcs, List.map_cons, List.cons_append] at hread ⊢
  have hordinary : isSpace (some c) = false ∧
      c ∉ ['n', 't', 'f', '"', '[', '{', ']', '}', ','] := by
    rcases hc with rfl | hc
    · decide
    · exact ordinary_of_isDigit hc
  have hstarts : some c = some '-' ∨ startsWithDigit (some c :: (cs.map some ++ text)) = true :=
    hc.imp (congrArg some) id
  rw [readValue, skipSpace_cons hordinary.1]
  split
  case h_8 s rest _ _ _ _ _ _ hs =>
    cases hs
    simp only [if_pos hstarts, hread]
  -- otherwise the text is empty or begins with a word, a string or an opening bracket
  all_goals
    next hs => cases hs <;> simp at hordinary

/-! ## Between the parts -/

theorem Spacing.blank_beforeClosing (spacing : Spacing) (level : Nat) (first : Bool) :
    Blank (spacing.beforeClosing level first) := by
  cases first with
  | true => exact blank_nil
  | false => exact spacing.newline_blank level

/-- The text of a value begins with a character of its own, which closes no array. -/
theorem Spacing.exists_chars (spacing : Spacing) {value : Json} (hv : value.Integral)
    (level : Nat) : ∃ c cs, spacing.chars level value = c :: cs ∧ isSpace (some c) = false ∧
      c ≠ ']' := by
  cases hv with
  | null => exact ⟨'n', _, rfl, by decide⟩
  | bool b => cases b <;> exact ⟨_, _, rfl, by decide⟩
  | number hn =>
    obtain ⟨c, cs, hcs, hc⟩ := exists_of_write hn
    refine ⟨c, cs, hcs, ?_⟩
    rcases hc with rfl | hc
    · decide
    · obtain ⟨hspace, hmark⟩ := ordinary_of_isDigit hc
      exact ⟨hspace, fun hclosing => hmark (by simp [hclosing])⟩
  | string s => exact ⟨'"', _, rfl, by decide⟩
  | array => exact ⟨'[', _, rfl, by decide⟩
  | object => exact ⟨'{', _, rfl, by decide⟩

theorem Spacing.length_itemChars_pos (spacing : Spacing) (level : Nat) (first : Bool)
    (items : List Json) : 0 < (spacing.itemChars level first items).length := by
  induction items generalizing first with
  | nil => simp [itemChars]
  | cons item rest ih =>
    rw [itemChars, List.length_append]
    exact Nat.add_pos_right _ (ih false)

/-- The closing bracket is found behind the white space that stands in front of it. -/
theorem Spacing.skipSpace_closing (spacing : Spacing) (level : Nat) (first : Bool) {c : Char}
    (hc : isSpace (some c) = false) :
    skipSpace ((spacing.beforeClosing level first ++ [c]).map some ++ text) = some c :: text := by
  rw [List.map_append, List.append_assoc,
    skipSpace_blank (spacing.blank_beforeClosing level first)]
  exact skipSpace_cons hc _

theorem Spacing.endsNumber_closing (spacing : Spacing) (level : Nat) (first : Bool) {c : Char}
    (hc : c.isDigit = false ∧ c ≠ '.' ∧ c ≠ 'e' ∧ c ≠ 'E') :
    EndsNumber ((spacing.beforeClosing level first ++ [c]).map some ++ text) := by
  rw [List.map_append, List.append_assoc]
  exact endsNumber_blank (spacing.blank_beforeClosing level first) (endsNumber_cons hc _)

theorem endsNumber_itemChars (items : List Json) :
    EndsNumber ((spacing.itemChars level false items).map some ++ text) := by
  cases items with
  | nil =>
    rw [Spacing.itemChars]
    exact spacing.endsNumber_closing level false (by decide)
  | cons => exact endsNumber_cons (by decide) _

theorem endsNumber_entryChars (entries : List (String × Json)) :
    EndsNumber ((spacing.entryChars level false entries).map some ++ text) := by
  cases entries with
  | nil =>
    rw [Spacing.entryChars]
    exact spacing.endsNumber_closing level false (by decide)
  | cons => exact endsNumber_cons (by decide) _

/-- What stands in front of an item is passed over. -/
theorem readItems_item {cs : List Char} (hblank : Blank cs) {c : Char}
    (hc : isSpace (some c) = false) (hopen : c ≠ ']') (first : Bool) (part : Interest) :
    readItems (budget + 1) (.each part) depth first
        ((Spacing.comma first ++ cs).map some ++ some c :: text) =
      readItem budget (.each part) depth (some c :: text) := by
  have hskip : skipSpace (cs.map some ++ some c :: text) = some c :: text := by
    rw [skipSpace_blank hblank, skipSpace_cons hc]
  have hclosing : ∀ rest, some c :: text ≠ some ']' :: rest := by
    rintro rest ⟨⟩
    exact hopen rfl
  cases first with
  | true =>
    show readItems (budget + 1) (.each part) depth true (cs.map some ++ some c :: text) = _
    rw [readItems, hskip]
    · split
      · next hempty => cases hempty
      · next hclose => exact absurd hclose (hclosing _)
      · next hs =>
        cases hs
        rfl
    · intro h
      cases h
  | false =>
    show readItems (budget + 1) (.each part) depth false
      (some ',' :: (cs.map some ++ some c :: text)) = _
    rw [readItems, skipSpace_cons rfl]
    · split
      · next hempty => cases hempty
      · next hclose => simp at hclose
      · next hs =>
        cases hs
        rw [if_neg Bool.false_ne_true, if_pos rfl, hskip]
        split
        · next hempty => cases hempty
        · next hclose => exact absurd hclose (hclosing _)
        · rfl
    · intro h
      cases h

/-- What stands in front of an entry is passed over. -/
theorem readEntries_entry {cs : List Char} (hblank : Blank cs) (first : Bool)
    (interest : Interest) :
    readEntries (budget + 1) interest depth first
        ((Spacing.comma first ++ cs).map some ++ some '"' :: text) =
      readEntry budget interest depth (some '"' :: text) := by
  have hskip : skipSpace (cs.map some ++ some '"' :: text) = some '"' :: text := by
    rw [skipSpace_blank hblank, skipSpace_cons rfl]
  cases first with
  | true =>
    show readEntries (budget + 1) interest depth true (cs.map some ++ some '"' :: text) = _
    rw [readEntries, hskip]
    rfl
  | false =>
    show readEntries (budget + 1) interest depth false
      (some ',' :: (cs.map some ++ some '"' :: text)) = _
    rw [readEntries, skipSpace_cons rfl]
    split
    · next hempty => cases hempty
    · next hclose => simp at hclose
    · next hs =>
      cases hs
      rw [if_neg Bool.false_ne_true, if_pos rfl, hskip]
      rfl

/-! ## Items and entries -/

theorem readItem_of_readValue {part : Interest} {item : Node} {items : List Node} {rest : Text}
    {after : Option Text} (hitem : readValue budget part depth text = (item, some rest))
    (hitems : readItems budget (.each part) depth false rest = (items, after)) :
    readItem (budget + 1) (.each part) depth text = (item :: items, after) := by
  simp only [readItem, hitem, hitems]

/-- An entry is read if its value is asked for. -/
theorem readEntry_of_readValue {key : String} {cs : List Char} (hblank : Blank cs)
    {part : Interest} (hpart : interest.member key = some part) {value : Node}
    {entries : List (Node × Node)} {rest : Text} {after : Option Text}
    (hvalue : readValue budget part depth text = (value, some rest))
    (hentries : readEntries budget interest depth false rest = (entries, after)) :
    readEntry (budget + 1) interest depth
        (some '"' :: ((key.toList.flatMap escape ++ ['"']).map some ++
          (some ':' :: (cs.map some ++ text)))) =
      ((.string key, value) :: entries, after) := by
  have hcolon := skipSpace_cons (show isSpace (some ':') = false from rfl) (cs.map some ++ text)
  simp only [readEntry, readString_quoted, hcolon, hpart, readValue_blank hblank, hvalue, hentries]

/-- A value is read back from its text at every level, whatever follows. -/
def ReadsBack (spacing : Spacing) (value : Json) : Prop :=
  ∀ {interest : Interest} {level depth budget : Nat} {text : Text}, interest.Covers value →
    value.depth ≤ depth → 3 * (spacing.chars level value).length ≤ budget → EndsNumber text →
    readValue budget interest depth ((spacing.chars level value).map some ++ text) =
      (Node.ofJson interest value, some text)

theorem readItems_itemChars {part : Interest} {items : List Json}
    (hint : ∀ item ∈ items, item.Integral) (hcovers : ∀ item ∈ items, part.Covers item)
    (ih : ∀ item ∈ items, item.ReadsBack spacing) (hdepth : depthItems items ≤ depth)
    {first : Bool} (hbudget : 3 * (spacing.itemChars level first items).length ≤ budget) :
    readItems budget (.each part) depth first
        ((spacing.itemChars level first items).map some ++ text) =
      (items.map (Node.ofJson part), some text) := by
  induction items generalizing first budget with
  | nil =>
    rw [Spacing.itemChars] at hbudget ⊢
    obtain ⟨budget, rfl⟩ : ∃ b, budget = b + 1 := ⟨budget - 1, by simp at hbudget; omega⟩
    rw [readItems, spacing.skipSpace_closing level first rfl]
    · rfl
    · intro h
      cases h
  | cons item rest ihrest =>
    obtain ⟨hintitem, hintrest⟩ := List.forall_mem_cons.1 hint
    obtain ⟨hcoversitem, hcoversrest⟩ := List.forall_mem_cons.1 hcovers
    obtain ⟨hitem, hrest⟩ := List.forall_mem_cons.1 ih
    obtain ⟨hdepthitem, hdepthrest⟩ := Nat.max_le.1 hdepth
    obtain ⟨c, cs, hchars, hspace, hopen⟩ := spacing.exists_chars hintitem (level + 1)
    have hlength : (spacing.chars (level + 1) item).length = cs.length + 1 := by rw [hchars]; rfl
    rw [Spacing.itemChars, List.length_append, List.length_append] at hbudget
    have hpos := spacing.length_itemChars_pos level false rest
    -- two steps lead to the item and to what follows it; each pays for those to the other
    obtain ⟨budget, rfl⟩ : ∃ b, budget = b + 1 + 1 := ⟨budget - 2, by omega⟩
    have hvalue : readValue budget part depth ((spacing.chars (level + 1) item).map some ++
        ((spacing.itemChars level false rest).map some ++ text)) = (Node.ofJson part item, some _) :=
      hitem hcoversitem hdepthitem (by omega) (endsNumber_itemChars rest)
    have hmore : readItems budget (.each part) depth false
        ((spacing.itemChars level false rest).map some ++ text) = (_, some text) :=
      ihrest hintrest hcoversrest hrest hdepthrest (by omega)
    calc
      _ = readItems (budget + 1 + 1) (.each part) depth first
          ((Spacing.comma first ++ spacing.newline (level + 1)).map some ++ some c ::
            (cs.map some ++ ((spacing.itemChars level false rest).map some ++ text))) := by
        simp [Spacing.itemChars, hchars]
      _ = readItem (budget + 1) (.each part) depth ((spacing.chars (level + 1) item).map some ++
          ((spacing.itemChars level false rest).map some ++ text)) := by
        rw [readItems_item (spacing.newline_blank _) hspace hopen, hchars]
        rfl
      _ = _ := readItem_of_readValue hvalue hmore

theorem readEntries_entryChars {entries : List (String × Json)}
    (hcovers : ∀ entry ∈ entries, ∃ part, interest.member entry.1 = some part ∧
      part.Covers entry.2)
    (ih : ∀ entry ∈ entries, entry.2.ReadsBack spacing) (hdepth : depthEntries entries ≤ depth)
    {first : Bool} (hbudget : 3 * (spacing.entryChars level first entries).length ≤ budget) :
    readEntries budget interest depth first
        ((spacing.entryChars level first entries).map some ++ text) =
      (Node.ofEntries interest entries, some text) := by
  induction entries generalizing first budget with
  | nil =>
    rw [Spacing.entryChars] at hbudget ⊢
    obtain ⟨budget, rfl⟩ : ∃ b, budget = b + 1 := ⟨budget - 1, by simp at hbudget; omega⟩
    rw [readEntries, spacing.skipSpace_closing level first rfl]
    rfl
  | cons entry rest ihrest =>
    obtain ⟨key, value⟩ := entry
    obtain ⟨⟨part, hpart, hcoversvalue⟩, hcoversrest⟩ := List.forall_mem_cons.1 hcovers
    obtain ⟨hvalue, hrest⟩ := List.forall_mem_cons.1 ih
    have hvalue : value.ReadsBack spacing := hvalue
    obtain ⟨hdepthvalue, hdepthrest⟩ := Nat.max_le.1 hdepth
    rw [Spacing.entryChars] at hbudget
    simp only [List.length_append, List.length_cons, quote] at hbudget
    obtain ⟨budget, rfl⟩ : ∃ b, budget = b + 1 + 1 := ⟨budget - 2, by omega⟩
    have hnode : readValue budget part depth ((spacing.chars (level + 1) value).map some ++
        ((spacing.entryChars level false rest).map some ++ text)) =
          (Node.ofJson part value, some _) :=
      hvalue hcoversvalue hdepthvalue (by omega) (endsNumber_entryChars rest)
    have hmore : readEntries budget interest depth false
        ((spacing.entryChars level false rest).map some ++ text) = (_, some text) :=
      ihrest hcoversrest hrest hdepthrest (by omega)
    calc
      _ = readEntries (budget + 1 + 1) interest depth first
          ((Spacing.comma first ++ spacing.newline (level + 1)).map some ++ some '"' ::
            ((key.toList.flatMap escape ++ ['"']).map some ++ (some ':' ::
              (spacing.afterColon.map some ++ ((spacing.chars (level + 1) value).map some ++
                ((spacing.entryChars level false rest).map some ++ text)))))) := by
        simp [Spacing.entryChars, quote]
      _ = _ := by
        rw [readEntries_entry (spacing.newline_blank _),
          readEntry_of_readValue spacing.afterColon_blank hpart hnode hmore]
      _ = (Node.ofEntries interest ((key, value) :: rest), some text) := by
        rw [Node.ofEntries, hpart]

/-- The text of a value without parts is read in one step. -/
theorem readsBack_of_succ {value : Json} (hv : value.Integral)
    (h : ∀ (interest : Interest) (level depth budget : Nat) (text : Text), EndsNumber text →
      readValue (budget + 1) interest depth ((spacing.chars level value).map some ++ text) =
        (Node.ofJson interest value, some text)) : value.ReadsBack spacing := by
  intro interest level depth budget text _ _ hbudget hend
  obtain ⟨c, cs, hchars, -⟩ := spacing.exists_chars hv level
  rw [hchars, List.length_cons] at hbudget
  obtain ⟨budget, rfl⟩ : ∃ b, budget = b + 1 := ⟨budget - 1, by omega⟩
  exact h interest level depth budget text hend

/-- Every value that holds no doubles is read back. -/
theorem readsBack (spacing : Spacing) {value : Json} (hv : value.Integral) :
    value.ReadsBack spacing := by
  induction hv with
  | null =>
    refine readsBack_of_succ .null fun interest level depth budget text _ => ?_
    rw [Spacing.chars, readValue]
    rfl
  | bool b =>
    refine readsBack_of_succ (.bool b) fun interest level depth budget text _ => ?_
    rw [Spacing.chars, readValue]
    cases b <;> rfl
  | number hn =>
    refine readsBack_of_succ (.number hn) fun interest level depth budget text hend => ?_
    rw [Spacing.chars]
    exact readValue_write hn hend (Nat.succ_pos budget)
  | string s =>
    refine readsBack_of_succ (.string s) fun interest level depth budget text _ => ?_
    have hread := readString_quoted s text
    have hskip := skipSpace_cons (show isSpace (some '"') = false from rfl)
    simp only [Spacing.chars, quote, List.map_cons, List.cons_append, readValue, hskip, hread]
    rfl
  | @array items hitems ih =>
    intro interest level depth budget text hcovers hdepth hbudget hend
    obtain ⟨part, hsupply, hparts⟩ := hcovers.exists_supply
    rw [Spacing.chars, List.length_cons] at hbudget
    rw [Json.depth] at hdepth
    obtain ⟨budget, rfl⟩ : ∃ b, budget = b + 1 := ⟨budget - 1, by omega⟩
    obtain ⟨depth, rfl⟩ : ∃ d, depth = d + 1 := ⟨depth - 1, by omega⟩
    have hread : readItems budget (.each part) depth true
        ((spacing.itemChars level true items).map some ++ text) = (_, some text) :=
      readItems_itemChars hitems hparts ih (Nat.le_of_succ_le_succ hdepth) (by omega)
    have hskip := skipSpace_cons (show isSpace (some '[') = false from rfl)
    simp only [Spacing.chars, List.map_cons, List.cons_append, readValue, hskip, hsupply, hread,
      Node.ofJson, Node.ofItems_each]
  | @object entries hentries ih =>
    intro interest level depth budget text hcovers hdepth hbudget hend
    rw [Spacing.chars, List.length_cons] at hbudget
    rw [Json.depth] at hdepth
    obtain ⟨budget, rfl⟩ : ∃ b, budget = b + 1 := ⟨budget - 1, by omega⟩
    obtain ⟨depth, rfl⟩ : ∃ d, depth = d + 1 := ⟨depth - 1, by omega⟩
    have hread : readEntries budget interest depth true
        ((spacing.entryChars level true entries).map some ++ text) = (_, some text) :=
      readEntries_entryChars hcovers.exists_member ih (Nat.le_of_succ_le_succ hdepth) (by omega)
    have hskip := skipSpace_cons (show isSpace (some '{') = false from rfl)
    simp only [Spacing.chars, List.map_cons, List.cons_append, readValue, hskip, hread,
      Node.ofJson]

/-- A document that is printed with regular white space decodes like the value that was printed. -/
theorem decodeText_chars {α : Type} (spacing : Spacing) {interest : Interest}
    (decode : Node → Except Fault α) {value : Json} (hv : value.Integral)
    (hcovers : interest.Covers value) (hdepth : value.depth ≤ maxDepth) :
    decodeText interest decode ((spacing.chars 0 value).map some) =
      decode (Node.ofJson interest value) := by
  have hread : read interest ((spacing.chars 0 value).map some) =
      (Node.ofJson interest value, some []) := by
    rw [read, List.length_map, ← List.append_nil (List.map some _)]
    exact readsBack spacing hv hcovers hdepth (Nat.le_add_right _ 3) endsNumber_nil
  simp only [decodeText, hread]
  cases decode (Node.ofJson interest value) <;> rfl

section Printed

variable {α : Type} {decode : Node → Except Fault α} {value : Json}

theorem decodeText_compact (hv : value.Integral) (hcovers : interest.Covers value)
    (hdepth : value.depth ≤ maxDepth) :
    decodeText interest decode (Symbol.ofString value.compact) =
      decode (Node.ofJson interest value) := by
  rw [Symbol.ofString, compact, String.toList_ofList, ← Spacing.chars_none 0 value]
  exact decodeText_chars Spacing.none decode hv hcovers hdepth

theorem decodeText_pretty (hv : value.Integral) (hcovers : interest.Covers value)
    (hdepth : value.depth ≤ maxDepth) :
    decodeText interest decode (Symbol.ofString value.pretty) =
      decode (Node.ofJson interest value) := by
  rw [Symbol.ofString, pretty, String.toList_ofList, ← Spacing.chars_lines 0 value]
  exact decodeText_chars Spacing.lines decode hv hcovers hdepth

end Printed

end Json

end JsonShape
