import JsonShape.Proofs.Framing

/-!
# Proofs: declarations can be read in one way only

A declaration shows a shape without loss: two shapes that are shown alike are the same, provided
that no alias looks like a word of the notation and that number literals are integers.

A declaration begins with a word, a quote, a brace or a parenthesis, and that decides what it is; a
word is over where a character comes that cannot stand in one. Inside other declarations it is
followed by one of a few closings, none of which goes on with it. So the text after a declaration
is left over by all ways to read it, and the parts of a shape are compared one after the other.
-/

namespace JsonShape

namespace Declaration

variable {run run' rest rest' : List Char} {c : Char}

/-! ## Runs of characters -/

/-- The characters of words, plain keys and integers. None of them ends a word. -/
def isRunChar (c : Char) : Bool := isKeyStart c || c.isDigit || c == '-'

/-- A text does not go on with a run in front of it. -/
def EndsRun (text : List Char) : Prop := ∀ c ∈ text.head?, isRunChar c = false

theorem endsRun_cons (h : isRunChar c = false) (rest : List Char) : EndsRun (c :: rest) := by
  rintro _ ⟨⟩
  exact h

theorem takeWhile_run (h : ∀ c ∈ run, isRunChar c = true) (hrest : EndsRun rest) :
    (run ++ rest).takeWhile isRunChar = run := by
  rw [List.takeWhile_append_of_pos h]
  cases rest with
  | nil => exact List.append_nil run
  | cons c rest =>
    rw [List.takeWhile_cons_of_neg (by simp [hrest c rfl]), List.append_nil]

/-- A run ends where it must. -/
theorem run_inj (h : ∀ c ∈ run, isRunChar c = true) (h' : ∀ c ∈ run', isRunChar c = true)
    (hrest : EndsRun rest) (hrest' : EndsRun rest') (heq : run ++ rest = run' ++ rest') :
    run = run' ∧ rest = rest' := by
  have hrun : run = run' := by rw [← takeWhile_run h hrest, heq, takeWhile_run h' hrest']
  subst hrun
  exact ⟨rfl, List.append_cancel_left heq⟩

theorem isRunChar_of_identifierPart (h : IdentifierPart c) : isRunChar c = true := by
  have hpart := isIdentifierPart_iff.2 h
  rw [isIdentifierStart] at hpart
  simp only [isRunChar, isKeyStart, Bool.or_eq_true] at hpart ⊢
  tauto

theorem isRunChar_of_identifier {name : String} (h : Identifier name) :
    ∀ c ∈ name.toList, isRunChar c = true := by
  obtain ⟨first, rest, hname, hstart, hrest⟩ := h
  rw [hname]
  exact List.forall_mem_cons.2 ⟨isRunChar_of_identifierPart (.inl hstart),
    fun c hc => isRunChar_of_identifierPart (hrest c hc)⟩

theorem isRunChar_of_isDigit (h : c.isDigit = true) : isRunChar c = true := by
  simp [isRunChar, h]

/-! ## Words -/

/-- The shapes that are shown as a word of the notation. -/
def words : List (Shape × String) :=
  [(.any, "any"), (.boolean, "boolean"), (.null, "null"), (.number, "number"), (.string, "string"),
    (.undefined, "undefined"), (.union [], "never"), (.literal (.bool true), "true"),
    (.literal (.bool false), "false")]

/-- The words of the notation. -/
def reserved : List String := words.map Prod.snd

end Declaration

/-- A shape whose aliases and number literals can be told from all else. -/
structure Shape.Legible (shape : Shape) : Prop where
  /-- Aliases are identifiers and no words of the notation. -/
  names : ∀ name, Part (.alias name) shape → Identifier name ∧ name ∉ Declaration.reserved
  integers : shape.IntegerLiterals

theorem Shape.Legible.part {piece shape : Shape} (h : shape.Legible) (hp : piece.Part shape) :
    piece.Legible :=
  ⟨fun name hname => h.names name (hname.trans hp), fun n hn => h.integers n (hn.trans hp)⟩

namespace Declaration

/-- A shape is shown as a single word. -/
inductive Word : Shape → List Char → Prop where
  | name {name : String} (h : Identifier name) (hfree : name ∉ reserved) :
      Word (.alias name) name.toList
  | reserved {shape : Shape} {word : String} (h : (shape, word) ∈ words) : Word shape word.toList
  | integer {n : Number} (h : ∃ i, n.toInt? = some i) : Word (.literal (.number n)) n.write

variable {shape shape' : Shape} {word word' : List Char}

theorem identifier_of_mem_reserved : ∀ word ∈ reserved, Identifier word := by
  have hall : ∀ word ∈ reserved, isIdentifier word = true := by decide
  exact fun word hword => isIdentifier_iff.1 (hall word hword)

theorem identifier_of_mem_words {word : String} (h : (shape, word) ∈ words) : Identifier word :=
  identifier_of_mem_reserved word (List.mem_map.2 ⟨_, h, rfl⟩)

theorem Word.text_eq (h : Word shape word) : (ofShape shape).text = word := by
  cases h with
  | name => rfl
  | integer => rfl
  | reserved h =>
    simp only [words, List.mem_cons, Prod.mk.injEq, List.not_mem_nil, or_false] at h
    rcases h with ⟨rfl, rfl⟩ | ⟨rfl, rfl⟩ | ⟨rfl, rfl⟩ | ⟨rfl, rfl⟩ | ⟨rfl, rfl⟩ | ⟨rfl, rfl⟩ |
      ⟨rfl, rfl⟩ | ⟨rfl, rfl⟩ | ⟨rfl, rfl⟩ <;> rfl

theorem isRunChar_of_mem_write {n : Number} (h : ∃ i, n.toInt? = some i) :
    ∀ c ∈ n.write, isRunChar c = true := by
  cases n with
  | natural m =>
    exact fun c hc => isRunChar_of_isDigit (Json.Lexical.isDigit_of_mem_digitsOf c hc)
  | negative below =>
    refine List.forall_mem_cons.2 ⟨rfl, fun c hc => ?_⟩
    exact isRunChar_of_isDigit (Json.Lexical.isDigit_of_mem_digitsOf c hc)
  | double x =>
    obtain ⟨i, hi⟩ := h
    cases hi

theorem IdentifierStart.not_digit (h : IdentifierStart c) : c.isDigit = false ∧ c ≠ '-' := by
  have hcodes : 65 ≤ c.toNat := by
    rcases h with ⟨h, -⟩ | ⟨h, -⟩ | rfl
    · exact h
    · exact Nat.le_trans (by decide) h
    · decide
  constructor
  · rw [Char.isDigit, Bool.and_eq_false_iff, decide_eq_false_iff_not, decide_eq_false_iff_not]
    exact .inr fun hle => absurd (Nat.le_trans hcodes hle) (by decide)
  · rintro rfl
    exact absurd hcodes (by decide)

/-- An integer does not look like an identifier. -/
theorem write_ne {n : Number} (h : ∃ i, n.toInt? = some i) {name : String}
    (hname : Identifier name) : n.write ≠ name.toList := by
  obtain ⟨c, rest, hwrite, hc⟩ := Json.exists_of_write h
  obtain ⟨first, others, htext, hstart, -⟩ := hname
  intro heq
  rw [hwrite, htext] at heq
  obtain ⟨hdigit, hminus⟩ := IdentifierStart.not_digit hstart
  rcases hc with hc | hc
  · exact hminus ((List.cons.inj heq).1 ▸ hc)
  · rw [(List.cons.inj heq).1, hdigit] at hc
    cases hc

theorem write_inj {n n' : Number} (h : ∃ i, n.toInt? = some i) (h' : ∃ i, n'.toInt? = some i)
    (heq : n.write = n'.write) : n = n' := by
  have hread := Json.Lexical.readNumber_write h Json.Lexical.endsNumber_nil
  rw [heq, Json.Lexical.readNumber_write h' Json.Lexical.endsNumber_nil] at hread
  cases hread
  rfl

theorem Word.isRun (h : Word shape word) : ∀ c ∈ word, isRunChar c = true := by
  cases h with
  | name h => exact isRunChar_of_identifier h
  | reserved h => exact isRunChar_of_identifier (identifier_of_mem_words h)
  | integer h => exact isRunChar_of_mem_write h

theorem Word.exists_cons (h : Word shape word) : ∃ c rest, word = c :: rest := by
  cases h with
  | name h =>
    obtain ⟨first, rest, hname, -⟩ := h
    exact ⟨first, rest, hname⟩
  | reserved h =>
    obtain ⟨first, rest, hname, -⟩ := identifier_of_mem_words h
    exact ⟨first, rest, hname⟩
  | @integer n h =>
    obtain ⟨c, rest, hwrite, -⟩ := Json.exists_of_write h
    exact ⟨c, rest, hwrite⟩

/-- No word begins as a declaration of another kind does. -/
theorem Word.append_ne (h : Word shape word) (hc : isRunChar c = false) :
    (ofShape shape).text ++ rest ≠ c :: rest' := by
  rw [h.text_eq]
  obtain ⟨first, others, rfl⟩ := h.exists_cons
  intro heq
  have hrun := h.isRun first List.mem_cons_self
  rw [(List.cons.inj heq).1, hc] at hrun
  cases hrun

/-- A word shows one shape only. -/
theorem Word.shape_inj (h : Word shape word) (h' : Word shape' word') (heq : word = word') :
    shape = shape' := by
  cases h with
  | name hidentifier hfree =>
    cases h' with
    | name => rw [String.toList_inj.1 heq]
    | reserved h' =>
      rw [String.toList_inj.1 heq] at hfree
      exact absurd (List.mem_map.2 ⟨_, h', rfl⟩) hfree
    | integer h' => exact absurd heq (write_ne h' hidentifier).symm
  | reserved h =>
    cases h' with
    | name _ hfree =>
      rw [← String.toList_inj.1 heq] at hfree
      exact absurd (List.mem_map.2 ⟨_, h, rfl⟩) hfree
    | reserved h' =>
      rw [← String.toList_inj.1 heq] at h'
      have hdistinct : (words.map Prod.snd).Nodup := by decide
      exact congrArg Prod.fst (List.inj_on_of_nodup_map hdistinct h h' rfl)
    | integer h' => exact absurd heq (write_ne h' (identifier_of_mem_words h)).symm
  | integer h =>
    cases h' with
    | name hidentifier => exact absurd heq (write_ne h hidentifier)
    | reserved h' => exact absurd heq (write_ne h (identifier_of_mem_words h'))
    | integer h' => rw [write_inj h h' heq]

/-! ## Strings and keys -/

/-- A quoted string ends at its closing quote. -/
theorem quote_inj {text text' : String}
    (heq : Json.quote text ++ rest = Json.quote text' ++ rest') : text = text' ∧ rest = rest' := by
  have hread (s : String) (rest : List Char) :
      Json.Lexical.readString (((Json.quote s ++ rest).drop 1).map some) =
        .ok (s, rest.map some) := by
    have hquoted := Json.Lexical.readString_quoted s (rest.map some)
    rwa [← List.map_append] at hquoted
  have hboth := hread text rest
  rw [heq, hread text' rest'] at hboth
  obtain ⟨htext, hrest⟩ := Prod.mk.inj (Except.ok.inj hboth)
  exact ⟨htext.symm, (List.map_inj_right fun _ _ => Option.some.inj).1 hrest.symm⟩

theorem isRunChar_of_isPlainKey {key : List Char} (h : isPlainKey key = true) :
    ∀ c ∈ key, isRunChar c = true := by
  cases key with
  | nil => cases h
  | cons first rest =>
    simp only [isPlainKey, Bool.and_eq_true, List.all_eq_true] at h
    refine List.forall_mem_cons.2 ⟨?_, fun c hc => ?_⟩
    · simp [isRunChar, h.1]
    · have hrest := h.2 c hc
      simp only [isRunChar, hrest, Bool.true_or]

/-- A plain key does not begin with a quote. -/
theorem append_ne_quote {key : List Char} (h : isPlainKey key = true) (text : String) :
    key ++ rest ≠ Json.quote text ++ rest' := by
  have hrun := isRunChar_of_isPlainKey h
  cases key with
  | nil => cases h
  | cons first others =>
    intro heq
    have hquote : first = '"' := (List.cons.inj heq).1
    have hfirst := hrun first List.mem_cons_self
    rw [hquote] at hfirst
    exact absurd hfirst (by decide)

/-- Keys are told apart by their texts, whether they stand in quotes or not. -/
theorem keyText_inj {name name' : String} (hrest : EndsRun rest) (hrest' : EndsRun rest')
    (heq : keyText name ++ rest = keyText name' ++ rest') : name = name' ∧ rest = rest' := by
  unfold keyText at heq
  split at heq
  · next hplain =>
    split at heq
    · next hplain' =>
      obtain ⟨hname, hsame⟩ := run_inj (isRunChar_of_isPlainKey hplain)
        (isRunChar_of_isPlainKey hplain') hrest hrest' heq
      exact ⟨String.toList_inj.1 hname, hsame⟩
    · exact absurd heq (append_ne_quote hplain name')
  · split at heq
    · next hplain' => exact absurd heq.symm (append_ne_quote hplain' name)
    · exact quote_inj heq

/-! ## What comes after a declaration -/

/-- What comes after a declaration: nothing, or what closes the part of another declaration in which
it stands. -/
inductive Closing : List Char → Prop where
  | nothing : Closing []
  | array (rest : List Char) : Closing ('>' :: rest)
  | field (rest : List Char) : Closing (';' :: ' ' :: rest)
  | record (rest : List Char) : Closing (' ' :: '}' :: rest)
  | member (rest : List Char) : Closing (')' :: rest)

theorem Closing.endsRun (h : Closing rest) : EndsRun rest := by
  cases h with
  | nothing => nofun
  | _ => exact endsRun_cons rfl _

theorem closing_moreFields (fields : List Field) (rest : List Char) :
    Closing (moreFields fields ++ rest) := by
  cases fields with
  | nil => exact .record rest
  | cons field fields =>
    rw [moreFields_cons]
    exact .field _

/-! ## Shapes told apart -/

/-- The text of a shape shows which shape it is, and where the text ends. -/
def Evident (shape : Shape) : Prop :=
  ∀ (shape' : Shape) (rest rest' : List Char), shape'.Legible → Closing rest → Closing rest' →
    (ofShape shape).text ++ rest = (ofShape shape').text ++ rest' → shape = shape' ∧ rest = rest'

/-- The ways in which the text of a shape begins. -/
inductive Form : Shape → Prop where
  | word {shape : Shape} {word : List Char} (h : Word shape word) : Form shape
  | quoted (text : String) : Form (.literal (.string text))
  | array (element : Shape) : Form (.array element)
  | empty : Form (.object [])
  | record (first : Property) (others : List Property) : Form (.object (first :: others))
  | union (first : Shape) (others : List Shape) : Form (.union (first :: others))

theorem Form.of_reserved (word : String) (h : (shape, word) ∈ words) : Form shape :=
  .word (.reserved h)

theorem form_of_legible (h : shape.Legible) : Form shape := by
  induction shape with
  | reference name =>
    obtain ⟨hidentifier, hfree⟩ := h.names name (.whole _)
    exact .word (.name hidentifier hfree)
  | any => exact .of_reserved "any" (by simp [words])
  | array element => exact .array element
  | boolean => exact .of_reserved "boolean" (by simp [words])
  | literal value =>
    cases value with
    | bool b =>
      cases b with
      | false => exact .of_reserved "false" (by simp [words])
      | true => exact .of_reserved "true" (by simp [words])
    | number n => exact .word (.integer (h.integers n (.whole _)))
    | string text => exact .quoted text
  | null => exact .of_reserved "null" (by simp [words])
  | number => exact .of_reserved "number" (by simp [words])
  | object properties =>
    cases properties with
    | nil => exact .empty
    | cons first others => exact .record first others
  | string => exact .of_reserved "string" (by simp [words])
  | undefined => exact .of_reserved "undefined" (by simp [words])
  | union members =>
    cases members with
    | nil => exact .of_reserved "never" (by simp [words])
    | cons first others => exact .union first others

/-- The field that a property becomes. -/
def fieldOf (p : Property) : Field := ⟨p.name, !p.required, ofShape p.shape⟩

section Texts

variable {first : Property} {others : List Property} {element member : Shape}
  {members : List Shape} {text : String}

theorem text_quoted : (ofShape (.literal (.string text))).text ++ rest =
    '"' :: (text.toList.flatMap Json.escape ++ '"' :: rest) := by
  show '"' :: (text.toList.flatMap Json.escape ++ ['"']) ++ rest = _
  simp

theorem text_empty : (ofShape (.object [])).text ++ rest = '{' :: '}' :: rest := rfl

theorem text_array_word : (ofShape (.array element)).text ++ rest =
    "Array".toList ++ '<' :: ((ofShape element).text ++ '>' :: rest) := by
  rw [ofShape, text_array]
  simp

theorem text_record : (ofShape (.object (first :: others))).text ++ rest =
    '{' :: ' ' :: (fieldText (fieldOf first) ++ (moreFields (ofProperties others) ++ rest)) := by
  obtain ⟨name, shape, required⟩ := first
  rw [ofShape, ofProperties, text_record_cons]
  simp [fieldOf]

theorem text_union : (ofShape (.union (member :: members))).text ++ rest =
    '(' :: ((ofShape member).text ++ ')' :: (moreMembers (ofShapes members) ++ rest)) := by
  rw [ofShape, ofShapes, text_union_cons]
  simp

end Texts

/-- An alias may be named like the word in front of an array, but no bracket comes after it. -/
theorem Word.append_ne_array (h : Word shape word) (hrest : Closing rest) (element : Shape) :
    (ofShape shape).text ++ rest ≠ (ofShape (.array element)).text ++ rest' := by
  rw [h.text_eq, text_array_word]
  intro heq
  have harray : Identifier "Array" := isIdentifier_iff.1 (by decide)
  obtain ⟨-, hsame⟩ := run_inj h.isRun (isRunChar_of_identifier harray) hrest.endsRun
    (endsRun_cons rfl _) heq
  rw [hsame] at hrest
  cases hrest

theorem evident_word (h : Word shape word) : Evident shape := by
  intro shape' rest rest' hlegible hrest hrest' heq
  cases form_of_legible hlegible with
  | word h' =>
    rw [h.text_eq, h'.text_eq] at heq
    obtain ⟨hword, hsame⟩ := run_inj h.isRun h'.isRun hrest.endsRun hrest'.endsRun heq
    exact ⟨h.shape_inj h' hword, hsame⟩
  | array element => exact absurd heq (h.append_ne_array hrest element)
  | _ =>
    -- the others begin with a quote, a brace or a parenthesis
    simp only [text_quoted, text_empty, text_record, text_union] at heq
    exact absurd heq (h.append_ne rfl)

theorem evident_quoted (text : String) : Evident (.literal (.string text)) := by
  intro shape' rest rest' hlegible hrest hrest' heq
  cases form_of_legible hlegible with
  | word h' => exact absurd heq.symm (h'.append_ne rfl)
  | quoted text' =>
    obtain ⟨rfl, hsame⟩ := quote_inj heq
    exact ⟨rfl, hsame⟩
  | _ =>
    simp only [text_array_word, text_empty, text_record, text_union] at heq
    cases heq

theorem evident_array {element : Shape} (h : Evident element) : Evident (.array element) := by
  intro shape' rest rest' hlegible hrest hrest' heq
  cases form_of_legible hlegible with
  | word h' => exact absurd heq.symm (h'.append_ne_array hrest' element)
  | array element' =>
    rw [text_array_word, text_array_word] at heq
    obtain ⟨-, hopened⟩ := List.cons.inj (List.append_cancel_left heq)
    have hpart : element'.Legible := hlegible.part (.element (.whole _))
    obtain ⟨rfl, hclosed⟩ := h element' _ _ hpart (.array rest) (.array rest') hopened
    exact ⟨rfl, (List.cons.inj hclosed).2⟩
  | _ =>
    simp only [text_quoted, text_array_word, text_empty, text_record, text_union] at heq
    cases heq

/-! ### Objects -/

theorem evident_empty : Evident (.object []) := by
  intro shape' rest rest' hlegible hrest hrest' heq
  cases form_of_legible hlegible with
  | word h' => exact absurd heq.symm (h'.append_ne rfl)
  | empty => exact ⟨rfl, List.append_cancel_left heq⟩
  | _ =>
    simp only [text_quoted, text_array_word, text_empty, text_record, text_union] at heq
    cases heq

/-- A key is followed by a question mark or a colon, and the shape stands between that and the
closing of the field. -/
theorem fieldText_inj {p p' : Property} (h : Evident p.shape) (hlegible : p'.shape.Legible)
    (hrest : Closing rest) (hrest' : Closing rest')
    (heq : fieldText (fieldOf p) ++ rest = fieldText (fieldOf p') ++ rest') :
    p = p' ∧ rest = rest' := by
  obtain ⟨name, shape, required⟩ := p
  obtain ⟨name', shape', required'⟩ := p'
  have hends (required : Bool) (text : List Char) :
      EndsRun ((if !required then ['?'] else []) ++ ':' :: text) := by
    cases required <;> exact endsRun_cons rfl _
  simp only [fieldOf, fieldText_mk, List.append_assoc, List.cons_append] at heq
  obtain ⟨rfl, hmark⟩ := keyText_inj (hends required _) (hends required' _) heq
  have hshapes : required = required' ∧
      (ofShape shape).text ++ rest = (ofShape shape').text ++ rest' := by
    cases required <;> cases required' <;> simp at hmark <;> exact ⟨rfl, hmark⟩
  obtain ⟨rfl, htexts⟩ := hshapes
  obtain ⟨rfl, hsame⟩ := h shape' rest rest' hlegible hrest hrest' htexts
  exact ⟨rfl, hsame⟩

theorem ofProperties_cons (p : Property) (others : List Property) :
    ofProperties (p :: others) = fieldOf p :: ofProperties others := by
  obtain ⟨name, shape, required⟩ := p
  rfl

theorem moreFields_inj {properties properties' : List Property}
    (h : ∀ p ∈ properties, Evident p.shape) (hlegible : ∀ p ∈ properties', p.shape.Legible)
    (heq : moreFields (ofProperties properties) ++ rest =
      moreFields (ofProperties properties') ++ rest') :
    properties = properties' ∧ rest = rest' := by
  induction properties generalizing properties' with
  | nil =>
    cases properties' with
    | nil => exact ⟨rfl, List.append_cancel_left heq⟩
    | cons p' others' =>
      rw [ofProperties_cons, moreFields_cons] at heq
      cases heq
  | cons p others ih =>
    obtain ⟨hp, hothers⟩ := List.forall_mem_cons.1 h
    rw [ofProperties_cons, moreFields_cons] at heq
    cases properties' with
    | nil => cases heq
    | cons p' others' =>
      obtain ⟨hp', hothers'⟩ := List.forall_mem_cons.1 hlegible
      rw [ofProperties_cons, moreFields_cons] at heq
      simp only [List.cons_append, List.append_assoc, List.cons.injEq, true_and] at heq
      obtain ⟨rfl, hmore⟩ :=
        fieldText_inj hp hp' (closing_moreFields _ _) (closing_moreFields _ _) heq
      obtain ⟨rfl, hsame⟩ := ih hothers hothers' hmore
      exact ⟨rfl, hsame⟩

theorem evident_record {first : Property} {others : List Property} (hfirst : Evident first.shape)
    (hothers : ∀ p ∈ others, Evident p.shape) : Evident (.object (first :: others)) := by
  intro shape' rest rest' hlegible hrest hrest' heq
  rw [text_record] at heq
  cases form_of_legible hlegible with
  | word h' => exact absurd heq.symm (h'.append_ne rfl)
  | record first' others' =>
    have hproperties : ∀ p ∈ first' :: others', p.shape.Legible := fun p hp =>
      hlegible.part (.property (.whole _) hp)
    obtain ⟨hfirst', hothers'⟩ := List.forall_mem_cons.1 hproperties
    rw [text_record] at heq
    obtain ⟨-, hopened⟩ := List.cons.inj (List.cons.inj heq).2
    obtain ⟨rfl, hmore⟩ :=
      fieldText_inj hfirst hfirst' (closing_moreFields _ _) (closing_moreFields _ _) hopened
    obtain ⟨rfl, hsame⟩ := moreFields_inj hothers hothers' hmore
    exact ⟨rfl, hsame⟩
  | _ =>
    simp only [text_quoted, text_array_word, text_empty, text_union] at heq
    cases heq

/-! ### Unions -/

theorem moreMembers_inj {members members' : List Shape} (h : ∀ member ∈ members, Evident member)
    (hlegible : ∀ member ∈ members', member.Legible) (hrest : Closing rest)
    (hrest' : Closing rest')
    (heq : moreMembers (ofShapes members) ++ rest = moreMembers (ofShapes members') ++ rest') :
    members = members' ∧ rest = rest' := by
  induction members generalizing members' with
  | nil =>
    cases members' with
    | nil => exact ⟨rfl, heq⟩
    | cons member' others' =>
      -- a bar closes nothing
      rw [ofShapes, ofShapes, moreMembers_cons] at heq
      rw [show rest = _ from heq] at hrest
      cases hrest
  | cons member others ih =>
    obtain ⟨hmember, hothers⟩ := List.forall_mem_cons.1 h
    rw [ofShapes, moreMembers_cons] at heq
    cases members' with
    | nil =>
      rw [← show _ = rest' from heq] at hrest'
      cases hrest'
    | cons member' others' =>
      obtain ⟨hmember', hothers'⟩ := List.forall_mem_cons.1 hlegible
      rw [ofShapes, moreMembers_cons] at heq
      simp only [List.cons_append, List.append_assoc, List.cons.injEq, true_and] at heq
      obtain ⟨rfl, hmore⟩ := hmember member' _ _ hmember' (.member _) (.member _) heq
      obtain ⟨rfl, hsame⟩ := ih hothers hothers' (List.cons.inj hmore).2
      exact ⟨rfl, hsame⟩

theorem evident_union {first : Shape} {others : List Shape} (hfirst : Evident first)
    (hothers : ∀ member ∈ others, Evident member) : Evident (.union (first :: others)) := by
  intro shape' rest rest' hlegible hrest hrest' heq
  rw [text_union] at heq
  cases form_of_legible hlegible with
  | word h' => exact absurd heq.symm (h'.append_ne rfl)
  | union first' others' =>
    have hmembers : ∀ member ∈ first' :: others', member.Legible := fun member hm =>
      hlegible.part (.member (.whole _) hm)
    obtain ⟨hfirst', hothers'⟩ := List.forall_mem_cons.1 hmembers
    rw [text_union] at heq
    obtain ⟨rfl, hmore⟩ := hfirst first' _ _ hfirst' (.member _) (.member _) (List.cons.inj heq).2
    obtain ⟨rfl, hsame⟩ := moreMembers_inj hothers hothers' hrest hrest' (List.cons.inj hmore).2
    exact ⟨rfl, hsame⟩
  | _ =>
    simp only [text_quoted, text_array_word, text_empty, text_record] at heq
    cases heq

/-! ### All shapes -/

theorem evident_of_legible (h : shape.Legible) : Evident shape := by
  -- on the shape: what it is made of is legible with it, and comes before a closing in its text
  induction shape with
  | array element ih => exact evident_array (ih (h.part (.element (.whole _))))
  | object properties ih =>
    have hproperties : ∀ p ∈ properties, Evident p.shape := fun p hp =>
      ih p hp (h.part (.property (.whole _) hp))
    cases form_of_legible h with
    | word hword => exact evident_word hword
    | empty => exact evident_empty
    | record first others =>
      obtain ⟨hfirst, hothers⟩ := List.forall_mem_cons.1 hproperties
      exact evident_record hfirst hothers
  | union members ih =>
    have hmembers : ∀ member ∈ members, Evident member := fun member hm =>
      ih member hm (h.part (.member (.whole _) hm))
    cases form_of_legible h with
    | word hword => exact evident_word hword
    | union first others =>
      obtain ⟨hfirst, hothers⟩ := List.forall_mem_cons.1 hmembers
      exact evident_union hfirst hothers
  | literal value =>
    cases form_of_legible h with
    | word hword => exact evident_word hword
    | quoted text => exact evident_quoted text
  | _ =>
    cases form_of_legible h with
    | word hword => exact evident_word hword

end Declaration

/-- Shapes that are shown alike are the same, if their aliases are identifiers other than the words
of the notation and their number literals are integers. -/
theorem Shape.declaration_inj {shape shape' : Shape} (h : shape.Legible) (h' : shape'.Legible) :
    (Declaration.ofShape shape).render = (Declaration.ofShape shape').render ↔ shape = shape' := by
  constructor
  · intro heq
    have htext : (Declaration.ofShape shape).text ++ [] = (Declaration.ofShape shape').text ++ [] :=
      congrArg (· ++ []) (String.ofList_inj.1 heq)
    exact (Declaration.evident_of_legible h shape' [] [] h' .nothing .nothing htext).1
  · rintro rfl
    rfl

/-- A record of two fields, with an alias that is named like the word for arrays. -/
def Shape.orderly : Shape :=
  .object [⟨"a", .array (.alias "b"), true⟩,
    ⟨"c", .union [.literal (.string "x"), .alias "Array", .literal (.number (.negative 2))], false⟩]

/-- A record of one field, whose key and literal hold the notation for the rest of `orderly`. -/
def Shape.muddled : Shape :=
  .object [⟨"a: Array<b>; c",
    .union [.literal (.string "x\") | (Array"), .literal (.number (.negative 2))], false⟩]

/-- What the two records are made of. -/
def Shape.recordParts : List Shape :=
  [orderly, muddled, .array (.alias "b"), .alias "b",
    .union [.literal (.string "x"), .alias "Array", .literal (.number (.negative 2))],
    .union [.literal (.string "x\") | (Array"), .literal (.number (.negative 2))],
    .literal (.string "x"), .literal (.string "x\") | (Array"), .alias "Array",
    .literal (.number (.negative 2))]

theorem Shape.closed_recordParts : (Definitions.mk none []).Closed (· ∈ recordParts) :=
  Definitions.closed_of_next (by
    simp [recordParts, orderly, muddled, Definitions.next, Definitions.get?])

theorem Shape.legible_of_mem_recordParts {shape : Shape} (h : shape ∈ recordParts) :
    shape.Legible where
  names name hpart := by
    have hmem := closed_recordParts.of_part hpart h
    simp only [recordParts, orderly, muddled, List.mem_cons, Shape.alias.injEq, reduceCtorEq,
      List.not_mem_nil, or_false, false_or] at hmem
    rcases hmem with rfl | rfl <;> exact ⟨isIdentifier_iff.1 (by decide), by decide⟩
  integers n hpart := by
    have hmem := closed_recordParts.of_part hpart h
    simp only [recordParts, orderly, muddled, List.mem_cons, Shape.literal.injEq,
      Literal.number.injEq, reduceCtorEq, List.not_mem_nil, or_false, false_or] at hmem
    subst hmem
    exact ⟨-3, rfl⟩

/-- The two records are shown differently. -/
theorem Shape.muddled_told : Shape.orderly.Legible ∧ Shape.muddled.Legible ∧
    (Declaration.ofShape .orderly).render ≠ (Declaration.ofShape .muddled).render := by
  have horderly : Shape.orderly.Legible := legible_of_mem_recordParts (by simp [recordParts])
  have hmuddled : Shape.muddled.Legible := legible_of_mem_recordParts (by simp [recordParts])
  refine ⟨horderly, hmuddled, fun heq => ?_⟩
  have hsame : Shape.orderly = .muddled := (declaration_inj horderly hmuddled).1 heq
  simp [orderly, muddled] at hsame

end JsonShape
