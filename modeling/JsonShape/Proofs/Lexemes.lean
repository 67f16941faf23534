import JsonShape.Json.Lexical
import JsonShape.Json.Printer
import JsonShape.Proofs.Results

/-!
# Proofs: strings, numbers and white space read back

What the printer writes for a string and for an integer is read back as that string and that
integer, whatever text comes after it. Only a number has to be set off from what follows: a digit, a
point or an exponent would go on with it.
-/

namespace JsonShape.Json.Lexical

variable {text : Text}

/-! ## White space -/

/-- Characters that may stand between the parts of a JSON text. -/
def Blank (cs : List Char) : Prop := ∀ c ∈ cs, isSpace (some c) = true

theorem blank_nil : Blank [] := List.forall_mem_nil _

theorem isSpace_iff {c : Char} : isSpace (some c) = true ↔ c ∈ [' ', '\t', '\n', '\r'] := by
  simp [isSpace, or_assoc]

theorem skipSpace_blank {cs : List Char} (h : Blank cs) (text : Text) :
    skipSpace (cs.map some ++ text) = skipSpace text := by
  refine List.dropWhile_append_of_pos fun s hs => ?_
  obtain ⟨c, hc, rfl⟩ := List.mem_map.1 hs
  exact h c hc

theorem skipSpace_cons {s : Symbol} (h : isSpace s = false) (rest : Text) :
    skipSpace (s :: rest) = s :: rest :=
  List.dropWhile_cons_of_neg (by simp [h])

/-! ## Strings -/

theorem hexValue?_hexDigit {n : Nat} (h : n < 16) : Text.hexValue? (hexDigit n) = some n := by
  have hall : ∀ d : Fin 16, Text.hexValue? (hexDigit d) = some d.val := by decide
  exact hall ⟨n, h⟩

/-- Four digits that spell a control character are read as that character. -/
theorem readStringFrom_hex {c : Char} (h : c.toNat < 32) (read : List Char) (text : Text) :
    readStringFrom (.hex none 4 0) read true
        (['0', '0', hexDigit (c.toNat / 16), hexDigit (c.toNat % 16)].map some ++ text) =
      readStringFrom .plain (c :: read) true text := by
  have hhigh := hexValue?_hexDigit (show c.toNat / 16 < 16 by omega)
  have hlow := hexValue?_hexDigit (Nat.mod_lt c.toNat (show 0 < 16 by decide))
  have hzero : Text.hexValue? '0' = some 0 := rfl
  have hvalue : c.toNat / 16 * 16 + c.toNat % 16 = c.toNat := by omega
  have hmeaning : hexMeaning none c.toNat = .ok (.inl c) := by
    rw [hexMeaning]
    simp only [show ¬(0xDC00 ≤ c.toNat ∧ c.toNat ≤ 0xDFFF) by omega,
      show ¬(0xD800 ≤ c.toNat ∧ c.toNat ≤ 0xDBFF) by omega, decide_false, Bool.false_eq_true,
      if_false, Char.ofNat_toNat]
  simp [readStringFrom, hzero, hhigh, hlow, hvalue, hmeaning]

/-- What is written for a character inside a string is read as that character. -/
theorem readStringFrom_escape (c : Char) (read : List Char) (text : Text) :
    readStringFrom .plain read true ((escape c).map some ++ text) =
      readStringFrom .plain (c :: read) true text := by
  -- one case for each way to write a character, in the order in which they are tried
  by_cases hquote : c = '"'
  · subst hquote
    rfl
  by_cases hbackslash : c = '\\'
  · subst hbackslash
    rfl
  by_cases hfeed : c = '\n'
  · subst hfeed
    rfl
  by_cases hreturn : c = '\r'
  · subst hreturn
    rfl
  by_cases htab : c = '\t'
  · subst htab
    rfl
  by_cases hbackspace : c.toNat = 8
  · obtain rfl : Char.ofNat 8 = c := by rw [← hbackspace, Char.ofNat_toNat]
    rfl
  by_cases hform : c.toNat = 12
  · obtain rfl : Char.ofNat 12 = c := by rw [← hform, Char.ofNat_toNat]
    rfl
  rw [escape, if_neg hquote, if_neg hbackslash, if_neg hfeed, if_neg hreturn, if_neg htab,
    if_neg hbackspace, if_neg hform]
  by_cases hcontrol : c.toNat < 32
  · rw [if_pos hcontrol]
    exact readStringFrom_hex hcontrol read text
  · rw [if_neg hcontrol]
    simp [readStringFrom, hquote, hbackslash, hcontrol]

/-- A string is read back up to its closing quote. -/
theorem readString_quoted (s : String) (text : Text) :
    readString ((s.toList.flatMap escape ++ ['"']).map some ++ text) = .ok (s, text) := by
  -- for all characters read so far, which the reader keeps in reverse
  have hrest : ∀ cs read : List Char,
      readStringFrom .plain read true ((cs.flatMap escape ++ ['"']).map some ++ text) =
        .ok (String.ofList (read.reverse ++ cs), text) := by
    intro cs
    induction cs with
    | nil =>
      intro read
      simp [readStringFrom]
    | cons c cs ih =>
      intro read
      rw [List.flatMap_cons, List.append_assoc, List.map_append, List.append_assoc,
        readStringFrom_escape, ih]
      simp
  rw [readString, hrest, List.reverse_nil, List.nil_append, String.ofList_toList]

/-! ## Numbers -/

/-- A number is over where this text begins: nothing in it goes on with the number. -/
def EndsNumber (text : Text) : Prop :=
  ∀ c rest, text = some c :: rest → c.isDigit = false ∧ c ≠ '.' ∧ c ≠ 'e' ∧ c ≠ 'E'

theorem endsNumber_nil : EndsNumber [] := nofun

theorem endsNumber_cons {c : Char} (h : c.isDigit = false ∧ c ≠ '.' ∧ c ≠ 'e' ∧ c ≠ 'E')
    (rest : Text) : EndsNumber (some c :: rest) := by
  rintro _ _ ⟨⟩
  exact h

theorem endsNumber_blank {cs : List Char} (hblank : Blank cs) (h : EndsNumber text) :
    EndsNumber (cs.map some ++ text) := by
  cases cs with
  | nil => exact h
  | cons c cs =>
    refine endsNumber_cons ?_ _
    have hc := isSpace_iff.1 (hblank c List.mem_cons_self)
    simp only [List.mem_cons, List.not_mem_nil, or_false] at hc
    rcases hc with rfl | rfl | rfl | rfl <;> decide

theorem EndsNumber.startsWithDigit (h : EndsNumber text) : startsWithDigit text = false := by
  rcases text with _ | ⟨_ | c, rest⟩
  · rfl
  · rfl
  · exact (h c rest rfl).1

theorem EndsNumber.fractionPart {ended : Fault} (h : EndsNumber text) :
    fractionPart ended text = .ok (none, text) := by
  rw [Lexical.fractionPart]
  rintro rest rfl
  exact (h '.' rest rfl).2.1 rfl

theorem EndsNumber.exponentPart {ended : Fault} (h : EndsNumber text) :
    exponentPart ended text = .ok (none, text) := by
  rw [Lexical.exponentPart]
  · rintro rest rfl
    exact (h 'e' rest rfl).2.2.1 rfl
  · rintro rest rfl
    exact (h 'E' rest rfl).2.2.2 rfl

theorem digits_append {ds : List Char} (hds : ∀ d ∈ ds, d.isDigit = true)
    (htext : startsWithDigit text = false) : digits (ds.map some ++ text) = (ds, text) := by
  induction ds with
  | nil =>
    rcases text with _ | ⟨_ | c, rest⟩
    · rfl
    · rfl
    · have hc : c.isDigit = false := htext
      simp [digits, hc]
  | cons d ds ih =>
    obtain ⟨hd, hds⟩ := List.forall_mem_cons.1 hds
    rw [List.map_cons, List.cons_append, digits, if_pos hd, ih hds]

theorem isDigit_of_mem_digitsOf {n : Nat} : ∀ d ∈ Decimal.digitsOf n, d.isDigit = true :=
  fun _ => Nat.isDigit_of_mem_toDigits (by decide) (by decide)

theorem naturalOf_digitsOf (n : Nat) : naturalOf (Decimal.digitsOf n) = n := by
  have hfold : naturalOf (Decimal.digitsOf n) = Nat.ofDigitChars 10 (Decimal.digitsOf n) 0 := by
    rw [Nat.ofDigitChars_eq_foldl, naturalOf]
    simp only [Nat.mul_comm 10]
    rfl
  rw [hfold]
  exact Nat.ofDigitChars_ten_toDigits

theorem le_foldl_appendDigit (n : Nat) (ds : List Char) : n ≤ ds.foldl appendDigit n := by
  induction ds generalizing n with
  | nil => exact Nat.le_refl n
  | cons d ds ih =>
    have hstep : n ≤ appendDigit n d := by
      rw [appendDigit]
      omega
    exact Nat.le_trans hstep (ih _)

/-- Digits of a natural that fits are all gathered. -/
theorem gather_of_lt {n : Nat} {ds : List Char}
    (h : ds.foldl appendDigit n < Number.naturalEnd) :
    gather n ds = (ds.foldl appendDigit n, 0) := by
  induction ds generalizing n with
  | nil => rfl
  | cons d ds ih =>
    have hstep : appendDigit n d < Number.naturalEnd :=
      Nat.lt_of_le_of_lt (le_foldl_appendDigit _ ds) h
    rw [gather, if_pos hstep, ih h, List.foldl_cons]

theorem gather_digitsOf {n : Nat} (h : n < Number.naturalEnd) :
    gather 0 (Decimal.digitsOf n) = (n, 0) := by
  have hspells : (Decimal.digitsOf n).foldl appendDigit 0 = n := naturalOf_digitsOf n
  rw [gather_of_lt (by rwa [hspells]), hspells]

/-- Only zero is written with a zero in front. -/
theorem eq_zero_of_digitsOf {n : Nat} {ds : List Char} (h : Decimal.digitsOf n = '0' :: ds) :
    n = 0 := by
  induction n using Nat.strongRecOn generalizing ds with
  | ind n ih =>
    rw [Decimal.digitsOf, Nat.toDigits_eq_if (by decide)] at h
    split at h
    · next hlt =>
      have hdigit : n.digitChar = '0' := (List.cons.inj h).1
      have hall : ∀ d : Fin 10, d.val.digitChar = '0' → d.val = 0 := by decide
      exact hall ⟨n, hlt⟩ hdigit
    · next hge =>
      have hlt : n / 10 < n := by omega
      obtain ⟨d, others, hd⟩ := List.exists_cons_of_ne_nil
        (show Nat.toDigits 10 (n / 10) ≠ [] from Nat.toDigits_ne_nil)
      rw [hd, List.cons_append] at h
      have hzero := ih (n / 10) hlt (hd.trans (by rw [(List.cons.inj h).1]))
      omega

theorem wholePart_digitsOf (ended : Fault) (n : Nat) (htext : startsWithDigit text = false) :
    wholePart ended ((Decimal.digitsOf n).map some ++ text) = .ok (Decimal.digitsOf n, text) := by
  have hdigits := digits_append (@isDigit_of_mem_digitsOf n) htext
  -- a zero in front is read on its own, so only zero may begin with one
  by_cases hzero : n = 0
  · subst hzero
    have hd : Decimal.digitsOf 0 = ['0'] := Nat.toDigits_zero 10
    rw [hd]
    simp [wholePart, htext]
  · obtain ⟨d, ds, hd⟩ := List.exists_cons_of_ne_nil
      (show Decimal.digitsOf n ≠ [] from Nat.toDigits_ne_nil)
    rw [hd] at hdigits ⊢
    rw [List.map_cons, List.cons_append] at hdigits ⊢
    rw [wholePart, hdigits]
    · intro h
      cases h
    · rintro rest ⟨⟩
      exact hzero (eq_zero_of_digitsOf hd)

/-- The digits of a natural are a numeral. -/
theorem numeral_digitsOf (ended : Fault) (n : Nat) (h : EndsNumber text) :
    numeral ended ((Decimal.digitsOf n).map some ++ text) =
      .ok (⟨false, Decimal.digitsOf n, none, none⟩, text) := by
  have hwhole := wholePart_digitsOf ended n h.startsWithDigit
  have hsign : ∀ rest, (Decimal.digitsOf n).map some ++ text ≠ some '-' :: rest := by
    intro rest hrest
    obtain ⟨d, ds, hd⟩ := List.exists_cons_of_ne_nil
      (show Decimal.digitsOf n ≠ [] from Nat.toDigits_ne_nil)
    have hdigit := isDigit_of_mem_digitsOf d (hd ▸ List.mem_cons_self)
    rw [hd] at hrest
    cases hrest
    cases hdigit
  rw [numeral]
  · simp [hwhole, h.fractionPart, h.exponentPart]
  · exact hsign

/-- A minus in front of a numeral makes it negative. -/
theorem numeral_minus (ended : Fault) (n : Nat) (h : EndsNumber text) :
    numeral ended (some '-' :: ((Decimal.digitsOf n).map some ++ text)) =
      .ok (⟨true, Decimal.digitsOf n, none, none⟩, text) := by
  have hwhole := wholePart_digitsOf ended n h.startsWithDigit
  simp [numeral, hwhole, h.fractionPart, h.exponentPart]

/-- Digits that fit 64 bits are read as an integer. -/
theorem value_digitsOf (negative : Bool) {n : Nat} (h : n < Number.naturalEnd) :
    Numeral.value ⟨negative, Decimal.digitsOf n, none, none⟩ = integer negative n := by
  rw [Numeral.value, gather_digitsOf h]
  exact if_pos ⟨rfl, rfl, rfl⟩

theorem integer_natural (m : Fin Number.naturalEnd) : integer false m.val = .ok (.natural m) := by
  have hvalue : Number.ofInt? (m.val : Int) = some (.natural m) := by
    have hfits : (m.val : Int).toNat < Number.naturalEnd := m.isLt
    rw [Number.ofInt?, if_pos (Int.natCast_nonneg m.val), dif_pos hfits]
    rfl
  simp only [integer, Bool.false_eq_true, false_and, if_false, hvalue]

theorem integer_negative (below : Fin Number.negativeEnd) :
    integer true (below.val + 1) = .ok (.negative below) := by
  have hvalue : Number.ofInt? (-((below.val + 1 : Nat) : Int)) = some (.negative below) := by
    have hsign : ¬(0 : Int) ≤ -((below.val + 1 : Nat) : Int) := by omega
    have hbelow : (-1 - -((below.val + 1 : Nat) : Int)).toNat = below.val := by omega
    have hfits : (-1 - -((below.val + 1 : Nat) : Int)).toNat < Number.negativeEnd := by
      rw [hbelow]
      exact below.isLt
    rw [Number.ofInt?, if_neg hsign, dif_pos hfits]
    simp only [hbelow]
  simp only [integer, Nat.add_one_ne_zero, and_false, if_false, if_true, hvalue]

/-- An integer is read back. -/
theorem readNumber_write {n : Number} (hn : ∃ i, n.toInt? = some i) (h : EndsNumber text) :
    readNumber (n.write.map some ++ text) = .ok (n, text) := by
  cases n with
  | natural m =>
    rw [Number.write, readNumber, numeral_digitsOf _ _ h]
    simp only [ok_bind, value_digitsOf false m.isLt, integer_natural, pure_eq_ok]
  | negative below =>
    have hroom : below.val + 1 < Number.naturalEnd :=
      Nat.lt_of_le_of_lt below.isLt (by decide)
    rw [Number.write, List.map_cons, List.cons_append, readNumber, numeral_minus _ _ h]
    simp only [ok_bind, value_digitsOf true hroom, integer_negative, pure_eq_ok]
  | double x =>
    obtain ⟨i, hi⟩ := hn
    cases hi

end JsonShape.Json.Lexical
