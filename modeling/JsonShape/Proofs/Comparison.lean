import Mathlib.Algebra.Group.Nat.Defs
import Mathlib.Order.Nat
import Mathlib.Tactic.SplitIfs
import JsonShape.Shape.Basic

/-!
# Proofs: comparison of numbers

Two integers compare equal if they are the same, also where one of them fits 64 bits only with a
sign and the other one only without, so that they are compared as doubles. Two doubles are compared
by value. Where an integer meets a double it is rounded first, and below 2⁵³ nothing is lost by
that. Above, a double can stand between two integers and be taken for either of them; this is the
only way in which the comparison of literals fails to be transitive.
-/

namespace JsonShape

namespace Double

variable {x y z : Double} {m n d : Nat}

theorem sameValue_iff :
    x.sameValue y = true ↔ x.rank = y.rank ∧ (x.rank = 0 ∨ x.negative = y.negative) := by
  simp [sameValue]

theorem sameValue_refl (x : Double) : x.sameValue x = true :=
  sameValue_iff.2 ⟨rfl, .inr rfl⟩

theorem sameValue_comm (x y : Double) : x.sameValue y = y.sameValue x := by
  rw [Bool.eq_iff_iff, sameValue_iff, sameValue_iff]
  grind

theorem sameValue_trans (h : x.sameValue y = true) (h' : y.sameValue z = true) :
    x.sameValue z = true := by
  rw [sameValue_iff] at h h' ⊢
  grind

/-! ## Rounding integers -/

theorem roundEven_mul (h : 0 < d) (n : Nat) : roundEven (n * d) d = n := by
  simp [roundEven, Nat.mul_div_cancel n h, h]

theorem roundEven_mul_mul {k : Nat} (h : 0 < k) (n d : Nat) :
    roundEven (n * k) (d * k) = roundEven n d := by
  have htwice : 2 * (n % d * k) = 2 * (n % d) * k := (Nat.mul_assoc 2 _ k).symm
  simp only [roundEven, Nat.mul_div_mul_right n d h, Nat.mul_mod_mul_right, htwice,
    Nat.mul_lt_mul_right h]

/-- Rounding does not fall below a natural that the quotient reaches. -/
theorem le_roundEven (h : 0 < d) (hle : m * d ≤ n) : m ≤ roundEven n d := by
  have hquotient : m ≤ n / d := (Nat.le_div_iff_mul_le h).2 hle
  unfold roundEven
  dsimp only
  split_ifs <;> omega

theorem log2_mul_pow (h : n ≠ 0) (k : Nat) : (n * 2 ^ k).log2 = n.log2 + k := by
  have hpos : 0 < 2 ^ k := Nat.two_pow_pos k
  refine (Nat.log2_eq_iff (Nat.mul_ne_zero h hpos.ne')).2 ⟨?_, ?_⟩
  · rw [Nat.pow_add]
    exact Nat.mul_le_mul_right _ (Nat.log2_self_le h)
  · rw [show n.log2 + k + 1 = n.log2 + 1 + k by omega, Nat.pow_add]
    exact Nat.mul_lt_mul_of_pos_right Nat.lt_log2_self hpos

/-- The rank of an integer: 2⁵² for each doubling, and what the 52 binary places after the leading
one make of it. -/
theorem nearestRank_one (h : n ≠ 0) :
    nearestRank n 1 = (n.log2 + 1022) * binade + roundEven (n * 2 ^ 52) (2 ^ n.log2) := by
  -- the quotient is scaled by 1022 further places, and their number has no part in the result
  have hplaces : 1074 = 52 + 1022 := rfl
  rw [nearestRank, hplaces]
  generalize 1022 = k
  have hshift : n.log2 + (52 + k) - 52 = n.log2 + k := by omega
  simp only [Nat.pow_eq, Nat.div_one, Nat.one_mul, log2_mul_pow h, hshift]
  rw [Nat.pow_add 2 52, Nat.pow_add 2 n.log2, ← Nat.mul_assoc,
    roundEven_mul_mul (Nat.two_pow_pos k)]

/-- An integer of at most 53 bits is not rounded. -/
theorem nearestRank_of_lt (h : n ≠ 0) (hlt : n < 2 ^ 53) :
    nearestRank n 1 = (n.log2 + 1022) * binade + n * 2 ^ (52 - n.log2) := by
  have hlog : n.log2 < 53 := (Nat.log2_lt h).2 hlt
  have hplaces : 52 = 52 - n.log2 + n.log2 := by omega
  have hexact : n * 2 ^ 52 = n * 2 ^ (52 - n.log2) * 2 ^ n.log2 := by
    rw [Nat.mul_assoc, ← Nat.pow_add, ← hplaces]
  rw [nearestRank_one h, hexact, roundEven_mul (Nat.two_pow_pos _)]

theorem nearestRank_zero : nearestRank 0 1 = 0 := by decide +kernel

/-- An integer has at least the rank of the power of two with as many bits. -/
theorem le_nearestRank (h : n ≠ 0) : (n.log2 + 1023) * binade ≤ nearestRank n 1 := by
  have hround : binade ≤ roundEven (n * 2 ^ 52) (2 ^ n.log2) := by
    refine le_roundEven (Nat.two_pow_pos _) ?_
    rw [Nat.mul_comm]
    exact Nat.mul_le_mul_right _ (Nat.log2_self_le h)
  rw [nearestRank_one h, Nat.succ_mul (n.log2 + 1022)]
  exact Nat.add_le_add_left hround _

theorem nearestRank_pos (h : n ≠ 0) : 0 < nearestRank n 1 := by
  have hbits : 0 < n.log2 + 1023 := by omega
  exact Nat.lt_of_lt_of_le (Nat.mul_pos hbits (by decide)) (le_nearestRank h)

/-- A small integer has less than the rank of the next power of two. -/
theorem nearestRank_lt (h : n ≠ 0) (hlt : n < 2 ^ 53) :
    nearestRank n 1 < (n.log2 + 1024) * binade := by
  have hlog : n.log2 < 53 := (Nat.log2_lt h).2 hlt
  have hplaces : n.log2 + 1 + (52 - n.log2) = 53 := by omega
  have hexact : n * 2 ^ (52 - n.log2) < 2 * binade := by
    calc
      n * 2 ^ (52 - n.log2) < 2 ^ (n.log2 + 1) * 2 ^ (52 - n.log2) :=
        Nat.mul_lt_mul_of_pos_right Nat.lt_log2_self (Nat.two_pow_pos _)
      _ = 2 * binade := by rw [← Nat.pow_add, hplaces]; rfl
  have hbits : (n.log2 + 1024) * binade = (n.log2 + 1022) * binade + 2 * binade :=
    Nat.add_mul (n.log2 + 1022) 2 binade
  rw [nearestRank_of_lt h hlt, hbits]
  exact Nat.add_lt_add_left hexact ((n.log2 + 1022) * binade)

/-- The order of integers is kept where the smaller one is not rounded. -/
theorem nearestRank_strictMono (hlt : m < 2 ^ 53) (h : m < n) :
    nearestRank m 1 < nearestRank n 1 := by
  have hn : n ≠ 0 := Nat.ne_zero_of_lt h
  by_cases hm : m = 0
  · rw [hm, nearestRank_zero]
    exact nearestRank_pos hn
  have hlog : m.log2 ≤ n.log2 :=
    (Nat.le_log2 hn).2 (Nat.le_trans (Nat.log2_self_le hm) (Nat.le_of_lt h))
  rcases Nat.lt_or_eq_of_le hlog with hless | hsame
  · calc
      nearestRank m 1 < (m.log2 + 1024) * binade := nearestRank_lt hm hlt
      _ ≤ (n.log2 + 1023) * binade := Nat.mul_le_mul_right _ (by omega)
      _ ≤ nearestRank n 1 := le_nearestRank hn
  · -- with as many bits the greater one is not rounded either
    have hlog' : n.log2 < 53 := by
      rw [← hsame]
      exact (Nat.log2_lt hm).2 hlt
    have hlt' : n < 2 ^ 53 := (Nat.log2_lt hn).1 hlog'
    rw [nearestRank_of_lt hm hlt, nearestRank_of_lt hn hlt', hsame]
    exact Nat.add_lt_add_left (Nat.mul_lt_mul_of_pos_right h (Nat.two_pow_pos _)) _

/-- A small integer shares its rank with no other integer. -/
theorem nearestRank_inj (hlt : m < 2 ^ 53) (h : nearestRank m 1 = nearestRank n 1) : m = n := by
  rcases Nat.lt_trichotomy m n with hless | rfl | hgreater
  · exact absurd h (nearestRank_strictMono hlt hless).ne
  · rfl
  · exact absurd h.symm (nearestRank_strictMono (hgreater.trans hlt) hgreater).ne

variable {i j : Int}

theorem ofInt?_eq_some (h : ofInt? i = some x) :
    x.negative = decide (i < 0) ∧ x.rank = nearestRank i.natAbs 1 := by
  rw [ofInt?, ofRatio?, ofRank?] at h
  split at h
  · cases h
    exact ⟨rfl, rfl⟩
  · cases h

/-- A small integer shares its double with no other integer. -/
theorem ofInt?_inj (hx : ofInt? i = some x) (hy : ofInt? j = some y) (h : x.sameValue y = true)
    (hsmall : i.natAbs < 2 ^ 53) : i = j := by
  obtain ⟨hxsign, hxrank⟩ := ofInt?_eq_some hx
  obtain ⟨hysign, hyrank⟩ := ofInt?_eq_some hy
  obtain ⟨hrank, hsign⟩ := sameValue_iff.1 h
  have hsize : i.natAbs = j.natAbs := nearestRank_inj hsmall (by rw [← hxrank, ← hyrank, hrank])
  rcases hsign with hzero | hsign
  · by_cases hi : i.natAbs = 0
    · omega
    · exact absurd (hxrank.symm.trans hzero) (nearestRank_pos hi).ne'
  · rw [hxsign, hysign, decide_eq_decide] at hsign
    omega

/-- The doubles of a negative and of a positive integer are different: neither of them is a zero. -/
theorem not_sameValue_of_neg_of_pos (hx : ofInt? i = some x) (hy : ofInt? j = some y) (hi : i < 0)
    (hj : 0 < j) : ¬x.sameValue y = true := by
  obtain ⟨hxsign, hxrank⟩ := ofInt?_eq_some hx
  obtain ⟨hysign, -⟩ := ofInt?_eq_some hy
  have hpositive : 0 < x.rank := by
    rw [hxrank]
    exact nearestRank_pos (Int.natAbs_ne_zero.2 (Int.ne_of_lt hi))
  rw [decide_eq_true hi] at hxsign
  rw [decide_eq_false (Int.not_lt.2 (Int.le_of_lt hj))] at hysign
  intro h
  obtain ⟨-, hzero | hsign⟩ := sameValue_iff.1 h
  · exact absurd hzero hpositive.ne'
  · rw [hxsign, hysign] at hsign
    cases hsign

end Double

namespace Number

variable {a b c : Number} {i j : Int} {x y : Double}

/-! ## Numbers of one form and of two -/

/-- The doubles stand beside the integers. -/
theorem toDouble?_of_toInt? (h : a.toInt? = some i) : a.toDouble? = Double.ofInt? i := by
  cases a with
  | double => cases h
  | _ =>
    cases h
    rfl

/-- An integer has one form only. -/
theorem toInt?_inj (ha : a.toInt? = some i) (hb : b.toInt? = some i) : a = b := by
  cases a with
  | double => cases ha
  | natural m =>
    cases ha
    cases b with
    | double => cases hb
    | natural n =>
      have hval : (n.val : Int) = m.val := Option.some.inj hb
      rw [Fin.ext (by omega : n.val = m.val)]
    | negative below =>
      have hval : -1 - (below.val : Int) = m.val := Option.some.inj hb
      omega
  | negative below =>
    cases ha
    cases b with
    | double => cases hb
    | natural n =>
      have hval : (n.val : Int) = -1 - below.val := Option.some.inj hb
      omega
    | negative other =>
      have hval : -1 - (other.val : Int) = -1 - below.val := Option.some.inj hb
      rw [Fin.ext (by omega : other.val = below.val)]

theorem toSigned?_eq_some_iff :
    a.toSigned? = some i ↔ a.toInt? = some i ∧ i < (negativeEnd : Int) := by
  cases a with
  | natural n =>
    rw [toSigned?, toInt?]
    split <;> simp only [Option.some.injEq, reduceCtorEq, false_iff] <;> omega
  | negative below =>
    rw [toSigned?, toInt?]
    simp only [Option.some.injEq]
    omega
  | double => simp [toSigned?, toInt?]

theorem toUnsigned?_eq_some_iff {n : Nat} : a.toUnsigned? = some n ↔ a.toInt? = some (n : Int) := by
  cases a with
  | natural =>
    rw [toUnsigned?, toInt?]
    simp only [Option.some.injEq]
    omega
  | negative =>
    rw [toUnsigned?, toInt?]
    simp only [Option.some.injEq, reduceCtorEq, false_iff]
    omega
  | double => simp [toUnsigned?, toInt?]

theorem toSigned?_eq_none (ha : a.toInt? = some i) (h : (negativeEnd : Int) ≤ i) :
    a.toSigned? = none := by
  refine Option.eq_none_iff_forall_ne_some.2 fun k hk => ?_
  obtain ⟨hk, hlt⟩ := toSigned?_eq_some_iff.1 hk
  obtain rfl : i = k := Option.some.inj (ha.symm.trans hk)
  omega

theorem toUnsigned?_eq_none (ha : a.toInt? = some i) (h : i < 0) : a.toUnsigned? = none := by
  refine Option.eq_none_iff_forall_ne_some.2 fun n hn => ?_
  have hi : i = (n : Int) := Option.some.inj (ha.symm.trans (toUnsigned?_eq_some_iff.1 hn))
  omega

/-- Numbers that fit 64 bits with a sign are compared as such. -/
theorem sameValue_of_signed (ha : a.toSigned? = some i) (hb : b.toSigned? = some j) :
    a.sameValue b = true ↔ i = j := by
  rw [sameValue, ha, hb]
  exact beq_iff_eq

/-- Failing that, numbers that fit 64 bits without a sign are compared as such. -/
theorem sameValue_of_unsigned {m n : Nat} (h : a.toSigned? = none ∨ b.toSigned? = none)
    (ha : a.toUnsigned? = some m) (hb : b.toUnsigned? = some n) :
    a.sameValue b = true ↔ m = n := by
  rw [sameValue]
  split
  · next ha' hb' => simp [ha', hb'] at h
  · rw [ha, hb]
    exact beq_iff_eq

/-- Failing that as well, doubles are compared. -/
theorem sameValue_of_doubles (h : a.toSigned? = none ∨ b.toSigned? = none)
    (h' : a.toUnsigned? = none ∨ b.toUnsigned? = none) :
    a.sameValue b = true ↔
      ∃ x y, a.toDouble? = some x ∧ b.toDouble? = some y ∧ x.sameValue y = true := by
  rw [sameValue]
  split
  · next ha hb => simp [ha, hb] at h
  · split
    · next ha hb => simp [ha, hb] at h'
    · cases a.toDouble? <;> cases b.toDouble? <;> simp

/-- Integers compare equal if they are the same. One that fits only with a sign and one that fits
only without are compared as doubles, but these have different signs. -/
theorem sameValue_of_integers (ha : a.toInt? = some i) (hb : b.toInt? = some j) :
    a.sameValue b = true ↔ i = j := by
  by_cases hsigned : i < (negativeEnd : Int) ∧ j < (negativeEnd : Int)
  · exact sameValue_of_signed (toSigned?_eq_some_iff.2 ⟨ha, hsigned.1⟩)
      (toSigned?_eq_some_iff.2 ⟨hb, hsigned.2⟩)
  have hnone : a.toSigned? = none ∨ b.toSigned? = none := by
    rcases not_and_or.1 hsigned with hi | hj
    · exact .inl (toSigned?_eq_none ha (Int.not_lt.1 hi))
    · exact .inr (toSigned?_eq_none hb (Int.not_lt.1 hj))
  by_cases hunsigned : 0 ≤ i ∧ 0 ≤ j
  · obtain ⟨m, rfl⟩ := Int.eq_ofNat_of_zero_le hunsigned.1
    obtain ⟨n, rfl⟩ := Int.eq_ofNat_of_zero_le hunsigned.2
    rw [sameValue_of_unsigned hnone (toUnsigned?_eq_some_iff.2 ha) (toUnsigned?_eq_some_iff.2 hb)]
    exact Int.ofNat_inj.symm
  have hnone' : a.toUnsigned? = none ∨ b.toUnsigned? = none := by
    rcases not_and_or.1 hunsigned with hi | hj
    · exact .inl (toUnsigned?_eq_none ha (Int.not_le.1 hi))
    · exact .inr (toUnsigned?_eq_none hb (Int.not_le.1 hj))
  rw [sameValue_of_doubles hnone hnone', toDouble?_of_toInt? ha, toDouble?_of_toInt? hb]
  constructor
  · rintro ⟨x, y, hx, hy, hxy⟩
    have hend : 0 < (negativeEnd : Int) := by decide
    by_cases hi : i < 0
    · exact absurd hxy (Double.not_sameValue_of_neg_of_pos hx hy hi (by omega))
    · rw [Double.sameValue_comm] at hxy
      exact absurd hxy (Double.not_sameValue_of_neg_of_pos hy hx (by omega) (by omega))
  · intro hij
    omega

/-- Where a double takes part, doubles are compared. -/
theorem sameValue_of_double (h : a.toInt? = none ∨ b.toInt? = none) :
    a.sameValue b = true ↔
      ∃ x y, a.toDouble? = some x ∧ b.toDouble? = some y ∧ x.sameValue y = true := by
  have hnone : ∀ n : Number, n.toInt? = none → n.toSigned? = none ∧ n.toUnsigned? = none := by
    intro n hn
    cases n with
    | double => exact ⟨rfl, rfl⟩
    | _ => cases hn
  exact sameValue_of_doubles (h.imp (fun ha => (hnone a ha).1) fun hb => (hnone b hb).1)
    (h.imp (fun ha => (hnone a ha).2) fun hb => (hnone b hb).2)

theorem sameValue_refl (a : Number) : a.sameValue a = true := by
  cases a with
  | double x => exact x.sameValue_refl
  | _ => exact (sameValue_of_integers rfl rfl).2 rfl

/-- Numbers that compare equal are the same, or one of them is a double. -/
theorem eq_or_double (h : a.sameValue b = true) :
    a = b ∨ (a.toInt? = none ∨ b.toInt? = none) := by
  cases ha : a.toInt? with
  | none => exact .inr (.inl rfl)
  | some i =>
    cases hb : b.toInt? with
    | none => exact .inr (.inr rfl)
    | some j =>
      have hij : i = j := (sameValue_of_integers ha hb).1 h
      exact .inl (toInt?_inj ha (hij ▸ hb))

theorem sameValue_symm (h : a.sameValue b = true) : b.sameValue a = true := by
  rcases eq_or_double h with rfl | hdouble
  · exact h
  · obtain ⟨x, y, hx, hy, hxy⟩ := (sameValue_of_double hdouble).1 h
    rw [Double.sameValue_comm] at hxy
    exact (sameValue_of_double hdouble.symm).2 ⟨y, x, hy, hx, hxy⟩

/-- An integer so far from zero that it may share its double with others. -/
def Remote (n : Number) : Prop := ∃ i, n.toInt? = some i ∧ 2 ^ 53 ≤ i.natAbs

/-- Two integers that one double is taken for are the same or both remote. -/
theorem eq_or_remote (ha : a.toInt? = some i) (hc : c.toInt? = some j) (hx : a.toDouble? = some x)
    (hz : c.toDouble? = some z) (h : x.sameValue z = true) : i = j ∨ a.Remote ∧ c.Remote := by
  rw [toDouble?_of_toInt? ha] at hx
  rw [toDouble?_of_toInt? hc] at hz
  by_cases hi : i.natAbs < 2 ^ 53
  · exact .inl (Double.ofInt?_inj hx hz h hi)
  by_cases hj : j.natAbs < 2 ^ 53
  · rw [Double.sameValue_comm] at h
    exact .inl (Double.ofInt?_inj hz hx h hj).symm
  · exact .inr ⟨⟨i, ha, Nat.le_of_not_lt hi⟩, ⟨j, hc, Nat.le_of_not_lt hj⟩⟩

/-- Equality is handed on, except from one remote integer over a double to another one. -/
theorem sameValue_trans (h : a.sameValue b = true) (h' : b.sameValue c = true) :
    a.sameValue c = true ∨ b.toInt? = none ∧ a.Remote ∧ c.Remote := by
  rcases eq_or_double h with rfl | hab
  · exact .inl h'
  rcases eq_or_double h' with rfl | hbc
  · exact .inl h
  obtain ⟨x, y, hx, hy, hxy⟩ := (sameValue_of_double hab).1 h
  obtain ⟨y', z, hy', hz, hyz⟩ := (sameValue_of_double hbc).1 h'
  obtain rfl : y = y' := Option.some.inj (hy.symm.trans hy')
  have hxz : x.sameValue z = true := Double.sameValue_trans hxy hyz
  cases ha : a.toInt? with
  | none => exact .inl ((sameValue_of_double (.inl ha)).2 ⟨x, z, hx, hz, hxz⟩)
  | some i =>
    cases hc : c.toInt? with
    | none => exact .inl ((sameValue_of_double (.inr hc)).2 ⟨x, z, hx, hz, hxz⟩)
    | some j =>
      have hb : b.toInt? = none := by
        rcases hab with hnone | hnone
        · rw [ha] at hnone
          cases hnone
        · exact hnone
      rcases eq_or_remote ha hc hx hz hxz with hij | hremote
      · exact .inl ((sameValue_of_integers ha hc).2 hij)
      · exact .inr ⟨hb, hremote⟩

/-- Equality is handed on exactly where a double does not stand between two different remote
integers. -/
theorem sameValue_iff_of_between (h : a.sameValue b = true) (h' : b.sameValue c = true) :
    a.sameValue c = true ↔ ¬(b.toInt? = none ∧ a.Remote ∧ c.Remote ∧ a ≠ c) := by
  constructor
  · rintro hac ⟨-, ⟨i, hi, -⟩, ⟨j, hj, -⟩, hne⟩
    have hij : i = j := (sameValue_of_integers hi hj).1 hac
    exact hne (toInt?_inj hi (hij ▸ hj))
  · intro hnone
    rcases sameValue_trans h h' with hac | ⟨hb, ha, hc⟩
    · exact hac
    by_cases hsame : a = c
    · exact hsame ▸ sameValue_refl a
    · exact absurd ⟨hb, ha, hc, hsame⟩ hnone

/-- Numbers that compare equal to one number compare equal to the same numbers, unless one of them
is a remote integer. -/
theorem sameValue_congr (ha : ¬a.Remote) (hb : ¬b.Remote) (h : a.sameValue c = true)
    (h' : b.sameValue c = true) (d : Number) : a.sameValue d = b.sameValue d := by
  have hab : a.sameValue b = true := by
    rcases sameValue_trans h (sameValue_symm h') with hab | ⟨-, hremote, -⟩
    · exact hab
    · exact absurd hremote ha
  rw [Bool.eq_iff_iff]
  constructor
  · intro had
    rcases sameValue_trans (sameValue_symm hab) had with hbd | ⟨-, hremote, -⟩
    · exact hbd
    · exact absurd hremote hb
  · intro hbd
    rcases sameValue_trans hab hbd with had | ⟨-, hremote, -⟩
    · exact had
    · exact absurd hremote ha

end Number

/-! ## Number literals -/

/-- How number literals compare. Every one accepts its own number; acceptance is symmetric, and
between integers it is equality. It is handed on from number to number, except from one remote
integer over a double to a different one. So two literals, neither of them a remote integer, accept
the same numbers or share none. -/
theorem Literal.accepts_consistently (a b c : Number) :
    (Literal.number a).accepts (.number a) = true ∧
      ((Literal.number a).accepts (.number b) = true →
        (Literal.number b).accepts (.number a) = true) ∧
      (∀ i j : Int, a.toInt? = some i → b.toInt? = some j →
        ((Literal.number a).accepts (.number b) = true ↔ i = j)) ∧
      ((Literal.number a).accepts (.number b) = true →
        (Literal.number b).accepts (.number c) = true →
          ((Literal.number a).accepts (.number c) = true ↔
            ¬(b.toInt? = none ∧ a.Remote ∧ c.Remote ∧ a ≠ c))) ∧
      (¬a.Remote → ¬b.Remote →
        (∀ d : Number, (Literal.number a).accepts (.number d) =
          (Literal.number b).accepts (.number d)) ∨
        ∀ d : Number, ¬((Literal.number a).accepts (.number d) = true ∧
          (Literal.number b).accepts (.number d) = true)) := by
  refine ⟨Number.sameValue_refl a, Number.sameValue_symm,
    fun _ _ => Number.sameValue_of_integers, Number.sameValue_iff_of_between, fun ha hb => ?_⟩
  by_cases hshared : ∃ d, a.sameValue d = true ∧ b.sameValue d = true
  · obtain ⟨d, h, h'⟩ := hshared
    exact .inl (Number.sameValue_congr ha hb h h')
  · exact .inr (not_exists.1 hshared)

/-- The integer 10. -/
def Number.ten : Number := .natural ⟨10, by decide⟩

/-- The double 10. -/
def Double.ten : Double := ⟨false, 0x4024000000000000, by decide⟩

/-- The integer 10 and the double 10 are neither of them remote, and share the integer 10. So as
literals they accept the same numbers. -/
theorem Literal.ten_accepted :
    ¬Number.ten.Remote ∧ ¬(Number.double .ten).Remote ∧
      (Literal.number .ten).accepts (.number .ten) = true ∧
      (Literal.number (.double .ten)).accepts (.number .ten) = true ∧
      ∀ c : Number, (Literal.number .ten).accepts (.number c) =
        (Literal.number (.double .ten)).accepts (.number c) := by
  have hinteger : ¬Number.ten.Remote := by
    rintro ⟨i, ⟨⟩, hle⟩
    exact absurd hle (by decide)
  have hdouble : ¬(Number.double .ten).Remote := fun ⟨_, hi, _⟩ => nomatch hi
  have hshared : (Literal.number (.double .ten)).accepts (.number .ten) = true := by
    decide +kernel
  obtain ⟨hself, -, -, -, hagree⟩ := Literal.accepts_consistently .ten (.double .ten) .ten
  rcases hagree hinteger hdouble with hsame | hnone
  · exact ⟨hinteger, hdouble, hself, hshared, hsame⟩
  · exact absurd ⟨hself, hshared⟩ (hnone .ten)

/-- The double 2⁵³. -/
def Double.wide : Double := ⟨false, 1076 * Double.binade, by decide⟩

/-- The integer 2⁵³, which is not rounded. -/
def Number.wide : Number := .natural ⟨0x20000000000000, by decide⟩

/-- The integer 2⁵³ + 1, which is rounded to 2⁵³. -/
def Number.wider : Number := .natural ⟨0x20000000000001, by decide⟩

/-- Two integers that are different share a double, so acceptance is no equivalence. -/
theorem Literal.wide_and_wider :
    (Literal.number .wide).accepts (.number (.double .wide)) = true ∧
      (Literal.number (.double .wide)).accepts (.number .wider) = true ∧
      (Literal.number .wide).accepts (.number .wider) = false ∧
      ¬Equivalence fun a b : Number => (Literal.number a).accepts (.number b) = true := by
  have hwide : (Literal.number .wide).accepts (.number (.double .wide)) = true := by
    decide +kernel
  have hwider : (Literal.number (.double .wide)).accepts (.number .wider) = true := by
    decide +kernel
  have hdifferent : (Literal.number .wide).accepts (.number .wider) = false := rfl
  refine ⟨hwide, hwider, hdifferent, fun h => ?_⟩
  have hsame : (Literal.number .wide).accepts (.number .wider) = true := h.trans hwide hwider
  rw [hdifferent] at hsame
  cases hsame

end JsonShape
