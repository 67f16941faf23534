import JsonShape.Decimal.Double

/-!
# The fewest digits that read back

A double stands for all reals that round to it: the interval that reaches halfway to the magnitude
below and halfway to the magnitude above, its ends included exactly when the significand is even.
Among the decimals in that interval those with the fewest digits are the ones to write, and of
these the one nearest to the double itself.

For one, two, three … digits the only candidates are the double's two neighbours on the grid of
decimals of that many digits, so the search tries the grids in turn. Seventeen digits always
suffice.
-/

namespace JsonShape.Decimal

/-- A decimal: `digits · 10 ^ exponent`. -/
structure Scientific where
  /-- The digits, read as a natural. -/
  digits : Nat
  /-- The power of ten of the last digit. -/
  exponent : Int

/-- A rational `num / den`, kept as two naturals. -/
structure Ratio where
  /-- The numerator. -/
  num : Nat
  /-- The denominator. -/
  den : Nat

/-- The decimal `c · 10 ^ k` as a ratio. -/
def Ratio.ofDecimal (c : Nat) (k : Int) : Ratio :=
  if 0 ≤ k then ⟨c * Nat.pow 10 k.toNat, 1⟩ else ⟨c, Nat.pow 10 (-k).toNat⟩

/-- Order of ratios. -/
def Ratio.lt (a b : Ratio) : Bool := a.num * b.den < b.num * a.den

/-- Order of ratios. -/
def Ratio.le (a b : Ratio) : Bool := a.num * b.den ≤ b.num * a.den

/-- How many quarters of the least magnitude make one. -/
def quarterUnit : Nat := 4 * Nat.pow 2 1074

/-- The exact value of a magnitude, as a multiple of the quarter of the least magnitude. -/
def quarters (rank : Nat) : Nat := 4 * Double.significand rank * Nat.pow 2 (Double.scale rank)

/-- The lower end of the reals that round to a magnitude. The magnitude below a power of two is
only half as far away as the one above. -/
def lowerEnd (rank : Nat) : Ratio :=
  let gap := if Double.significand rank = Double.binade ∧ 0 < Double.scale rank then 1 else 2
  ⟨quarters rank - gap * Nat.pow 2 (Double.scale rank), quarterUnit⟩

/-- The upper end of the reals that round to a magnitude. -/
def upperEnd (rank : Nat) : Ratio :=
  ⟨quarters rank + 2 * Nat.pow 2 (Double.scale rank), quarterUnit⟩

/-- Whether a ratio rounds to the magnitude. -/
def readsBack (rank : Nat) (r : Ratio) : Bool :=
  if Double.significand rank % 2 = 0 then (lowerEnd rank).le r && r.le (upperEnd rank)
  else (lowerEnd rank).lt r && r.lt (upperEnd rank)

/-- The exact value of a magnitude. -/
def value (rank : Nat) : Ratio := ⟨quarters rank, quarterUnit⟩

/-- The least power of ten above the value of a non-zero magnitude. The binary logarithm gives an
estimate that is off by at most one. -/
def tenAbove (rank : Nat) : Int :=
  let estimate : Int := (((quarters rank).log2 : Int) - 1076) * 30103 / 100000
  ([estimate - 1, estimate, estimate + 1].find?
    fun k => (value rank).lt (Ratio.ofDecimal 1 k)).getD (estimate + 2)

/-- The candidate of `count` digits, if one of the two neighbours of the value on that grid rounds
to the magnitude. Of two that do the nearer is taken, and the even one of two equally near. -/
def candidate? (rank count : Nat) : Option Scientific :=
  let k := tenAbove rank - count
  let v := value rank
  let below :=
    if 0 ≤ k then v.num / (v.den * Nat.pow 10 k.toNat) else v.num * Nat.pow 10 (-k).toNat / v.den
  let lower := readsBack rank (Ratio.ofDecimal below k)
  let upper := readsBack rank (Ratio.ofDecimal (below + 1) k)
  let middle : Ratio :=
    let m := Ratio.ofDecimal (2 * below + 1) k
    ⟨m.num, 2 * m.den⟩
  if lower && upper then
    if v.lt middle then some ⟨below, k⟩
    else if middle.lt v then some ⟨below + 1, k⟩
    else some ⟨below + below % 2, k⟩
  else if lower then some ⟨below, k⟩
  else if upper then some ⟨below + 1, k⟩
  else none

/-- A decimal without trailing zeros in its digits; `budget` bounds how many are removed. -/
def stripZeros : (budget : Nat) → Scientific → Scientific
  | 0, s => s
  | budget + 1, s =>
    if s.digits ≠ 0 ∧ s.digits % 10 = 0 then stripZeros budget ⟨s.digits / 10, s.exponent + 1⟩
    else s

/-- The decimal with the fewest digits that reads back as the magnitude. -/
def shortest (rank : Nat) : Scientific :=
  if rank = 0 then ⟨0, 0⟩
  else
    match (List.range 17).findSome? fun i => candidate? rank (i + 1) with
    | some s => stripZeros 20 s
    | none => ⟨Double.significand rank * Nat.pow 2 (Double.scale rank), 0⟩

end JsonShape.Decimal
