/-!
# Finite doubles

A finite binary64 number is a sign and a magnitude. The magnitudes in increasing order — zero, the
subnormal numbers, the normal numbers — are numbered from zero without a gap, so a magnitude *is*
its place in that order, its `rank`. Every finite double has exactly one sign and rank, and the
first rank that is no double stands where infinity would.

Numbers enter by rounding an exact ratio of naturals to the nearest double, a tie going to the even
neighbour; a product or quotient of doubles is the rounded exact one. All arithmetic is on naturals,
so closed instances evaluate in the kernel and nothing rests on the machine's floating point.

A decimal becomes a double in one of two ways. Either its exact value is rounded (`ofDecimal?`), or
its digits are, and then multiplied or divided by a power of ten, which is a rounded double itself
(`ofParts?`). The second way rounds more than once and can end beside the nearest double.
-/

namespace JsonShape

/-- The number of magnitudes from one power of two to the next, 2⁵². -/
abbrev Double.binade : Nat := 0x10000000000000

/-- A finite binary64 number. Zero has two signs, which are different doubles of equal value. -/
structure Double where
  /-- The sign; true for negative numbers and for negative zero. -/
  negative : Bool
  /-- The place of the magnitude among all magnitudes, in increasing order from zero. -/
  rank : Nat
  /-- There are 2047 · 2⁵² finite magnitudes. -/
  rank_lt : rank < 2047 * Double.binade
  deriving DecidableEq

namespace Double

/-- The quotient `n / d` rounded to the nearest natural, a tie going to the even one. -/
def roundEven (n d : Nat) : Nat :=
  let q := n / d
  let r := n % d
  if 2 * r < d then q
  else if d < 2 * r then q + 1
  else q + q % 2

/-- The exponent of a rank: the value is the significand times `2 ^ (scale - 1074)`. -/
def scale (rank : Nat) : Nat := rank / binade - 1

/-- The significand of a rank: subnormal magnitudes have fewer than 53 bits. -/
def significand (rank : Nat) : Nat :=
  if rank < 2 * binade then rank else binade + rank % binade

/-- The rank of the magnitude nearest to `n / d`, without an upper end. Scaled by 2¹⁰⁷⁴ every
magnitude is a natural, and a significand of 53 bits is left when the quotient is shifted right by
all its bits but 53. -/
def nearestRank (n d : Nat) : Nat :=
  let scaled := n * Nat.pow 2 1074
  let shift := (scaled / d).log2 - 52
  shift * binade + roundEven scaled (d * Nat.pow 2 shift)

/-- The double of a sign and a rank, if the rank is finite. -/
def ofRank? (negative : Bool) (rank : Nat) : Option Double :=
  if h : rank < 2047 * binade then some ⟨negative, rank, h⟩ else none

/-- The double nearest to a ratio, or `none` where that is infinity. -/
def ofRatio? (negative : Bool) (n d : Nat) : Option Double := ofRank? negative (nearestRank n d)

/-- The zero of a sign. -/
def zero (negative : Bool) : Double := ⟨negative, 0, by decide⟩

/-- The double nearest to an integer, or `none` where that is infinity. -/
def ofInt? (i : Int) : Option Double := ofRatio? (decide (i < 0)) i.natAbs 1

/-- The double nearest to `± digits · 10 ^ exponent`, or `none` where that is infinity. The bounds
at 400 only keep the powers small: beyond them a number of `size` digits certainly is too large,
or rounds to zero. -/
def ofDecimal? (negative : Bool) (digits : Nat) (exponent : Int) : Option Double :=
  let size : Int := (digits.log2 + 1 : Nat)
  if digits = 0 then some (zero negative)
  else if 400 < exponent then none
  else if exponent + size < -400 then some (zero negative)
  else if 0 ≤ exponent then ofRatio? negative (digits * Nat.pow 10 exponent.toNat) 1
  else ofRatio? negative digits (Nat.pow 10 (-exponent).toNat)

/-- The magnitude of a rank in units of 2⁻¹⁰⁷⁴, the least one above zero. -/
def units (rank : Nat) : Nat := significand rank * Nat.pow 2 (scale rank)

/-- The product of two doubles, or `none` where that is infinity. -/
def mul? (a b : Double) : Option Double :=
  ofRatio? (a.negative != b.negative) (units a.rank * units b.rank) (Nat.pow 2 (2 * 1074))

/-- The quotient of two doubles, or `none` where that is infinity or the second one is zero. -/
def div? (a b : Double) : Option Double :=
  if b.rank = 0 then none
  else ofRatio? (a.negative != b.negative) (units a.rank) (units b.rank)

/-- The exponent of the greatest power of ten that is finite. -/
def lastPower : Nat := 308

/-- The double nearest to a power of ten, or `none` where that is infinity. -/
def powerOfTen? (k : Nat) : Option Double :=
  if k ≤ lastPower then ofRatio? false (Nat.pow 10 k) 1 else none

/-- Multiplies by a power of ten, or gives `none` where that is infinity. -/
def raise? (x : Double) (k : Nat) : Option Double :=
  match powerOfTen? k with
  | some power => x.mul? power
  | none => if x.rank = 0 then some x else none

/-- Divides by the greatest power of ten as often as told, as long as something is left, and then by
the power of ten of the exponent that remains. -/
def lower? (x : Double) : (times k : Nat) → Option Double
  | 0, k => do x.div? (← powerOfTen? k)
  | times + 1, k =>
    if x.rank = 0 then some x
    else do (← x.div? (← powerOfTen? lastPower)).lower? times k

/-- `± significand · 10 ^ exponent` as a product or quotient of doubles, or `none` where that is
infinity. -/
def ofParts? (negative : Bool) (significand : Nat) (exponent : Int) : Option Double := do
  let x ← ofInt? significand
  let k := exponent.natAbs
  let times := (k - 1) / lastPower
  let y ← if 0 ≤ exponent then x.raise? k else x.lower? times (k - times * lastPower)
  return ⟨negative, y.rank, y.rank_lt⟩

/-- Whether two doubles are the same number: the two zeros are. -/
def sameValue (a b : Double) : Bool :=
  a.rank == b.rank && (a.rank == 0 || a.negative == b.negative)

end Double

end JsonShape
