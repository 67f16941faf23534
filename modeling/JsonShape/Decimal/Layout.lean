import JsonShape.Decimal.Shortest

/-!
# How a double is written

The digits are the fewest that read back. A number whose scientific exponent lies between
`Layout.least` and `Layout.greatest` is written positionally, always with a point and a digit after
it; any other has one digit before the point and an exponent with its sign, without padding.
-/

namespace JsonShape.Decimal

/-- Where positional writing begins and ends. -/
structure Layout where
  /-- The least scientific exponent that is written positionally. -/
  least : Int
  /-- The greatest scientific exponent that is written positionally. -/
  greatest : Int

/-- The layout of doubles in JSON text: `0.00001` and `1000000000000000.0` are positional, `1e-6`
and `1e+16` are not. -/
def Layout.json : Layout := ⟨-5, 15⟩

/-- The decimal digits of a natural. -/
def digitsOf (n : Nat) : List Char := Nat.toDigits 10 n

/-- The text of an integer. -/
def ofInt (i : Int) : List Char :=
  if i < 0 then '-' :: digitsOf i.natAbs else digitsOf i.natAbs

/-- A decimal written positionally. -/
def positional (digits : List Char) (exponent : Int) : List Char :=
  if 0 ≤ exponent then digits ++ List.replicate exponent.toNat '0' ++ ['.', '0']
  else
    let places := (-exponent).toNat
    if places < digits.length then
      digits.take (digits.length - places) ++ '.' :: digits.drop (digits.length - places)
    else '0' :: '.' :: List.replicate (places - digits.length) '0' ++ digits

/-- A decimal written with one digit before the point and an exponent. -/
def scientific (digits : List Char) (exponent : Int) : List Char :=
  let mantissa := match digits with
    | [] => []
    | [d] => [d]
    | d :: rest => d :: '.' :: rest
  mantissa ++ 'e' :: (if exponent < 0 then '-' else '+') :: digitsOf exponent.natAbs

/-- The text of a double. -/
def Layout.write (layout : Layout) (x : Double) : List Char :=
  let s := shortest x.rank
  let digits := digitsOf s.digits
  let exponent := s.exponent + digits.length - 1
  let magnitude :=
    if layout.least ≤ exponent ∧ exponent ≤ layout.greatest then positional digits s.exponent
    else scientific digits exponent
  if x.negative then '-' :: magnitude else magnitude

end JsonShape.Decimal
