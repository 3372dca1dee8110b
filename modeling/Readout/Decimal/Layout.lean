import Readout.Decimal.Shortest
/-!
# Writing decimals

A format says where the digits of a floating-point number are written out and where an exponent is
used instead, and how the parts look.
-/

namespace Readout.Decimal

/-- How floating-point numbers are written. -/
structure Layout where
  /-- Numbers below this power of ten are written with an exponent. -/
  smallest : Int
  /-- Numbers from this power of ten on are written with an exponent. -/
  largest : Int
  exponentMark : Char
  nan : String
  infinity : String

/-- The digits with the point after the first `point` of them; there is always a digit on each side
of it. -/
def positional (digits : List Char) (point : Int) : List Char :=
  match point with
  | .ofNat 0 => '0' :: '.' :: digits
  | .ofNat n =>
    let whole := digits.take n ++ List.replicate (n - digits.length) '0'
    let rest := digits.drop n
    whole ++ '.' :: (if rest.isEmpty then ['0'] else rest)
  | .negSucc n => '0' :: '.' :: List.replicate (n + 1) '0' ++ digits

/-- The digits with the point after the first of them, and an exponent. -/
def scientific (mark : Char) (digits : List Char) (exponent : Int) : List Char :=
  let rest := digits.drop 1
  digits.take 1 ++ (if rest.isEmpty then [] else '.' :: rest) ++ mark :: (toString exponent).toList

/-- The text of a positive number. -/
def Layout.positive (l : Layout) (m : Nat) (q : Int) : List Char :=
  let (value, s) := shortest m q
  let digits := Nat.toDigits 10 value
  let point := (digits.length : Int) + s
  if l.smallest < point ∧ point ≤ l.largest then positional digits point
  else scientific l.exponentMark digits (point - 1)

/-- The text of a number.  A zero keeps its sign. -/
def Layout.text (l : Layout) (x : Binary64) : String :=
  match x with
  | .nan _ => l.nan
  | .infinite negative => (if negative then "-" else "") ++ l.infinity
  | .finite negative m q =>
    (if negative then "-" else "") ++
      String.ofList (if m = 0 then positional ['0'] 1 else l.positive m q)

end Readout.Decimal
