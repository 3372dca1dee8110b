import Readout.Decimal.Binary64
import Readout.Text.CInteger
/-!
# Reading decimal numbers

A decimal number has an optional sign, digits with at most one point among them, and an optional
exponent after an `e`; there has to be a digit before the exponent.  The words for infinity and for
no number at all are read in any case.  The value is the nearest floating-point number.

* `read?` reads a number, `Scientific.value` is its value.
-/

namespace Readout.Decimal

/-- The number `digits · 10 ^ exponent`. -/
structure Scientific where
  digits : Nat
  exponent : Int
  deriving DecidableEq, Repr

/-- The length of a number in decimal digits. -/
def digitCount (n : Nat) : Nat := if n = 0 then 0 else (Nat.toDigits 10 n).length

/-- The nearest floating-point number.  Numbers from ten to the 310th on are infinite, and those
below the power of minus 330 are zero, so no large power is ever formed for them. -/
def Scientific.value (s : Scientific) : Binary64 :=
  let place := digitCount s.digits + s.exponent
  if s.digits = 0 ∨ place < -330 then .zero
  else if 310 < place then .infinite false
  else .ofFloat (Float.ofScientific s.digits (s.exponent < 0) s.exponent.natAbs)

/-- An optional sign and what follows it. -/
def splitSign : List Char → Bool × List Char
  | '-' :: r => (true, r)
  | '+' :: r => (false, r)
  | r => (false, r)

/-- The decimal digits at the start of a text, and what follows them. -/
def splitDigits (cs : List Char) : List Char × List Char :=
  (cs.takeWhile Char.isDigit, cs.dropWhile Char.isDigit)

/-- The number that decimal digits denote; none denote zero. -/
def digitsValue (ds : List Char) : Nat := (Text.magnitude? 10 ds).getD 0

/-- An exponent, or nothing at all. -/
def readExponent? : List Char → Option Int
  | [] => some 0
  | c :: r =>
    if c = 'e' ∨ c = 'E' then
      let (negative, ds) := splitSign r
      (Text.magnitude? 10 ds).map fun n => if negative then -(n : Int) else n
    else none

/-- An unsigned decimal number. -/
def readScientific? (cs : List Char) : Option Scientific :=
  let (whole, rest) := splitDigits cs
  let (fraction, rest) :=
    match rest with
    | '.' :: r => splitDigits r
    | r => ([], r)
  if whole.isEmpty && fraction.isEmpty then none
  else
    (readExponent? rest).map fun e =>
      { digits := digitsValue (whole ++ fraction), exponent := e - fraction.length }

/-- Whether a text spells a word, in any case. -/
def spells (word : String) (cs : List Char) : Bool := cs.map Char.toLower == word.toList

/-- The number that an unsigned text denotes. -/
def readUnsigned? (cs : List Char) : Option Binary64 :=
  if spells "inf" cs || spells "infinity" cs then some (.infinite false)
  else if spells "nan" cs then some (.nan false)
  else (readScientific? cs).map Scientific.value

/-- The number that a text denotes. -/
def read? (cs : List Char) : Option Binary64 :=
  let (negative, body) := splitSign cs
  (readUnsigned? body).map fun x => if negative then x.negate else x

end Readout.Decimal
