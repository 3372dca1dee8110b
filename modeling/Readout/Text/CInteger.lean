import Readout.Text.Blank
/-!
# C integer literals

Register files, map files, word files and command lines write integers the way C does: an
optional sign, then `0x` and hexadecimal digits, or `0` and octal digits, or decimal digits.
Blanks around the literal do not count, and the whole literal has to be consumed.

* `Radix.split` takes the radix mark off a literal;
* `magnitude?` is the value of a digit string, and none if it is empty or holds a foreign digit;
* `CInteger.parse?` puts the parts together and refuses what a signed 64-bit integer cannot hold.
-/

namespace Readout.Text

/-- The radixes of a literal. -/
inductive Radix
  | octal
  | decimal
  | hexadecimal
  deriving DecidableEq, Repr

namespace Radix

def base : Radix → Nat
  | octal => 8
  | decimal => 10
  | hexadecimal => 16

/-- The radix of an unsigned literal, and its digits: `0x` or `0X` marks hexadecimal, a `0` with
more to come marks octal. -/
def split : List Char → Radix × List Char
  | '0' :: 'x' :: digits => (hexadecimal, digits)
  | '0' :: 'X' :: digits => (hexadecimal, digits)
  | '0' :: d :: digits => (octal, d :: digits)
  | digits => (decimal, digits)

end Radix

/-- The value of an ASCII digit or letter as a digit. -/
def digitValue? (c : Char) : Option Nat :=
  let n := c.toNat
  if 48 ≤ n ∧ n ≤ 57 then some (n - 48)
  else if 97 ≤ n ∧ n ≤ 102 then some (n - 87)
  else if 65 ≤ n ∧ n ≤ 70 then some (n - 55)
  else none

/-- One more digit of a number in radix `base`. -/
def pushDigit (base acc : Nat) (c : Char) : Option Nat :=
  (digitValue? c).bind fun d => if d < base then some (base * acc + d) else none

/-- The number that a non-empty string of digits below `base` denotes. -/
def magnitude? (base : Nat) : List Char → Option Nat
  | [] => none
  | digits => digits.foldlM (pushDigit base) 0

namespace CInteger

/-- The sign of a literal and what follows it. -/
def splitSign : List Char → Bool × List Char
  | '-' :: r => (true, r)
  | '+' :: r => (false, r)
  | r => (false, r)

/-- The integer that a literal denotes: its magnitude is below 2^63 under either sign. -/
def parse? (text : List Char) : Option Int :=
  let (negative, body) := splitSign (trim text)
  let (radix, digits) := Radix.split body
  match magnitude? radix.base digits with
  | none => none
  | some m => if m < 0x8000000000000000 then some (if negative then -(m : Int) else m) else none

/-- A literal for an unsigned number below `2 ^ bits`. -/
def parseNat? (bits : Nat) (text : List Char) : Option Nat :=
  match parse? text with
  | some (.ofNat n) => if n < 1 <<< bits then some n else none
  | _ => none

/-- A literal for a 32-bit word. -/
def parseWord? (text : List Char) : Option UInt32 := (parseNat? 32 text).map UInt32.ofNat

end CInteger

end Readout.Text
