import Readout.CommandLine.Grammar
import Readout.Decimal.Reader
import Readout.Text.Address
/-!
# Values on the command line

What the options of the command line take.  A file name is not empty; addresses, words and ports
are written as C integers; counts are plain decimal numbers.
-/

namespace Readout.CommandLine.Value

/-- A text that no reader understands. -/
def orRefuse {α : Type} : Option α → Except Usage α
  | some a => .ok a
  | none => .error .valueRefused

def text (s : String) : Except Usage String := .ok s

def fileName (s : String) : Except Usage String :=
  if s.isEmpty then .error .valueMissing else .ok s

/-- A C integer from zero on with so many bits. -/
def literal (bits : Nat) (s : String) : Except Usage Nat :=
  orRefuse (Text.CInteger.parseNat? bits s.toList)

/-- A decimal number with an optional sign. -/
def decimal? (cs : List Char) : Option Int :=
  let (negative, digits) := Text.CInteger.splitSign cs
  (Text.magnitude? 10 digits).map fun n => if negative then -(n : Int) else n

/-- A decimal number from zero to `last`; zero may be negative. -/
def count (last : Nat) (s : String) : Except Usage Nat :=
  orRefuse <|
    match decimal? s.toList with
    | some (.ofNat n) => if n ≤ last then some n else none
    | _ => none

/-- A decimal number of seconds below `2 ^ 64`, which has no minus sign. -/
def seconds (s : String) : Except Usage Nat :=
  match s.toList with
  | '-' :: _ => .error .valueRefused
  | _ => count (UInt64.size - 1) s

def real (s : String) : Except Usage Decimal.Binary64 := orRefuse (Decimal.read? s.toList)

def address (s : String) : Except Usage Text.Address := orRefuse (Text.Address.parse? s.toList)

end Readout.CommandLine.Value
