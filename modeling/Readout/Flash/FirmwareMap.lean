import Readout.Flash.Geometry
import Readout.Text.CInteger
/-!
# Firmware maps

A firmware image comes with a map file, a table of address ranges in free text.  The range of the
image stands in the first line that ends in two numbers.

* `rangeOfLine?` reads a line, `parse` a whole file;
* `pages` and `sectors` are what an image of that extent covers.
-/

namespace Readout.Flash

/-- The first and the last address of an image, counted from its start in flash. -/
structure FirmwareMap where
  first : UInt32
  last : UInt32
  deriving DecidableEq, Repr

namespace FirmwareMap

/-- The two numbers at the end of a line. -/
def rangeOfLine? (line : List Char) : Option (UInt32 × UInt32) :=
  match (Text.tokens line).reverse with
  | last :: first :: _ => do
    let first ← Text.CInteger.parseWord? first
    let last ← Text.CInteger.parseWord? last
    return (first, last)
  | _ => none

/-- The range of an image, from the text of its map file. -/
def parse (text : List Char) : Except MapError FirmwareMap :=
  match (Text.lines text).findSome? rangeOfLine? with
  | none => .error .noRange
  | some (first, last) =>
    if last < first then .error (.reversed first last) else .ok { first := first, last := last }

/-- The pages from the start of the image to its last address. -/
def pages (m : FirmwareMap) : Nat := m.last.toNat / pageBytes + 1

end FirmwareMap

end Readout.Flash
