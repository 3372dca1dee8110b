/-!
# Numbers in a radix

Addresses and register values are written in lower-case hexadecimal, counts in decimal.  A field
of a given width is filled from the left.
-/

namespace Readout.Text

/-- Fill from the left up to `width` characters. -/
def padLeft (width : Nat) (fill : Char) (cs : List Char) : List Char :=
  List.replicate (width - cs.length) fill ++ cs

/-- Fill from the right up to `width` characters. -/
def padRight (width : Nat) (fill : Char) (cs : List Char) : List Char :=
  cs ++ List.replicate (width - cs.length) fill

/-- Lower-case hexadecimal digits, at least `width` of them. -/
def hexDigits (width n : Nat) : List Char := padLeft width '0' (Nat.toDigits 16 n)

/-- A hexadecimal number with its `0x` mark and at least `width` digits. -/
def hex (width n : Nat) : String := String.ofList ('0' :: 'x' :: hexDigits width n)

/-- Two hexadecimal digits for every byte. -/
def hexBytes (bytes : List UInt8) : String :=
  String.ofList (bytes.flatMap fun b => hexDigits 2 b.toNat)

theorem length_padLeft (width : Nat) (fill : Char) (cs : List Char) :
    (padLeft width fill cs).length = max width cs.length := by
  rw [padLeft, List.length_append, List.length_replicate]
  omega

theorem length_padRight (width : Nat) (fill : Char) (cs : List Char) :
    (padRight width fill cs).length = max width cs.length := by
  rw [padRight, List.length_append, List.length_replicate]
  omega

end Readout.Text
