import Readout.Error
import Readout.Word
/-!
# Flash geometry

The configuration flash holds 32-bit words at byte addresses.  It is written in pages of 64 words
and erased in sectors of 256 pages; an erased word has all bits set.

* `pageAddress` is the address of a page of an operation, `checkSpan` says whether all pages of an
  operation lie in the 32-bit address space.
-/

namespace Readout.Flash

def pageWords : Nat := 64
def pageBytes : Nat := 256
def sectorBytes : Nat := 65536
def erasedWord : Word := 0xFFFFFFFF

/-- The sector that holds an address. -/
def sector (address : UInt32) : Nat := address.toNat / sectorBytes

/-- The number of groups of `size` that `n` items fill, the last one perhaps in part. -/
def groups (size n : Nat) : Nat := (n + size - 1) / size

/-- The address of page `index` of an operation that starts at `start`. -/
def pageAddress (start : UInt32) (index : Nat) : Except Error UInt32 :=
  let address := start.toNat + index * pageBytes
  if address < UInt32.size then .ok (UInt32.ofNat address)
  else .error (.invalidParameter (.pagePastEnd index start))

/-- All pages of an operation lie in the address space, the last one to its last byte.  An
operation without pages is held to the address of its start. -/
def checkSpan (start : UInt32) (pages : Nat) : Except Error Unit := do
  let last ← pageAddress start (pages - 1)
  if last.toNat + (pageBytes - 1) < UInt32.size then return ()
  else throw (.invalidParameter (.spanPastEnd pages start))

/-- The words of a page: what is given, then erased words. -/
def padPage (ws : List Word) : List Word :=
  ws ++ List.replicate (pageWords - ws.length) erasedWord

/-- The pages that hold the words, each cut to 64 words and the last one filled up. -/
def pagesOf : (count : Nat) → List Word → List (List Word)
  | 0, _ => []
  | count + 1, ws => padPage (ws.take pageWords) :: pagesOf count (ws.drop pageWords)

end Readout.Flash
