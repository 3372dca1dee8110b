import Readout.Flash.Geometry
import Std.Data.HashMap
/-!
# NOR flash

A flash of words at byte addresses.  An erased word has all bits set, and writing can only clear
bits; they are set again by erasing a whole sector.

* `Nor.word` is the view: what every address holds;
* `word_commitWord`, `word_eraseSector` say what the operations do to it.
-/

namespace Readout

/-- The words that were ever written, by address; every other word is erased. -/
structure Nor where
  cells : Std.HashMap UInt32 Word := {}

namespace Nor

/-- The word at an address. -/
def word (f : Nor) (address : UInt32) : Word := f.cells.getD address Flash.erasedWord

/-- The addresses of `n` words from `start` on. -/
def addresses (start : UInt32) : (n : Nat) → List UInt32
  | 0 => []
  | n + 1 => start :: addresses (start + 4) n

/-- Read words from an address on. -/
def read (f : Nor) (start : UInt32) (n : Nat) : List Word := (addresses start n).map f.word

/-- Put a word in place of what is there. -/
def putWord (f : Nor) (address : UInt32) (w : Word) : Nor := ⟨f.cells.insert address w⟩

/-- Put words from an address on in place of what is there. -/
def put (f : Nor) (start : UInt32) : List Word → Nor
  | [] => f
  | w :: ws => (f.putWord start w).put (start + 4) ws

/-- Write a word: its clear bits are cleared. -/
def commitWord (f : Nor) (address : UInt32) (w : Word) : Nor :=
  f.putWord address (f.word address &&& w)

/-- Write words from an address on. -/
def commit (f : Nor) (start : UInt32) : List Word → Nor
  | [] => f
  | w :: ws => (f.commitWord start w).commit (start + 4) ws

/-- Erase the sector that holds an address.  The topmost sector, which ends where the addresses end, is
erased like the others; what a board does there is not specified. -/
def eraseSector (f : Nor) (address : UInt32) : Nor :=
  ⟨f.cells.filter fun a _ => Flash.sector a != Flash.sector address⟩

/-! ## The view -/

theorem word_putWord (f : Nor) (a b : UInt32) (w : Word) :
    (f.putWord a w).word b = if a = b then w else f.word b := by
  simp [word, putWord, Std.HashMap.getD_insert]

theorem word_commitWord (f : Nor) (a b : UInt32) (w : Word) :
    (f.commitWord a w).word b = if a = b then f.word a &&& w else f.word b := by
  rw [commitWord, word_putWord]

theorem word_eraseSector (f : Nor) (a b : UInt32) :
    (f.eraseSector a).word b =
      if Flash.sector b = Flash.sector a then Flash.erasedWord else f.word b := by
  simp only [word, eraseSector, Std.HashMap.getD_eq_getD_getElem?,
    Std.HashMap.getElem?_filter, Std.HashMap.getKey_eq]
  cases f.cells[b]? <;> by_cases h : Flash.sector b = Flash.sector a <;>
    simp [Option.filter, h]

end Nor

end Readout
