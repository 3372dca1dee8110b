import Readout.Flash.BootPage
import Readout.Link.Exchange
/-!
# Programming the flash

A page is written by setting its address, sending its words to the firmware port and committing
them; then it is read back and compared.  The next page follows only when both are the same.

* `programPage` writes and verifies one page, `compare` is the verdict on what was read back;
* `write` programs up to a sector of words, padded to whole pages.
-/

namespace Readout.Flash

variable {σ : Type} [Link σ]

/-- Point the flash at an address. -/
def seek (limit : Option Duration) (address : UInt32) : Host σ Unit :=
  Exchange.execute limit { name := Command.setAddress, second := some address }

/-- Clear the write buffer. -/
def clear (limit : Option Duration) : Host σ Unit :=
  Exchange.execute limit { name := Command.clearBuffers }

/-- Erase the sector that the flash points at. -/
def erase (limit : Option Duration) : Host σ Unit :=
  Exchange.execute limit { name := Command.eraseSector }

/-- Commit a page of buffered words. -/
def commitPage (limit : Option Duration) : Host σ Unit :=
  Exchange.execute limit
    { name := Command.commit, parameter := some (UInt8.ofNat pageWords) }

/-- Ask for words from where the flash points, and receive them. -/
def readBack (limit : Option Duration) (count : Nat) : Host σ Bytes := do
  let _ ← Exchange.command { name := Command.readFlash, parameter := some (UInt8.ofNat count) }
  Host.receive firmwarePort limit

/-- Read words from where the flash points; their number has to fit the parameter of the command. -/
def readPage (limit : Option Duration) (count : Nat) : Host σ Bytes :=
  if count < UInt8.size then readBack limit count
  else Host.fail (.invalidParameter (.readTooLong count))

theorem readPage_eq {limit : Option Duration} {count : Nat} (h : count ≤ pageWords) :
    (readPage limit count : Host σ Bytes) = readBack limit count :=
  if_pos (Nat.lt_of_le_of_lt h (by decide))

/-- The positions from `i` on at which two lists differ, with both words. -/
def differences (i : Nat) : List Word → List Word → List (Nat × Word × Word)
  | w :: ws, r :: rs =>
    if w = r then differences (i + 1) ws rs else (i, w, r) :: differences (i + 1) ws rs
  | _, _ => []

/-- The verdict on a page: nothing, or how what was read differs from what was written. -/
def compare (address : UInt32) (sector index : Nat) (written read : List Word) :
    Option Mismatch :=
  if read = written then none
  else some
    { sector, page := index, address, written := written.length, read := read.length
      differing := if read.length = written.length then differences 0 written read else [] }

/-- Write a page, read it back and compare. -/
def programPage (limit : Option Duration) (address : UInt32) (sector index : Nat)
    (page : List Word) : Host σ Unit := do
  seek limit address
  let _ ← Host.send firmwarePort (Word.encode page)
  commitPage limit
  let read := Word.decode (← readPage limit pageWords)
  match compare address sector index page read with
  | none => return ()
  | some found => Host.fail (.verifyMismatch found)

/-- Program pages from number `index` on. -/
def programPages (limit : Option Duration) (start : UInt32) (index : Nat) :
    List (List Word) → Host σ Unit
  | [] => return ()
  | page :: rest => do
    let address ← Host.ofExcept (pageAddress start index)
    programPage limit address (sector address - sector start) index page
    programPages limit start (index + 1) rest

/-- The pages that `n` words fill; no words fill one page all the same. -/
def pageCount (n : Nat) : Nat := max 1 (groups pageWords n)

/-- Program words from `start` on, at most a sector of them, after erasing the sector of `start` if
wanted.  The answer is the number of words written, padding included. -/
def write (limit : Option Duration) (words : List Word) (start : UInt32) (erasing : Bool) :
    Host σ Nat := do
  let bytes := 4 * words.length
  if sectorBytes < bytes then Host.fail (.sectorOverflow bytes sectorBytes)
  let pages := pageCount words.length
  Host.ofExcept (checkSpan start pages)
  clear limit
  seek limit start
  if erasing then erase limit
  programPages limit start 0 (pagesOf pages words)
  return pages * pageWords

/-- Store a configuration message in one of the ten boot pages. -/
def writeBootPage (limit : Option Duration) (message : List Word) (page : Nat) : Host σ Nat := do
  match BootPage.addresses[page]? with
  | none => Host.fail (.invalidPage page)
  | some address => write limit (BootPage.frame configPort message) address true

end Readout.Flash
