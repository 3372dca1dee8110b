import Readout.Flash.Dump
import Readout.Flash.Firmware
import Readout.Proofs.Link.Runs
/-!
# Operations and their parts

The operations of the flash check their arguments before they send anything.  The equations of this
file part the checks from what is sent.

* `write_eq` is an operation on words, `writeImage_eq` one on an image, `dump_eq` a dump;
* `writeImagePages_succ` is the round of an image page, `dumpPages_succ` that of a page of a dump.
-/

namespace Readout.Flash

variable {σ : Type} [Link σ] {limit : Option Duration}

/-- What an operation on words does once its arguments are accepted. -/
def writeParts (limit : Option Duration) (words : List Word) (start : UInt32) (erasing : Bool) :
    Host σ Nat := do
  clear limit
  seek limit start
  (if erasing then erase limit else pure ())
  programPages limit start 0 (pagesOf (pageCount words.length) words)
  return pageCount words.length * pageWords

theorem write_eq (words : List Word) (start : UInt32) (erasing : Bool) :
    (write limit words start erasing : Host σ Nat) =
      if sectorBytes < 4 * words.length then
        Host.fail (.sectorOverflow (4 * words.length) sectorBytes)
      else Host.ofExcept (checkSpan start (pageCount words.length)) >>= fun _ =>
        writeParts limit words start erasing := by
  unfold write writeParts
  split
  · rfl
  · cases erasing <;> rfl

/-- What goes before an image page: the address is set, and a new sector erased. -/
def openPage (limit : Option Duration) (address : UInt32) : Host σ Unit := do
  seek limit address
  (if address.toNat % sectorBytes = 0 then erase limit else pure ())

/-- What the round of an image page does at its address. -/
def imageRound (limit : Option Duration) (start address : UInt32) (total index last : Nat)
    (page : List Word) : Host σ Unit := do
  openPage limit address
  programPage limit address
    (if address.toNat % sectorBytes = 0 then (address.toNat - start.toNat) / sectorBytes else last)
    index page
  Host.note (.progress (index + 1) total)

theorem writeImagePages_succ (start : UInt32) (total index last pages : Nat) (image : Bytes) :
    (writeImagePages limit start total index last (pages + 1) image : Host σ Unit) =
      Host.ofExcept (pageAddress start index) >>= fun address =>
        imageRound limit start address total index last (imagePage image) >>= fun _ =>
          writeImagePages limit start total (index + 1)
            (if address.toNat % sectorBytes = 0 then (address.toNat - start.toNat) / sectorBytes
              else last)
            pages (image.drop pageBytes) := by
  rw [writeImagePages]
  congr 1
  funext address
  unfold imageRound openPage
  split <;> simp only [bind_assoc, pure_bind]

theorem FirmwareMap.pages_pos (map : FirmwareMap) : 0 < map.pages := Nat.succ_pos _

/-- What an operation on an image does once its arguments are accepted. -/
def imageParts (limit : Option Duration) (image : Bytes) (pages : Nat) (start : UInt32) :
    Host σ Nat := do
  clear limit
  Host.note (.progress 0 pages)
  writeImagePages limit start pages 0 0 pages image
  return pages

theorem writeImage_eq (image : Bytes) (map : FirmwareMap) (start : UInt32) :
    (writeImage limit image map start : Host σ Nat) =
      if start.toNat % sectorBytes ≠ 0 then Host.fail (.unalignedAddress start)
      else Host.ofExcept (checkSpan start map.pages) >>= fun _ =>
        imageParts limit image map.pages start := by
  unfold writeImage imageParts
  split <;> rfl

/-- A dump asks for words, and hands over what it is answered. -/
def request (limit : Option Duration) (count : Nat) : Host σ Nat :=
  readBack limit count >>= handOver count

/-- What follows a full page of a dump: the address of the next one is set, and the other pages are
read. -/
def dumpRest (limit : Option Duration) (start : UInt32) (index pages : Nat) : Host σ Nat := do
  let address ← Host.ofExcept (pageAddress start index)
  seek limit address
  dumpPages limit start index pages

theorem dumpPages_succ (start : UInt32) (index pages : Nat) :
    (dumpPages limit start index (pages + 1) : Host σ Nat) =
      request limit pageWords >>= fun read =>
        dumpRest limit start (index + 1) pages >>= fun rest => pure (read + rest) := by
  rw [dumpPages, readPage_eq (Nat.le_refl _)]
  simp only [request, dumpRest, bind_assoc]

/-- What a dump does once its arguments are accepted. -/
def dumpParts (limit : Option Duration) (start : UInt32) (words : Nat) : Host σ Nat := do
  clear limit
  seek limit start
  let read ← dumpPages limit start 0 (words / pageWords)
  if words % pageWords = 0 then return read
  else
    let last ← request limit (words % pageWords)
    return read + last

theorem dump_eq (start : UInt32) (words : Nat) :
    (dump limit start words : Host σ Nat) =
      Host.ofExcept (checkSpan start (groups pageWords words)) >>= fun _ =>
        dumpParts limit start words := by
  have hrest : words % pageWords ≤ pageWords := Nat.le_of_lt (Nat.mod_lt _ (by decide))
  unfold dump dumpParts
  simp only [request, readPage_eq hrest, bind_assoc]

end Readout.Flash
