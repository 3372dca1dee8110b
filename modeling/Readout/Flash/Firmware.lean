import Readout.Flash.FirmwareMap
import Readout.Flash.Program
/-!
# Firmware images

An image is programmed page by page from an address at a sector boundary.  A sector is erased when
the first of its pages comes up.  The words of an image are stored least significant byte first, and
what lies past its end is left erased.

* `writeImage` programs an image and reports the pages that are done.
-/

namespace Readout.Flash

/-- A word from its bytes in an image, least significant first. -/
def imageWord (a b c d : UInt8) : Word := Word.ofBytes d c b a

/-- The words of an image; missing bytes of the last word are erased ones. -/
def imageWords : Bytes → List Word
  | a :: b :: c :: d :: r => imageWord a b c d :: imageWords r
  | [] => []
  | [a] => [imageWord a 0xFF 0xFF 0xFF]
  | [a, b] => [imageWord a b 0xFF 0xFF]
  | [a, b, c] => [imageWord a b c 0xFF]

/-- The page that an image begins with. -/
def imagePage (image : Bytes) : List Word := padPage (imageWords (image.take pageBytes))

variable {σ : Type} [Link σ]

/-- Program pages from number `index` of `total` on; `sector` is the last sector that was erased,
counted from the start. -/
def writeImagePages (limit : Option Duration) (start : UInt32) (total : Nat) :
    (index sector : Nat) → (pages : Nat) → Bytes → Host σ Unit
  | _, _, 0, _ => return ()
  | index, last, pages + 1, image => do
    let address ← Host.ofExcept (pageAddress start index)
    seek limit address
    let current :=
      if address.toNat % sectorBytes = 0 then (address.toNat - start.toNat) / sectorBytes else last
    if address.toNat % sectorBytes = 0 then erase limit
    programPage limit address current index (imagePage image)
    Host.note (.progress (index + 1) total)
    writeImagePages limit start total (index + 1) current pages (image.drop pageBytes)

/-- Program an image whose extent a map gives; the answer is the number of pages. -/
def writeImage (limit : Option Duration) (image : Bytes) (map : FirmwareMap) (start : UInt32) :
    Host σ Nat := do
  if start.toNat % sectorBytes ≠ 0 then Host.fail (.unalignedAddress start)
  Host.ofExcept (checkSpan start map.pages)
  clear limit
  Host.note (.progress 0 map.pages)
  writeImagePages limit start map.pages 0 0 map.pages image
  return map.pages

end Readout.Flash
