import Readout.Files
import Readout.Image.Header
/-!
# Images

An image is a file: a header, then a data unit of signed 32-bit pixels, row by row and most
significant byte first, both filled to whole blocks.  The data unit is there from the start, all
zeros, so a pixel that was never written is zero.

* `blank` is a new image; `Sink.create` makes one in a file;
* `Sink.put` changes pixels inside an image and ignores the others;
* `addCards` puts cards before the end of a header and moves the data unit if the header grows.
-/

namespace Readout.Image

/-- Bytes of a pixel. -/
def pixelBytes : Nat := 4

/-- The content of an image whose pixels are all zero. -/
def blank (width height : Nat) : Content where
  data := Header.encode (Header.primary width height)
  hole := wholeBlocks (width * height * pixelBytes)

/-- An open image: its file, where its data unit begins, and how many pixels it has. -/
structure Sink where
  file : Handle
  offset : Nat
  pixels : Nat
  deriving DecidableEq, Repr

namespace Sink

/-- Make an image of the given shape, which must have pixels.  Shapes of `2 ^ 62` pixels or more, whose
bytes no count of 64 bits holds, are not meant. -/
def create (path : String) (width height : Nat) (f : Files) : Except Error (Sink × Files) :=
  if width = 0 ∨ height = 0 then .error (.invalidParameter (.emptyImage width height))
  else
    match f.create path with
    | .error e => .error (.io e)
    | .ok (file, f) =>
      let image := blank width height
      .ok ({ file, offset := image.data.length, pixels := width * height }, f.put file.name image)

/-- The content of an image after pixels from number `first` on are written; those beyond the image
are ignored. -/
def put (s : Sink) (first : Nat) (pixels : List Word) (c : Content) : Content :=
  if s.pixels ≤ first then c
  else
    c.writeAt (s.offset + first * pixelBytes) (Word.encode (pixels.take (s.pixels - first)))

/-- Write pixels to the file of an image. -/
def write (s : Sink) (first : Nat) (pixels : List Word) (f : Files) : Files :=
  f.update s.file (s.put first pixels)

end Sink

/-- Put a header in the place of one of length `old`.  If it is longer, what follows the old one is
moved behind it first. -/
def replaceHeader (old : Nat) (header : Bytes) (c : Content) : Content :=
  let moved := if header.length = old then c else c.copyAt header.length (c.drop old)
  moved.writeAt 0 header

/-- Add cards to the header of an image at a path. -/
def addCards (path : String) (cards : List Card) (c : Content) : Except Error Content :=
  match Header.length? c.data with
  | none => .error (.protocol (.notAnImage path))
  | some old =>
    if c.length < old then .error (.protocol (.truncatedImage path old c.length))
    else
      let header := Header.assemble (Header.cards (c.data.take old) ++ cards.map Card.bytes)
      .ok (replaceHeader old header c)

/-- Add cards to the header of an image file. -/
def addCardsTo (path : String) (cards : List Card) (f : Files) : Except Error Files :=
  match f.open? path with
  | .error e => .error (.io e)
  | .ok (file, content) => (addCards path cards content).map (f.put file)

end Readout.Image
