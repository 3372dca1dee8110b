import Readout.Image.Fits
/-!
# Capture outputs

A capture stores a stream of datagrams in a file.  The name of the file says how: an image if it
holds `.fits` and the frame has a shape, lines of hexadecimal words if it holds `.txt`, and
otherwise the bytes as they come, after the shape of the frame if it has one.

* `Output.start` begins an output, `Output.take` stores a datagram, `Output.finish` ends it.
-/

namespace Readout.Capture

/-- The shape of a frame; zero rows or columns mean that it is not known. -/
structure Shape where
  rows : UInt32
  cols : UInt32
  deriving DecidableEq, Repr

def Shape.isKnown (s : Shape) : Bool := 0 < s.rows && 0 < s.cols

/-- A file that is written from its start through a buffer. -/
structure Writer where
  file : Handle
  offset : Nat := 0
  buffer : Bytes := []

namespace Writer

def capacity : Nat := 8192

/-- Write what is in the buffer. -/
def flush (w : Writer) (f : Files) : Writer × Files :=
  ({ w with offset := w.offset + w.buffer.length, buffer := [] },
    f.update w.file fun c => c.writeAt w.offset w.buffer)

/-- Write bytes: into the buffer, which is written first if they do not fit, or past it if they are
as many as it holds. -/
def write (w : Writer) (bs : Bytes) (f : Files) : Writer × Files :=
  let (w, f) := if capacity < w.buffer.length + bs.length then w.flush f else (w, f)
  if capacity ≤ bs.length then
    ({ w with offset := w.offset + bs.length }, f.update w.file fun c => c.writeAt w.offset bs)
  else ({ w with buffer := w.buffer ++ bs }, f)

end Writer

/-- Where the datagrams of a capture go. -/
inductive Output
  | image (sink : Image.Sink) (next : Nat)
  | text (writer : Writer)
  | binary (writer : Writer)
  /-- An image was wanted, but images cannot be written. -/
  | discard

/-- Whether a text holds another one. -/
def holds (part text : List Char) : Bool :=
  part.isPrefixOf text ||
    match text with
    | [] => false
    | _ :: rest => holds part rest

/-- How a capture is stored. -/
inductive Encoding
  | image
  | text
  | binary
  | discard
  deriving DecidableEq, Repr

/-- The encoding that a name asks for. -/
def encodingOf (images : Bool) (path : String) (shape : Shape) : Encoding :=
  if holds ".fits".toList path.toList ∧ shape.isKnown then
    if images then .image else .discard
  else if holds ".txt".toList path.toList then .text
  else .binary

namespace Output

/-- Begin an output. -/
def start (images : Bool) (path : String) (shape : Shape) (f : Files) :
    Except Error (Output × Files) :=
  match encodingOf images path shape with
  | .discard => .ok (discard, f)
  | .image =>
    (Image.Sink.create path shape.cols.toNat shape.rows.toNat f).map fun (sink, f) =>
      (image sink 0, f)
  | .text =>
    match f.create path with
    | .error e => .error (.io e)
    | .ok (file, f) => .ok (text { file := file }, f)
  | .binary =>
    match f.create path with
    | .error e => .error (.io e)
    | .ok (file, f) =>
      if shape.isKnown then
        let (w, f) := Writer.write { file } (Word.encode [shape.cols, shape.rows]) f
        .ok (binary w, f)
      else .ok (binary { file := file }, f)

/-- A word as a line of eight hexadecimal digits. -/
def hexLine (w : Word) : Bytes :=
  (Text.hexDigits 8 w.toNat ++ ['\n']).map fun c => UInt8.ofNat c.toNat

/-- Store a datagram. -/
def take (data : Bytes) (f : Files) : Output → Output × Files
  | image sink next =>
    if sink.pixels ≤ next then (image sink next, f)
    else
      let pixels := (Word.decode data).take (sink.pixels - next)
      (image sink (next + pixels.length), sink.write next pixels f)
  | text w =>
    let (w, f) := w.write ((Word.decode data).flatMap hexLine) f
    (text w, f)
  | binary w =>
    let (w, f) := w.write data f
    (binary w, f)
  | discard => (discard, f)

/-- End an output: what is buffered is written. -/
def finish (f : Files) : Output → Files
  | image _ _ => f
  | text w => (w.flush f).2
  | binary w => (w.flush f).2
  | discard => f

end Output

end Readout.Capture
