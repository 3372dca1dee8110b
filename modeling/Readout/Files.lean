import Readout.Error
import Readout.Text.Blank
import Readout.Text.Utf8
import Readout.Word
/-!
# Files

The files of one directory.  A file is a string of bytes; a long run of zeros at its end is kept as
a number, as a file system keeps a hole.  The directories above it are known by their paths alone.

* `Content.bytes` is the view of a content, `length_writeAt` the length after a write;
* `get?_put` is the view of a directory after a file was put there;
* `update_put_remove`: what is written to a file that was taken away does not reach its successor;
* `Files.target` is what a path means; `Files.read`, `Files.create` work on a directory;
* `Files.update` writes to a file that was opened before, which may be gone by then.
-/

namespace Readout

/-- The bytes of a file: those that are stored, and the zeros after them. -/
structure Content where
  data : Bytes := []
  hole : Nat := 0
  deriving DecidableEq, Repr

namespace Content

def bytes (c : Content) : Bytes := c.data ++ List.replicate c.hole 0

def length (c : Content) : Nat := c.data.length + c.hole

/-- Put bytes in place of what is at an offset; a gap before it is filled with zeros. -/
def writeAt (c : Content) (offset : Nat) (bs : Bytes) : Content :=
  if bs.isEmpty then c
  else
    let before := c.data.take offset ++ List.replicate (offset - c.data.length) 0
    let data := before ++ bs ++ c.data.drop (offset + bs.length)
    { data, hole := c.length - data.length }

/-- Put a content in place of what is at an offset, as `writeAt` does with its bytes.  If it reaches
the end of the file, the zeros at its end stay a number. -/
def copyAt (c : Content) (offset : Nat) (r : Content) : Content :=
  if r.length = 0 then c
  else if c.length ≤ offset + r.length then
    { data := c.data.take offset ++ List.replicate (offset - c.data.length) 0 ++ r.data
      hole := r.hole }
  else c.writeAt offset r.bytes

/-- The content after the first `n` bytes. -/
def drop (c : Content) (n : Nat) : Content :=
  { data := c.data.drop n, hole := c.hole - (n - c.data.length) }

@[simp] theorem length_bytes (c : Content) : c.bytes.length = c.length := by
  simp [bytes, length]

/-- A write makes a file longer only if it ends beyond the end of the file. -/
theorem length_writeAt (c : Content) (offset : Nat) (bs : Bytes) (h : bs ≠ []) :
    (c.writeAt offset bs).length = max c.length (offset + bs.length) := by
  have hb : bs.isEmpty = false := by simpa using h
  simp only [writeAt, hb, Bool.false_eq_true, ↓reduceIte, length, List.length_append,
    List.length_take, List.length_replicate, List.length_drop]
  omega

end Content

/-- A directory: its files by name, each name once. -/
structure Files where
  entries : List (String × Content) := []
  /-- The names of the files that were taken away. -/
  removed : List String := []
  deriving Repr

/-- An open file: its name, and how many files of that name were taken away before it was opened. -/
structure Handle where
  name : String
  earlier : Nat := 0
  deriving DecidableEq, Repr

namespace Files

/-- What a path means. -/
inductive Target
  | file (name : String)
  /-- A name with a slash after it, which only a directory can have, and why it cannot be read. -/
  | folder (cause : IoError)
  /-- The directory itself, or one above it. -/
  | directory
  | nothing (cause : IoError)

/-- The content of a file. -/
def get? (f : Files) (name : String) : Option Content := f.entries.lookup name

/-- Give a name its content, where it stands or at the end. -/
def assign (name : String) (c : Content) : List (String × Content) → List (String × Content)
  | [] => [(name, c)]
  | (n, old) :: rest =>
    if n = name then (n, c) :: rest else (n, old) :: assign name c rest

/-- Put a content in the place of a file, or make the file. -/
def put (f : Files) (name : String) (c : Content) : Files :=
  { f with entries := assign name c f.entries }

/-- Take a file away. -/
def remove (f : Files) (name : String) : Files :=
  { entries := f.entries.filter (·.1 ≠ name), removed := name :: f.removed }

/-- The names of the files of the directory in order.  Files of other directories have a slash in
their names. -/
def names (f : Files) : List String :=
  ((f.entries.map Prod.fst).filter fun name => !name.toList.contains '/').mergeSort (· ≤ ·)

/-- The longest name of a file, in bytes. -/
def maxName : Nat := 255

/-- The longest path, in bytes. -/
def maxPath : Nat := 4095

/-- What is behind a name that something follows.  The directory holds only files, so that leads
nowhere. -/
def beyond (f : Files) (place name : String) : IoError :=
  if maxName < name.utf8ByteSize then .nameTooLong
  else if (f.get? (place ++ name)).isSome then .notADirectory
  else .noSuchFile

/-- The root of all directories, which is above itself. -/
def root : String := "/"

/-- The directory above a place. -/
def above (place : String) : String := if place = root then root else place ++ "../"

/-- Follow the parts between the slashes of a path from a place.  Parts that are empty or a single
point stay there, and two points go up. -/
def follow (f : Files) (place : String) : List String → Target
  | [] => .directory
  | part :: rest =>
    if part = "" ∨ part = "." then f.follow place rest
    else if part = ".." then f.follow (above place) rest
    else if rest.isEmpty then
      if maxName < part.utf8ByteSize then .nothing .nameTooLong else .file (place ++ part)
    else if rest.all (· = "") then .folder (f.beyond place part)
    else .nothing (f.beyond place part)

/-- What a path means. -/
def target (f : Files) (path : String) : Target :=
  if path.toList.contains '\x00' then .nothing .nulInName
  else if maxPath < path.utf8ByteSize then .nothing .nameTooLong
  else
    match (Text.pieces (· == '/') path.toList).map String.ofList with
    | [] => .nothing .noSuchFile
    | [""] => .nothing .noSuchFile
    | "" :: parts => f.follow root parts
    | parts => f.follow "" parts

/-- The file that a path leads to: its name and its content. -/
def open? (f : Files) (path : String) : Except IoError (String × Content) :=
  match f.target path with
  | .nothing cause => .error cause
  | .directory => .error .isADirectory
  | .folder cause => .error cause
  | .file name =>
    match f.get? name with
    | some c => .ok (name, c)
    | none => .error .noSuchFile

/-- Read a file. -/
def read (f : Files) (path : String) : Except IoError Content := (f.open? path).map Prod.snd

/-- Read a text file. -/
def readText (f : Files) (path : String) : Except IoError (List Char) := do
  match Text.Utf8.decode? (← f.read path).bytes with
  | some cs => .ok cs
  | none => .error .notUtf8

/-- Open a file by its name in the directory. -/
def handle (f : Files) (name : String) : Handle := { name, earlier := f.removed.count name }

/-- Make a file, or empty the one that is there, and open it. -/
def create (f : Files) (path : String) : Except IoError (Handle × Files) :=
  match f.target path with
  | .nothing cause => .error cause
  | .directory => .error .isADirectory
  | .folder _ => .error .isADirectory
  | .file name => .ok (f.handle name, f.put name {})

/-- Change an open file.  What is written to one that was taken away is lost with it, even if there
is another of its name. -/
def update (f : Files) (h : Handle) (change : Content → Content) : Files :=
  match f.get? h.name with
  | some c => if f.handle h.name = h then f.put h.name (change c) else f
  | none => f

/-- Whether a path leads to something. -/
def has (f : Files) (path : String) : Bool :=
  match f.target path with
  | .nothing _ => false
  | .directory => true
  | .folder _ => false
  | .file name => (f.get? name).isSome

/-! ## The view -/

theorem lookup_assign (name other : String) (c : Content) (es : List (String × Content)) :
    (assign name c es).lookup other = if other = name then some c else es.lookup other := by
  have beq (n : String) : (other == n) = decide (other = n) := rfl
  induction es with
  | nil => by_cases h : other = name <;> simp [assign, List.lookup_cons, beq, h]
  | cons e es ih =>
    obtain ⟨n, old⟩ := e
    by_cases hn : n = name
    · subst hn
      by_cases h : other = n <;> simp [assign, List.lookup_cons, beq, h]
    · by_cases ho : other = n
      · subst ho
        simp [assign, hn]
      · simp [assign, List.lookup_cons, beq, hn, ho, ih]

/-- What the directory holds after a file was put there. -/
theorem get?_put (f : Files) (name other : String) (c : Content) :
    (f.put name c).get? other = if other = name then some c else f.get? other :=
  lookup_assign name other c f.entries

/-- A file that was opened before it was taken away does not share its name's next content. -/
theorem update_put_remove (f : Files) (name : String) (c : Content) (change : Content → Content) :
    ((f.remove name).put name c).update (f.handle name) change = (f.remove name).put name c := by
  have hget : ((f.remove name).put name c).get? name = some c := by rw [get?_put, if_pos rfl]
  have hne : ((f.remove name).put name c).handle name ≠ f.handle name := by
    intro h
    have hcount := congrArg Handle.earlier h
    simp only [handle, put, remove, List.count_cons_self] at hcount
    omega
  unfold update
  rw [show (f.handle name).name = name from rfl, hget]
  exact if_neg hne

end Files

end Readout
