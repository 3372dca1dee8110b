import Readout.Capture.Output
/-!
# The table of captures

A capture listens on a port of the host and stores what arrives there until it is closed.  Captures
are numbered in the order in which they are launched, and a number is never used again.

* `Table.launch` starts a capture, `Table.take` gives it a datagram, `Table.stop` ends it on its own,
  `Table.close` and `Table.closeAll` end captures and give the words they received.
-/

namespace Readout.Capture

/-- A capture.  It runs until the host closes it or until it ends on its own, on an error; it does not
run any more in either case, and one flag stands for both. -/
structure Task where
  /-- The port it listens on; one that the system chose has no number here. -/
  port : Option Port
  output : Output
  words : Nat := 0
  running : Bool := true

structure Table where
  tasks : List Task := []

namespace Table

def size (t : Table) : Nat := t.tasks.length

/-- Whether a capture exists and runs. -/
def isValid (t : Table) (id : Nat) : Bool :=
  match t.tasks[id]? with
  | some task => task.running
  | none => false

/-- The words that a capture has received. -/
def words? (t : Table) (id : Nat) : Option Nat := (t.tasks[id]?).map Task.words

/-- Whether a running capture listens on a port. -/
def listensOn (t : Table) (port : Port) : Bool :=
  t.tasks.any fun task => task.running && task.port == some port

/-- Start a capture of an output that is open; the answer is its number. -/
def launch (t : Table) (port : Option Port) (output : Output) : Nat × Table :=
  (t.size, ⟨t.tasks ++ [{ port := port, output := output }]⟩)

/-- A capture takes a datagram, cut to the longest that the host takes in. -/
def Task.take (data : Bytes) (f : Files) (task : Task) : Task × Files :=
  let data := data.take maxDatagram
  let (output, f) := task.output.take data f
  ({ task with output, words := task.words + data.length / 4 }, f)

/-- Give a datagram to a capture; one that does not run takes nothing. -/
def take (t : Table) (id : Nat) (data : Bytes) (f : Files) : Table × Files :=
  match t.tasks[id]? with
  | some task =>
    if task.running then
      let (task, f) := Task.take data f task
      (⟨t.tasks.set id task⟩, f)
    else (t, f)
  | none => (t, f)

/-- The number of the running capture on a port. -/
def idOn? (t : Table) (port : Port) : Option Nat :=
  t.tasks.findIdx? fun task => task.running && task.port == some port

/-- End a running capture: its output is finished. -/
def stop (t : Table) (id : Nat) (f : Files) : Table × Files :=
  match t.tasks[id]? with
  | some task =>
    if task.running then
      (⟨t.tasks.set id { task with running := false }⟩, task.output.finish f)
    else (t, f)
  | none => (t, f)

/-- Close a running capture; the answer is the number of words that it received. -/
def close (t : Table) (id : Nat) (f : Files) : Except Error (Nat × Table × Files) :=
  match t.tasks[id]? with
  | some task =>
    if task.running then
      let (t, f) := t.stop id f
      .ok (task.words, t, f)
    else .error (.invalidTask id)
  | none => .error (.invalidTask id)

/-- Close the captures with the given numbers that run; the answer is how many did. -/
def closeEach (t : Table) (f : Files) : List Nat → Nat × Table × Files
  | [] => (0, t, f)
  | id :: ids =>
    match t.close id f with
    | .ok (_, t, f) =>
      let (n, rest) := closeEach t f ids
      (n + 1, rest)
    | .error _ => closeEach t f ids

/-- Close all running captures; the answer is their number. -/
def closeAll (t : Table) (f : Files) : Nat × Table × Files := closeEach t f (List.range t.size)

end Table

end Readout.Capture
