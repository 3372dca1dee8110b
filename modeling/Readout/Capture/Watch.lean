import Readout.Link.Basic
/-!
# Watching a readout

A readout is complete when a capture has received all its words.  Its counter is looked at from time
to time; a readout whose counter has not changed for longer than a limit has stalled.

* `Watch.look` takes in what the counter says, `isComplete` and `isStalled` are the verdicts;
* `Watch.follow` looks until there is a verdict, whatever the counter is read from.
-/

namespace Readout.Capture

/-- A readout that is being watched. -/
structure Watch where
  /-- The words of the whole readout. -/
  total : Nat
  /-- The longest time without a new word; without a limit a readout never stalls. -/
  limit : Option Duration
  /-- The words at the last look. -/
  words : Nat := 0
  /-- The time of the last look at which the counter had changed. -/
  changed : Nat
  deriving DecidableEq, Repr

namespace Watch

/-- Look at the counter. -/
def look (w : Watch) (time words : Nat) : Watch :=
  { w with words, changed := if words = w.words then w.changed else time }

def isComplete (w : Watch) : Bool := w.total ≤ w.words

def isStalled (w : Watch) (time : Nat) : Bool :=
  match w.limit with
  | some limit => limit < time - w.changed
  | none => false

/-- How a watch ends. -/
inductive Verdict
  | complete
  | stalled
  deriving DecidableEq, Repr

/-- Look at the counter until there is a verdict, at most `patience` times.  `next` waits and gives
the time and the counter; every look is reported.  The report takes no time: the counter changed, and
has or has not been the same for too long, at the time that `next` gives. -/
def follow {m : Type → Type} [Monad m] (next : m (Nat × Nat)) (report : Watch → m Unit) :
    (patience : Nat) → Watch → m (Watch × Option Verdict)
  | 0, w => return (w, none)
  | patience + 1, w => do
    if w.isComplete then return (w, some .complete)
    let (time, words) ← next
    let w := w.look time words
    report w
    if w.isStalled time then return (w, some .stalled)
    follow next report patience w

end Watch

end Readout.Capture
