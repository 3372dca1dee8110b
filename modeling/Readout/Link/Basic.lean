import Readout.Error
import Readout.Word
/-!
# The link to the board

A link carries datagrams between the host and the ports of a board.  What it does with them is up
to the link: a datagram may be lost, late or unexpected, and a call may fail or never return.  The
library is written against this interface only, so that what holds for every link holds for every
board and every network.

A host run is a computation over a link.  It keeps a history of what the host did, in order; a run
ends with a value, with an error, or not at all.

* `Link` is the interface, `Host` the type of runs;
* `Host.send`, `Host.tryReceive` are the calls on the link, each of which is one event.
-/

namespace Readout

/-- A length of time in nanoseconds.

A host counts on from its clock, which holds seconds in 63 bits, to the end of a limit.  What is said
here of a wait is meant for limits that end within the range of the clock. -/
abbrev Duration := Nat

def Duration.milliseconds (n : Nat) : Duration := n * 1000000
def Duration.seconds (n : Nat) : Duration := n * 1000000000

/-- How a call on a link ends. -/
inductive Reply (α : Type)
  | done (a : α)
  | failed (cause : LinkError)
  | never

/-- A link whose whole condition is a value of type `σ`. -/
class Link (σ : Type) where
  /-- Hand a datagram for a port of the board to the link; the answer is the number of bytes. -/
  send : Port → Bytes → σ → Reply Nat × σ
  /-- Wait for a datagram for a port of the host, at most so long if there is a limit. -/
  receive : Port → Option Duration → σ → Reply Bytes × σ
  /-- The time, in nanoseconds from some start. -/
  now : σ → Nat
  /-- How often a waiting host may still ask before the link is taken to be silent for ever. -/
  patience : σ → Nat

/-- One thing that a host did. -/
inductive Event
  | sent (port : Port) (data : Bytes) (result : Except LinkError Nat)
  | received (port : Port) (limit : Option Duration) (result : Except LinkError Bytes)
  /-- So many of so many pages are written. -/
  | progress (done total : Nat)
  /-- Bytes read from flash were handed over. -/
  | stored (data : Bytes)

/-- The bytes that an event hands over. -/
def Event.bytes : Event → Bytes
  | stored data => data
  | _ => []

/-- A link in use, with what the host did on it. -/
structure Journal (σ : Type) where
  link : σ
  events : Array Event := #[]

/-- Why a run has no value. -/
inductive Stop
  | error (e : Error)
  | never

/-- A run of the host over a link. -/
abbrev Host (σ : Type) := ExceptT Stop (StateM (Journal σ))

namespace Host

variable {σ : Type}

/-- Note an event. -/
def note (e : Event) : Host σ Unit := modify fun j => { j with events := j.events.push e }

/-- Fail with an error. -/
def fail {α : Type} (e : Error) : Host σ α := throw (.error e)

/-- Go on with the value of a computation that needs no link. -/
def ofExcept {α : Type} : Except Error α → Host σ α
  | .ok a => pure a
  | .error e => fail e

/-- Make a call on the link. -/
def call {α : Type} (f : σ → α × σ) : Host σ α := do
  let j ← get
  let (a, link) := f j.link
  set { j with link }
  return a

variable [Link σ]

def now : Host σ Nat := do return Link.now (← get).link

/-- Send a datagram; the answer is the number of bytes sent. -/
def send (port : Port) (data : Bytes) : Host σ Nat := do
  match ← call (Link.send port data) with
  | .done n =>
    note (.sent port data (.ok n))
    return n
  | .failed cause =>
    note (.sent port data (.error cause))
    fail (.ofLink cause)
  | .never => throw .never

/-- Receive a datagram, cut to the longest that the host takes in. -/
def tryReceive (port : Port) (limit : Option Duration) : Host σ (Except LinkError Bytes) := do
  match ← call (Link.receive port limit) with
  | .done data =>
    let data := data.take maxDatagram
    note (.received port limit (.ok data))
    return .ok data
  | .failed cause =>
    note (.received port limit (.error cause))
    return .error cause
  | .never => throw .never

/-- Receive a datagram, or fail with the error of the link. -/
def receive (port : Port) (limit : Option Duration) : Host σ Bytes := do
  match ← tryReceive port limit with
  | .ok data => return data
  | .error cause => fail (.ofLink cause)

end Host

end Readout
