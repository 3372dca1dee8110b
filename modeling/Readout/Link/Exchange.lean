import Readout.Command.Response
import Readout.Link.Basic
/-!
# Exchanges

The board acknowledges a command with the marker `DON` on the command port.  The marker says
nothing about the command it belongs to, so only one exchange runs at a time.

A host waits for the marker in slices, a tenth of the limit each and at least a millisecond, and
gives up at the end of the first slice after which more than the limit has passed.  No limit, or a
zero one, means to wait for ever.

* `awaitDone` waits for the marker, `command` sends and does not wait, `execute` does both;
* `query` sends a command and takes the answer datagram.
-/

namespace Readout.Exchange

variable {σ : Type} [Link σ]

/-- The longest single wait within a limit. -/
def slice (limit : Duration) : Duration := max (limit / 10) (Duration.milliseconds 1)

/-- Whether a wait that began at `start` is over its limit. -/
def isOver (limit : Option Duration) (start now : Nat) : Bool :=
  match limit with
  | some limit => limit < now - start
  | none => false

/-- Take datagrams from the command port until one holds the marker or the limit has passed. -/
def awaitFrom (limit : Option Duration) (start : Nat) : (patience : Nat) → Host σ Unit
  | 0 => throw .never
  | patience + 1 => do
    match ← Host.tryReceive commandPort (limit.map slice) with
    | .ok data =>
      if Command.containsDone (Word.decode data) then return ()
      else if isOver limit start (← Host.now) then Host.fail .timeout
      else awaitFrom limit start patience
    | .error .timeout =>
      if isOver limit start (← Host.now) then Host.fail .timeout
      else awaitFrom limit start patience
    | .error cause => Host.fail (.ofLink cause)

/-- Wait for the marker. -/
def awaitDone (limit : Option Duration) : Host σ Unit := do
  let j ← get
  awaitFrom (limit.filter (· ≠ 0)) (Link.now j.link) (Link.patience j.link)

/-- Send a command; the answer is the number of bytes sent. -/
def command (c : Command) : Host σ Nat := do
  Host.send commandPort (← Host.ofExcept c.frame)

/-- Send a command and wait for the marker. -/
def execute (limit : Option Duration) (c : Command) : Host σ Unit := do
  let _ ← command c
  awaitDone limit

/-- Receive one datagram as words. -/
def receiveWords (port : Port) (limit : Option Duration) : Host σ (List Word) := do
  return Word.decode (← Host.receive port limit)

/-- Send words to a port; the answer is the number of bytes sent. -/
def sendWords (port : Port) (ws : List Word) : Host σ Nat := Host.send port (Word.encode ws)

/-- Send a command and decode the datagram that answers it. -/
def query (limit : Option Duration) (c : Command) : Host σ Response := do
  let _ ← command c
  let ws ← receiveWords commandPort limit
  Host.ofExcept (Response.ofWords c.name ws)

/-- The compile time of the firmware, in seconds since the start of 1970. -/
def compileTime (limit : Option Duration) : Host σ Word := do
  let _ ← command { name := Command.askCompileTime }
  let ws ← receiveWords commandPort limit
  Host.ofExcept (Response.secondWord Command.askCompileTime ws)

end Readout.Exchange
