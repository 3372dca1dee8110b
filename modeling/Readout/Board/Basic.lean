import Readout.Board.Nor
import Readout.Command.Frame
/-!
# The simulated board

A board in memory.  It acknowledges every command with the marker `DON`, keeps its flash in NOR
cells, and answers a read on the firmware port.  Faults can be armed that falsify what a read
answers, canned answers can replace the marker, and a silent board answers nothing.

* `Board.send` takes a datagram from the host, `Board.pop` is what the host receives;
* `Board.queue` is the list of datagrams that wait for the host on a port.
-/

namespace Readout

/-- A bit pattern that is added to a word of an answer. -/
structure Fault where
  word : Nat
  mask : Word
  deriving DecidableEq, Repr

/-- A command as the board understood it. -/
structure Received where
  name : String
  parameter : UInt8
  second : Option Word
  deriving DecidableEq, Repr

structure Board where
  flash : Nor := {}
  address : UInt32 := 0
  buffer : List Word := []
  /-- The first addresses of the erased sectors, in order. -/
  erased : Array UInt32 := #[]
  queues : Std.HashMap Port (List Bytes) := {}
  /-- Every datagram of the host with its port. -/
  sent : Array (Port × Bytes) := #[]
  commands : Array Received := #[]
  /-- The fault of the next read. -/
  fault : Option Fault := none
  /-- The faults of the next read from an address. -/
  addressFaults : Std.HashMap UInt32 Fault := {}
  /-- Answers in place of the marker, by command name. -/
  answers : Std.HashMap String (List Word) := {}
  silent : Bool := false

namespace Board

/-! ## Datagrams for the host -/

/-- What waits for the host on a port. -/
def queue (b : Board) (port : Port) : List Bytes := b.queues.getD port []

/-- Queue a datagram for the host. -/
def push (b : Board) (port : Port) (data : Bytes) : Board :=
  { b with queues := b.queues.insert port (b.queue port ++ [data]) }

/-- Take the first datagram that waits on a port. -/
def pop (b : Board) (port : Port) : Option (Bytes × Board) :=
  match b.queue port with
  | [] => none
  | data :: rest => some (data, { b with queues := b.queues.insert port rest })

/-- Queue a datagram unless the board is silent. -/
def answer (b : Board) (port : Port) (ws : List Word) : Board :=
  if b.silent then b else b.push port (Word.encode ws)

/-! ## Commands -/

/-- Add a fault to an answer. -/
def falsify (f : Fault) (ws : List Word) : List Word := ws.modify f.word (· ^^^ f.mask)

/-- Take the fault that the next read has, if one is armed. -/
def takeFault (b : Board) : Option Fault × Board :=
  match b.fault with
  | some f => (some f, { b with fault := none })
  | none =>
    (b.addressFaults[b.address]?,
      { b with addressFaults := b.addressFaults.erase b.address })

/-- Erase the sector that the address points at. -/
def eraseSector (b : Board) : Board :=
  { b with
    flash := b.flash.eraseSector b.address
    erased := b.erased.push (UInt32.ofNat (Flash.sector b.address * Flash.sectorBytes)) }

/-- Commit the first `n` words of the buffer and drop the others. -/
def commit (b : Board) (n : Nat) : Board :=
  { b with flash := b.flash.commit b.address (b.buffer.take n), buffer := [] }

/-- Answer `n` words of the flash on the firmware port. -/
def answerRead (b : Board) (n : Nat) : Board :=
  let page := b.flash.read b.address n
  let (fault, b) := b.takeFault
  b.answer firmwarePort (match fault with
    | some f => falsify f page
    | none => page)

/-- Acknowledge a command. -/
def acknowledge (b : Board) (name : String) : Board :=
  b.answer commandPort (b.answers.getD name [Command.doneMarker])

/-- A command as the board understands the words of a datagram: the low 24 bits of the first word
are its name, the top byte its parameter. -/
def understand : List Word → Option Received
  | [] => none
  | w :: ws =>
    some
      { name := Word.ascii (Word.asciiField w)
        parameter := UInt8.ofNat (w.toNat / 16777216)
        second := ws.head? }

/-- Do what a command says.  A read answers for itself, every other command is acknowledged. -/
def obey (b : Board) (c : Received) : Board :=
  if c.name = Command.clearBuffers then { b with buffer := [] }.acknowledge c.name
  else if c.name = Command.setAddress then
    { b with address := c.second.getD 0 }.acknowledge c.name
  else if c.name = Command.eraseSector then b.eraseSector.acknowledge c.name
  else if c.name = Command.commit then (b.commit c.parameter.toNat).acknowledge c.name
  else if c.name = Command.readFlash then b.answerRead c.parameter.toNat
  else b.acknowledge c.name

/-- Take a datagram on the command port. -/
def takeCommand (b : Board) (data : Bytes) : Board :=
  match understand (Word.decode data) with
  | none => b
  | some c =>
    let b := b.obey c
    { b with commands := b.commands.push c }

/-- Take a datagram from the host: commands on the command port, words for the write buffer on the
firmware port.  Every datagram is kept in the list of what was sent. -/
def send (b : Board) (port : Port) (data : Bytes) : Board :=
  let b := { b with sent := b.sent.push (port, data) }
  if port = commandPort then b.takeCommand data
  else if port = firmwarePort then { b with buffer := b.buffer ++ Word.decode data }
  else b

/-! ## Setting up a board -/

/-- Answer a command with the given words instead of the marker. -/
def answerWith (b : Board) (name : String) (ws : List Word) : Board :=
  { b with answers := b.answers.insert name ws }

/-- Arm a fault for the next read. -/
def arm (b : Board) (f : Fault) : Board := { b with fault := some f }

/-- Arm a fault for the next read from an address. -/
def armAt (b : Board) (address : UInt32) (f : Fault) : Board :=
  { b with addressFaults := b.addressFaults.insert address f }

/-- Put words into the flash, whatever it holds there. -/
def preload (b : Board) (address : UInt32) (ws : List Word) : Board :=
  { b with flash := b.flash.put address ws }

/-! ## Looking at a board -/

/-- The datagrams that the host sent to a port. -/
def sentOn (b : Board) (port : Port) : List Bytes :=
  (b.sent.toList.filter (·.1 = port)).map Prod.snd

/-- The register words that the host sent. -/
def configWords (b : Board) : List Word := (b.sentOn configPort).flatMap Word.decode

end Board

end Readout
