import Readout.Bench.Timer
import Readout.Board.Basic
import Readout.Capture.Table
import Readout.Link.Basic
import Readout.Link.Network
/-!
# The bench

A bench is a simulated board on the desk of a host: the board, a clock that moves only when the host
waits, datagrams that are due at later times, calls that are set to fail, the files and the captures
of the host, and the network that the captures listen on.

Time passes only while the host waits.  To take a datagram that waits, to send one, and whatever else
the host does takes none.  A wait with a limit ends when a timer fires, at the first end of a granule
that is not before the limit.

The bench stops at the horizon.  A host that waits without a limit, or for a timer that is set beyond
the horizon, waits for ever, as far as the bench can tell.

* `Bench` is a link: `Link.receive` takes what waits, or moves the clock to the next datagram that is
  due, up to the time at which the timer fires that is set for the limit;
* `Bench.sleep` moves the clock, and what is due meanwhile arrives;
* `Bench.feed` sends datagrams to a capture.
-/

namespace Readout

/-- Something that is due at a later time. -/
inductive Delivery
  /-- A datagram that the board queues for the host. -/
  | fromBoard (port : Port) (data : Bytes)
  /-- Datagrams that arrive at a port of the host. -/
  | stream (port : Port) (datagrams : List Bytes)

/-- A delivery and the time it is due. -/
structure Due where
  time : Nat
  delivery : Delivery

/-- A call on the link that is set to fail after so many more calls. -/
structure Failure where
  after : Nat
  message : String

/-- Datagrams that arrive at a port of the host whenever it sends a command. -/
structure Echo where
  command : String
  port : Port
  datagrams : List Bytes

/-- A bench as it stands.  Its clock moves in waits and in nothing else: a datagram that waits already
is taken at the time of the call. -/
structure Bench where
  board : Board := {}
  network : Network := .delivering
  /-- The board is on the network; otherwise it is wired to the host. -/
  remote : Bool := false
  clock : Nat := 0
  timer : Timer := .coarse
  horizon : Nat := 0
  /-- What is due, by time. -/
  schedule : List Due := []
  sendFailure : Option Failure := none
  receiveFailure : Option Failure := none
  echoes : List Echo := []
  files : Files := {}
  captures : Capture.Table := {}
  /-- Ports of the host that the link itself listens on. -/
  bound : List Port := []
  /-- The start of the clock, in seconds since the start of 1970. -/
  epoch : Nat := 0
  /-- Why the bench itself could not deliver, if it could not. -/
  undelivered : Option IoError := none

namespace Bench

/-! ## The network -/

/-- A datagram arrives at a port of the host: the capture that listens there takes it. -/
def arrive (b : Bench) (port : Port) (data : Bytes) : Bench :=
  match b.captures.idOn? port with
  | some id =>
    let (captures, files) := b.captures.take id data b.files
    { b with captures, files }
  | none => b

/-- Datagrams arrive one after the other. -/
def arriveAll (b : Bench) (port : Port) (datagrams : List Bytes) : Bench :=
  datagrams.foldl (fun b data => b.arrive port data) b

/-- A delivery that is due takes place; streams over a network that is not there are lost. -/
def deliver (b : Bench) : Delivery → Bench
  | .fromBoard port data => { b with board := b.board.push port data }
  | .stream port datagrams =>
    match b.network with
    | .delivering => b.arriveAll port datagrams
    | _ => b

/-- The bench sends datagrams to a port at once.  It cannot if the network refuses one of them. -/
def sendStream (b : Bench) (port : Port) (datagrams : List Bytes) : Bench :=
  match b.network.refusal? datagrams with
  | some cause => { b with undelivered := b.undelivered <|> some cause }
  | none => b.arriveAll port datagrams

/-! ## Time -/

/-- Put a delivery in its place. -/
def insertDue (d : Due) : List Due → List Due
  | [] => [d]
  | x :: xs => if d.time < x.time then d :: x :: xs else x :: insertDue d xs

/-- Something is due so much later. -/
def later (b : Bench) (delay : Duration) (delivery : Delivery) : Bench :=
  { b with schedule := insertDue ⟨b.clock + delay, delivery⟩ b.schedule }

/-- Go through what is due, up to a time, until `ready` has an answer. -/
def advance {α : Type} (ready : Bench → Option (α × Bench)) (deadline : Nat) :
    List Due → Bench → Option α × Bench
  | [], b => (none, { b with clock := max b.clock deadline })
  | d :: rest, b =>
    if deadline < d.time then (none, { b with clock := max b.clock deadline })
    else
      let b := { b with clock := max b.clock d.time, schedule := rest }.deliver d.delivery
      match ready b with
      | some (a, b) => (some a, b)
      | none => advance ready deadline rest b

/-- The time at which the timer of a wait fires, if the wait has a limit and the timer is set within
the horizon. -/
def alarm? (b : Bench) (limit : Option Duration) : Option Nat :=
  (limit.filter (b.clock + · ≤ b.horizon)).map (b.timer.fires <| b.clock + ·)

theorem alarm?_within {b : Bench} {limit : Duration} (h : b.clock + limit ≤ b.horizon) :
    b.alarm? (some limit) = some (b.timer.fires (b.clock + limit)) := by
  rw [alarm?, Option.filter_some, if_pos (decide_eq_true h), Option.map_some]

theorem alarm?_beyond {b : Bench} {limit : Duration} (h : b.horizon < b.clock + limit) :
    b.alarm? (some limit) = none := by
  rw [alarm?, Option.filter_some, if_neg (by simpa using h), Option.map_none]

/-- Wait until `ready` has an answer, at most until the timer fires that is set for the limit. -/
def wait {α : Type} (b : Bench) (limit : Option Duration) (ready : Bench → Option (α × Bench)) :
    Reply α × Bench :=
  match ready b with
  | some (a, b) => (.done a, b)
  | none =>
    match advance ready ((b.alarm? limit).getD b.horizon) b.schedule b with
    | (some a, b) => (.done a, b)
    | (none, b') => (if (b.alarm? limit).isSome then .failed .timeout else .never, b')

/-- Let time pass. -/
def sleep (b : Bench) (time : Duration) : Reply Unit × Bench :=
  match b.wait (some time) (fun _ => (none : Option (Unit × Bench))) with
  | (.never, b) => (.never, b)
  | (_, b) => (.done (), b)

/-- The time in seconds since the start of 1970. -/
def seconds (b : Bench) : Nat := b.epoch + b.clock / Duration.seconds 1

/-! ## The link -/

/-- Take the datagram that waits on a port. -/
def popOn (port : Port) (b : Bench) : Option (Bytes × Bench) :=
  (b.board.pop port).map fun (data, board) => (data, { b with board })

/-- Whether a call fails, and what is left of the setting. -/
def Failure.step : Option Failure → Option String × Option Failure
  | none => (none, none)
  | some ⟨0, message⟩ => (some message, none)
  | some ⟨n + 1, message⟩ => (none, some ⟨n, message⟩)

/-- The name of the command that a datagram carries. -/
def commandName (data : Bytes) : Option String := (Board.understand (Word.decode data)).map (·.name)

/-- The echoes of a datagram arrive at the host. -/
def echo (b : Bench) (port : Port) (data : Bytes) : Bench :=
  if port = commandPort then
    b.echoes.foldl
      (fun b e => if commandName data = some e.command then b.sendStream e.port e.datagrams else b)
      b
  else b

/-- Whether the way to the board takes a datagram. -/
def carry (b : Bench) (data : Bytes) : Except IoError Nat :=
  if b.remote then b.network.send data else .ok data.length

/-- A call to send: it may be set to fail, or the way may not take the datagram; else it reaches the
board. -/
def sendCall (port : Port) (data : Bytes) (b : Bench) : Reply Nat × Bench :=
  let (message, sendFailure) := Failure.step b.sendFailure
  let b := { b with sendFailure }
  match message, b.carry data with
  | some m, _ => (.failed (.transport m), b)
  | none, .error cause => (.failed (.io cause), b)
  | none, .ok sent =>
    let b := b.echo port data
    (.done sent, { b with board := b.board.send port data })

/-- A call to receive: it may be set to fail; else it waits for the board. -/
def receiveCall (port : Port) (limit : Option Duration) (b : Bench) : Reply Bytes × Bench :=
  let (message, receiveFailure) := Failure.step b.receiveFailure
  let b := { b with receiveFailure }
  match message with
  | some m => (.failed (.transport m), b)
  | none => b.wait limit (popOn port)

instance : Link Bench where
  send := sendCall
  receive := receiveCall
  now b := b.clock
  patience b :=
    (b.board.queue commandPort).length + b.schedule.length +
      (b.horizon - b.clock) / Duration.milliseconds 1 + 2

/-! ## Captures -/

/-- Start a capture on a port, the system's choice if it is zero. -/
def launch (b : Bench) (images : Bool) (path : String) (port : Port) (shape : Capture.Shape) :
    Except Error (Nat × Bench) := do
  let bound := b.bound.contains port || b.captures.listensOn port
  if port ≠ 0 ∧ bound then throw (.io .addressInUse)
  let (output, files) ← Capture.Output.start images path shape b.files
  let (id, captures) := b.captures.launch (if port = 0 then none else some port) output
  return (id, { b with captures, files })

/-- Close a capture. -/
def closeCapture (b : Bench) (id : Nat) : Except Error (Nat × Bench) := do
  let (words, captures, files) ← b.captures.close id b.files
  return (words, { b with captures, files })

/-- Close all captures. -/
def closeAll (b : Bench) : Nat × Bench :=
  let (n, captures, files) := b.captures.closeAll b.files
  (n, { b with captures, files })

/-- The bench sends datagrams to a capture, wherever it listens. -/
def feed (b : Bench) (id : Nat) (datagrams : List Bytes) : Bench :=
  match b.network.refusal? datagrams with
  | some cause => { b with undelivered := b.undelivered <|> some cause }
  | none =>
    datagrams.foldl
      (fun b data =>
        let (captures, files) := b.captures.take id data b.files
        { b with captures, files })
      b

end Bench

end Readout
