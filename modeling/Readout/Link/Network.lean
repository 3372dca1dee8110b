import Readout.Error
import Readout.Text.Address
import Readout.Word
/-!
# The network

Datagrams between the host and a board pass a network.  Here it is either reliable or not there at
all.  The host listens on ports; what arrives on a port without a listener is lost.

* `Network.send` is what a host learns about a datagram that it sends;
* `Network.join` is the network between a host and a board, if the host can open its sockets;
* `Listeners` are the ports of a host, each with the datagrams that wait there.
-/

namespace Readout

/-- Whether datagrams that are sent arrive. -/
inductive Network
  | delivering
  | unreachable
  /-- The board has an address of a version that the sockets of the host do not know. -/
  | foreign
  deriving DecidableEq, Repr

namespace Network

/-- The longest datagram that can be carried. -/
def maxPayload : Nat := 65507

/-- The longest text that is looked at as a datagram at all. -/
def maxLength : Nat := 65535

/-- Send a datagram: the number of bytes sent, or why it cannot be sent.  A length that no datagram
has is noticed before the way to the board. -/
def send (n : Network) (data : Bytes) : Except IoError Nat :=
  match n with
  | delivering => if maxPayload < data.length then .error .messageTooLong else .ok data.length
  | unreachable =>
    if maxLength < data.length then .error .messageTooLong else .error .networkUnreachable
  | foreign =>
    if maxLength < data.length then .error .messageTooLong else .error .familyNotSupported

/-- Why datagrams that are sent one after the other do not all arrive. -/
def refusal? (n : Network) (datagrams : List Bytes) : Option IoError :=
  datagrams.findSome? fun data =>
    match n.send data with
    | .ok _ => none
    | .error cause => some cause

/-- The network between a host and a board.  The sockets of the host are opened at its address.  One
of version 6 has to be an address that the host has, and without a network it has none; those of
version 4 are not looked at, but their sockets know no addresses of version 6. -/
def join (n : Network) (host board : Text.Address) : Except IoError Network :=
  if host.isV6 then
    if host.isLinkLocal then .error .invalidArgument
    else if n = delivering ∨ host.isGeneral then .ok n
    else .error .addressNotAvailable
  else .ok (if board.isV6 then foreign else n)

end Network

/-- The ports of a host that are listened on, and the datagrams that wait on them. -/
structure Listeners where
  ports : List Port := [commandPort, firmwarePort]
  waiting : List (Port × Bytes) := []

namespace Listeners

/-- Listen on a port from now on. -/
def listen (l : Listeners) (port : Port) : Listeners :=
  if l.ports.contains port then l else { l with ports := port :: l.ports }

/-- A datagram arrives. -/
def arrive (l : Listeners) (port : Port) (data : Bytes) : Listeners :=
  if l.ports.contains port then { l with waiting := l.waiting ++ [(port, data)] } else l

/-- Take the first datagram that waits on a port. -/
def take? (l : Listeners) (port : Port) : Option (Bytes × Listeners) :=
  (l.waiting.find? (·.1 == port)).map fun first =>
    (first.2, { l with waiting := l.waiting.eraseP (·.1 == port) })

end Listeners

end Readout
