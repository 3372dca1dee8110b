import Readout.Link.Basic
import Readout.Text.Radix
/-!
# The log of a run

What a host did on a link can be written down, one line for each call: the port in hexadecimal, the
limit of a wait in nanoseconds, and the bytes or how the call failed.
-/

namespace Readout.Event

/-- A port in four hexadecimal digits. -/
def portText (port : Port) : String := String.ofList (Text.hexDigits 4 port.toNat)

def limitText : Option Duration → String
  | some n => toString n
  | none => "none"

/-- How a wait for a datagram ended. -/
def receivedText : Except LinkError Bytes → String
  | .ok data => Text.hexBytes data
  | .error .timeout => "timeout"
  | .error _ => "failed"

/-- The line of an event that is a call on the link. -/
def line? : Event → Option String
  | sent port data (.ok _) => some ("send " ++ portText port ++ " " ++ Text.hexBytes data)
  | sent port _ (.error _) => some ("send " ++ portText port ++ " failed")
  | received port limit result =>
    some ("recv " ++ portText port ++ " " ++ limitText limit ++ " " ++ receivedText result)
  | progress _ _ => none
  | stored _ => none

/-- The lines of a history. -/
def log (events : List Event) : List String := events.filterMap line?

end Readout.Event
