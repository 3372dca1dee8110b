import Readout.Calendar
import Readout.Command.Frame
/-!
# Responses

Some commands are answered by a datagram of their own: the command word again, then data words.
`Response.ofWords` decodes such an answer; `Response.text` is what an operator reads.
-/

namespace Readout

/-- A decoded answer to a command. -/
inductive Response
  /-- Seconds since the start of 1970. -/
  | compileTime (seconds : Word)
  /-- Seconds since the start of the board, roughly. -/
  | uptime (seconds : Word)
  | errorCode (code : Word)
  /-- The commands that the firmware accepts. -/
  | commands (names : List String)
  /-- Any other answer, word by word. -/
  | other (texts : List String)
  deriving DecidableEq, Repr

namespace Response

/-- The second word of an answer. -/
def secondWord (name : String) (ws : List Word) : Except Error Word :=
  match ws with
  | _ :: w :: _ => .ok w
  | _ => .error (.protocol (.shortResponse name ws.length))

/-- Decode the answer to the command `name`.  The list of commands stands between the command
word and a closing word. -/
def ofWords (name : String) (ws : List Word) : Except Error Response :=
  if name = Command.askCompileTime then (secondWord name ws).map compileTime
  else if name = Command.askUptime then (secondWord name ws).map uptime
  else if name = Command.askErrorCode then (secondWord name ws).map errorCode
  else if name = Command.askCommands then .ok (commands ((ws.drop 1).dropLast.map Word.ascii))
  else .ok (other (ws.map Word.ascii))

/-- A response in words. -/
def text : Response → String
  | compileTime t => "Firmware was compiled at: " ++ Calendar.timestamp t.toNat
  | uptime s => "System has been running for: " ++ toString s.toNat ++ " seconds (roughly)"
  | errorCode c => "Error code is: " ++ Text.hex 1 c.toNat
  | commands names => "Valid commands are: " ++ ",".intercalate names
  | other texts => "Received responses: " ++ " ".intercalate texts

end Response

end Readout
