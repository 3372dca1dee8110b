import Readout.Error
import Readout.Word
/-!
# Command frames

A command is three ASCII characters in the low 24 bits of a word, with a parameter in the top
byte and, for some commands, a second word.  The board acknowledges a command with the marker
`DON`.

* `words_eq_error_iff`: a command is refused exactly when its name is not three ASCII characters.
-/

namespace Readout

/-- A request to the board.  No parameter is the same as a zero one. -/
structure Command where
  name : String
  parameter : Option UInt8 := none
  second : Option Word := none
  deriving DecidableEq, Repr

namespace Command

/-- The value of a second word that stands for its absence. -/
def absentWord : Word := 0xFFFFFFFF

/-! ## Names -/

/-- Clear the write buffer of the flash. -/
def clearBuffers : String := "ERB"
/-- Set the flash address to the second word. -/
def setAddress : String := "ESA"
/-- Erase the sector that holds the flash address. -/
def eraseSector : String := "ESE"
/-- Commit as many buffered words as the parameter says. -/
def commit : String := "EWR"
/-- Answer as many flash words as the parameter says on the firmware port. -/
def readFlash : String := "ERD"
/-- Ask for the compile time of the firmware. -/
def askCompileTime : String := "GCT"
/-- Ask for the time since the start, in seconds. -/
def askUptime : String := "GUT"
/-- Ask for the last error code. -/
def askErrorCode : String := "GEC"
/-- Ask for the list of valid commands. -/
def askCommands : String := "GCL"

/-! ## Encoding -/

/-- Names that fit a command word. -/
def isName (name : String) : Bool :=
  name.toList.length == 3 && name.toList.all fun c => c.toNat < 128

/-- The command word: the parameter above the three characters. -/
def word (c : Command) : Except Error Word :=
  if isName c.name then
    .ok (UInt32.ofNat ((c.parameter.getD 0).toNat * 16777216 + (Word.ofAscii c.name).toNat))
  else .error (.invalidCommand c.name)

/-- The command word, and the second word if there is one to send. -/
def words (c : Command) : Except Error (List Word) :=
  c.word.map fun w => w :: (c.second.filter (· ≠ absentWord)).toList

/-- The datagram of a command. -/
def frame (c : Command) : Except Error Bytes := c.words.map Word.encode

/-! ## The completion marker -/

/-- `DON` in the low 24 bits. -/
def doneMarker : Word := 0x00444F4E

/-- A word is the marker whatever its top byte holds. -/
def isDone (w : Word) : Bool := Word.asciiField w == doneMarker

/-- An answer completes a command when any of its words is the marker. -/
def containsDone (ws : List Word) : Bool := ws.any isDone

/-! ## Laws -/

theorem word_eq_error_iff (c : Command) :
    c.word = .error (.invalidCommand c.name) ↔ isName c.name = false := by
  unfold word
  split <;> simp_all

theorem words_eq_error_iff (c : Command) :
    c.words = .error (.invalidCommand c.name) ↔ isName c.name = false := by
  rw [← word_eq_error_iff]
  unfold words
  cases c.word <;> simp [Except.map]

end Command

end Readout
