import Readout.Error
import Readout.Text.CInteger
import Readout.Word
/-!
# Words in text files

Sequencer programs and other data come as text: C integer literals for words, set apart by blanks.
-/

namespace Readout

/-- The words of a text.  The first token that is no literal for a word is the error. -/
def dataWords (text : List Char) : Except Error (List Word) :=
  (Text.tokens text).mapM fun token =>
    match Text.CInteger.parseWord? token with
    | some w => .ok w
    | none => .error (.invalidParameter (.notAWord (String.ofList token)))

end Readout
