import Readout.Text.Printable
/-!
# Quoted text

Messages quote a piece of input between double quotes.  The quote and the backslash are escaped
by a backslash, the usual control characters by a letter, and any other character that does not
print by itself is shown by its number in hexadecimal.

* `quoteChar_of_isPlain`: a plain character stands for itself.
-/

namespace Readout.Text

/-- The letters of the control characters that have one. -/
def escapeLetter? : Char → Option Char
  | '\x00' => some '0'
  | '\t' => some 't'
  | '\n' => some 'n'
  | '\r' => some 'r'
  | '"' => some '"'
  | '\\' => some '\\'
  | _ => none

/-- Characters that a quoted text shows unchanged. -/
def isPlain (c : Char) : Bool := (escapeLetter? c).isNone && isPrintable c

/-- One character inside quotes. -/
def quoteChar (c : Char) : List Char :=
  match escapeLetter? c with
  | some letter => ['\\', letter]
  | none =>
    if isPrintable c then [c]
    else ['\\', 'u', '\x7b'] ++ Nat.toDigits 16 c.toNat ++ ['\x7d']

/-- A text between double quotes. -/
def quote (s : String) : String :=
  String.ofList ('"' :: s.toList.flatMap quoteChar ++ ['"'])

theorem quoteChar_of_isPlain {c : Char} (h : isPlain c = true) : quoteChar c = [c] := by
  simp only [isPlain, Bool.and_eq_true, Option.isNone_iff_eq_none] at h
  simp [quoteChar, h.1, h.2]

end Readout.Text
