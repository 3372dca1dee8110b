import Readout.Text.Blank
/-!
# Lines of an INI file

A register file is read line by line.  A line, its outer blanks taken off, is empty, a comment, a
section header, an assignment, or malformed.

* `Line.ofText` classifies a line;
* `dropComment` takes an inline comment off a value.
-/

namespace Readout.Ini

/-- What a line says. -/
inductive Line
  | nothing
  | header (name : String)
  | assignment (key value : String)
  | malformed
  deriving DecidableEq, Repr

/-- The value without its inline comment: a semicolon right after an ASCII blank starts one. -/
def dropComment (afterBlank : Bool) : List Char → List Char
  | [] => []
  | c :: r => if c = ';' ∧ afterBlank then [] else c :: dropComment (Text.isAsciiBlank c) r

/-- The characters that set a value apart from its key. -/
def isSeparator (c : Char) : Bool := c == '=' || c == ':'

/-- The text before the first character of a kind and the text after it. -/
def cutAt? (p : Char → Bool) : List Char → Option (List Char × List Char)
  | [] => none
  | c :: r => if p c then some ([], r) else (cutAt? p r).map fun (a, b) => (c :: a, b)

namespace Line

/-- A header needs its closing bracket; what follows the bracket does not count. -/
def ofHeader (rest : List Char) : Line :=
  match cutAt? (· == ']') rest with
  | some (name, _) => header (String.ofList (Text.trim name))
  | none => malformed

/-- An assignment is cut at its first separator and needs a key. -/
def ofAssignment (line : List Char) : Line :=
  match cutAt? isSeparator line with
  | none => malformed
  | some (left, right) =>
    let key := Text.trim left
    if key.isEmpty then malformed
    else assignment (String.ofList key) (String.ofList (Text.trim (dropComment false right)))

/-- What a line of a file says. -/
def ofText (raw : List Char) : Line :=
  match Text.trim raw with
  | [] => nothing
  | ';' :: _ => nothing
  | '#' :: _ => nothing
  | '[' :: rest => ofHeader rest
  | line => ofAssignment line

end Line

end Readout.Ini
