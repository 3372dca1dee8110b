/-!
# Paths

The last name of a path ends where its slashes begin; the extension of a name starts at its last
point, unless that is its first character.  The name `..` is no name of a file.

* `Path.withExtension` gives a path another extension.
-/

namespace Readout.Path

/-- A path from its end, without the slashes and the parts `.` that follow its last name. -/
def atLastName : List Char → List Char
  | '/' :: r => atLastName r
  | '.' :: '/' :: r => atLastName r
  | r => r

/-- A name without its extension. -/
def stem (name : List Char) : List Char :=
  match name.reverse.dropWhile (· ≠ '.') with
  | [] => name
  | [_] => name
  | _ :: before => before.reverse

/-- Whether a last part of a path is the name of a file. -/
def isName (name : List Char) : Bool := name ≠ [] ∧ name ≠ ['.'] ∧ name ≠ ['.', '.']

/-- The path with another extension.  A path without a last name stays as it is, and where nothing
but `..` is left without the old extension, nothing is put in its place. -/
def withExtension (extension path : String) : String :=
  let backwards := atLastName path.toList.reverse
  let name := (backwards.takeWhile (· ≠ '/')).reverse
  let folder := (backwards.dropWhile (· ≠ '/')).reverse
  let bare := path.toList.length = (folder ++ name).length
  if !isName name then path
  else if stem name = ['.'] ∧ bare then String.ofList (folder ++ ['.', '.'])
  else String.ofList (folder ++ stem name) ++ "." ++ extension

end Readout.Path
