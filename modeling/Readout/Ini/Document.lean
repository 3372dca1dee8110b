import Readout.Ini.Line
import Readout.Text.CInteger
/-!
# INI documents

A document is a list of sections in the order of their first appearance, each with its keys in the
order of theirs.  Names of sections and keys are the same when they agree up to ASCII case; the
first spelling is kept and the last value wins.  A malformed line is skipped, and the first one is
remembered by its number.

* `Document.ofLines` builds a document, `Document.parse` reads one from text;
* `Document.get?`, `Document.has`, `Document.keys` look into it.
-/

namespace Readout.Ini

structure Section where
  name : String
  entries : List (String × String)
  deriving DecidableEq, Repr

structure Document where
  sections : List Section := []
  /-- The number of the first malformed line, counted from 1. -/
  firstMalformed : Option Nat := none
  deriving DecidableEq, Repr

/-- Give `key` the value, where it stands or at the end. -/
def assignKey (key value : String) : List (String × String) → List (String × String)
  | [] => [(key, value)]
  | (k, v) :: r =>
    if Text.sameName k key then (k, value) :: r else (k, v) :: assignKey key value r

/-- Make sure that there is a section of this name. -/
def openSection (name : String) : List Section → List Section
  | [] => [⟨name, []⟩]
  | s :: r => if Text.sameName s.name name then s :: r else s :: openSection name r

/-- Give a key of a section its value; the section is made if it is not there. -/
def assignIn (name key value : String) : List Section → List Section
  | [] => [⟨name, [(key, value)]⟩]
  | s :: r =>
    if Text.sameName s.name name then ⟨s.name, assignKey key value s.entries⟩ :: r
    else s :: assignIn name key value r

namespace Document

/-- A document under construction: what was read so far, and the section that is open.  Keys before
any header belong to the section with the empty name. -/
structure Draft where
  document : Document := {}
  current : String := ""

/-- Take in line number `n`. -/
def Draft.push (d : Draft) (line : Line) (n : Nat) : Draft :=
  match line with
  | .nothing => d
  | .malformed =>
    { d with document.firstMalformed := d.document.firstMalformed.or (some n) }
  | .header name =>
    { document := { d.document with sections := openSection name d.document.sections }
      current := name }
  | .assignment key value =>
    { d with document.sections := assignIn d.current key value d.document.sections }

/-- The document that the lines make up, numbered from `n`. -/
def Draft.pushAll (d : Draft) : (n : Nat) → List Line → Draft
  | _, [] => d
  | n, line :: r => (d.push line n).pushAll (n + 1) r

def ofLines (ls : List Line) : Document := (Draft.pushAll {} 1 ls).document

/-- Read a document from text. -/
def parse (text : List Char) : Document := ofLines ((Text.lines text).map Line.ofText)

/-! ## Looking up -/

def section? (d : Document) (name : String) : Option Section :=
  d.sections.find? fun s => Text.sameName s.name name

def has (d : Document) (name : String) : Bool := (d.section? name).isSome

/-- The keys of a section, in order and in their first spelling. -/
def keys (d : Document) (name : String) : List String :=
  match d.section? name with
  | some s => s.entries.map Prod.fst
  | none => []

/-- The value of a key. -/
def get? (d : Document) (name key : String) : Option String :=
  (d.section? name).bind fun s =>
    (s.entries.find? fun e => Text.sameName e.1 key).map Prod.snd

/-- The value of a key as an integer. -/
def integer? (d : Document) (name key : String) : Option Int :=
  (d.get? name key).bind fun v => Text.CInteger.parse? v.toList

end Document

end Readout.Ini
