/-!
# The grammar of a command line

A command line is read from the left.  An option has a long name after `--` and perhaps a short one
after `-`; its value is attached, with or without `=`, or is the next argument.  Short options
without a value can be bundled.  After `--` no argument is an option.

An option is given at most once.  A value in an argument of its own is looked at only when the next
argument is known to have a meaning, so an argument without one is reported before it.

* `Opt` is an option that fills in a draft of type `σ`, `Level` a set of options and what follows
  them;
* `Level.read` reads arguments up to the name of a subcommand or to the end.
-/

namespace Readout.CommandLine

/-- Why a command line is not carried out. -/
inductive Usage
  | help
  | version
  /-- Nothing was given at all. -/
  | nothingGiven
  | subcommandMissing
  | unknownSubcommand
  | unknownArgument
  | argumentMissing
  | valueMissing
  | valueRefused
  | valueUnwanted
  | givenTwice
  deriving DecidableEq, Repr

/-- The wording for the user. -/
def Usage.message : Usage → String
  | help => "usage: readout [--ip A] [--server A] [--debug] SUBCOMMAND [OPTIONS]"
  | version => "readout 1.0"
  | nothingGiven => "nothing to do; try --help"
  | subcommandMissing => "a subcommand is required"
  | unknownSubcommand => "unknown subcommand"
  | unknownArgument => "unexpected argument"
  | argumentMissing => "a required argument is missing"
  | valueMissing => "an option lacks its value"
  | valueRefused => "an option does not take its value"
  | valueUnwanted => "an option that takes no value has one"
  | givenTwice => "an option is given twice"

/-- Requests for information are carried out; everything else is a mistake. -/
def Usage.isMistake : Usage → Bool
  | help => false
  | version => false
  | _ => true

/-- What an option does to a draft. -/
inductive Action (σ : Type)
  | flag (set : σ → σ)
  | value (set : String → σ → Except Usage σ)
  | stop (cause : Usage)

structure Opt (σ : Type) where
  long : String
  short : Option Char := none
  action : Action σ

/-- An option with a value that a reader understands. -/
def Opt.value {σ α : Type} (long : String) (short : Option Char) (read : String → Except Usage α)
    (set : α → σ → σ) : Opt σ where
  long := long
  short := short
  action := .value fun text s => (read text).map fun a => set a s

/-- An option without a value. -/
def Opt.flag {σ : Type} (long : String) (short : Option Char) (set : σ → σ) : Opt σ where
  long := long
  short := short
  action := .flag set

/-- The options of one level of a command line. -/
structure Level (σ : Type) where
  options : List (Opt σ)
  /-- Arguments that are known by their place; each has to be there. -/
  places : List (String → σ → σ) := []
  /-- Options that have to be given. -/
  required : List String := []
  /-- Names of subcommands. -/
  subcommands : List String := []

/-- What has been read at a level. -/
structure Reading (σ : Type) where
  draft : σ
  /-- The long names of the options that were given. -/
  given : List String := []
  /-- The last option, if its value is an argument of its own, and the value if it has come. -/
  pending : Option (Opt σ × Option String) := none
  places : List (String → σ → σ)

/-- What an argument looks like. -/
inductive Shape
  | escape
  | long (name : String) (value : Option String)
  | short (flags : List Char)
  | plain
  deriving DecidableEq, Repr

/-- A text before and after the first `=`. -/
def splitValue (cs : List Char) : String × Option String :=
  let name := cs.takeWhile (· ≠ '=')
  match cs.dropWhile (· ≠ '=') with
  | [] => (String.ofList name, none)
  | _ :: value => (String.ofList name, some (String.ofList value))

def shape (arg : String) : Shape :=
  match arg.toList with
  | ['-', '-'] => .escape
  | '-' :: '-' :: cs =>
    let (name, value) := splitValue cs
    .long name value
  | '-' :: c :: cs => .short (c :: cs)
  | _ => .plain

namespace Reading

variable {σ : Type}

/-- Whether the value of the last option is still to come. -/
def awaits (r : Reading σ) : Bool :=
  match r.pending with
  | some (_, none) => true
  | _ => false

/-- An option is given, with its value if it has one. -/
def give (r : Reading σ) (o : Opt σ) (value : String) : Except Usage (Reading σ) :=
  match o.action with
  | .stop cause => .error cause
  | .flag set =>
    if r.given.contains o.long then .error .givenTwice
    else .ok { r with draft := set r.draft, given := o.long :: r.given }
  | .value set =>
    if r.given.contains o.long then .error .givenTwice
    else
      (set value r.draft).map fun draft => { r with draft, given := o.long :: r.given }

/-- Take in the last option. -/
def settle (r : Reading σ) : Except Usage (Reading σ) :=
  match r.pending with
  | none => .ok r
  | some (_, none) => .error .valueMissing
  | some (o, some value) => { r with pending := none }.give o value

/-- An option is given after all before it. -/
def next (r : Reading σ) (o : Opt σ) (value : String) : Except Usage (Reading σ) := do
  (← r.settle).give o value

/-- An option is given whose value is the next argument. -/
def await (r : Reading σ) (o : Opt σ) : Except Usage (Reading σ) := do
  return { ← r.settle with pending := some (o, none) }

/-- An argument that is no option. -/
def take (r : Reading σ) (arg : String) (otherwise : Usage) : Except Usage (Reading σ) :=
  match r.places with
  | [] => .error otherwise
  | set :: places => do
    let r ← r.settle
    return { r with draft := set arg r.draft, places }

end Reading

namespace Level

variable {σ : Type} (l : Level σ)

/-- A long option. -/
def long (r : Reading σ) (name : String) (value : Option String) : Except Usage (Reading σ) :=
  match l.options.find? (·.long == name) with
  | none => .error .unknownArgument
  | some o =>
    match o.action, value with
    | .value _, some text => r.next o text
    | .value _, none => r.await o
    | _, some _ => .error .valueUnwanted
    | _, none => r.next o ""

/-- Short options.  The first that takes a value takes the rest of the argument, less an `=` in
front of it. -/
def short (r : Reading σ) : List Char → Except Usage (Reading σ)
  | [] => .ok r
  | c :: cs =>
    match l.options.find? (·.short == some c) with
    | none => .error .unknownArgument
    | some o =>
      match o.action, cs with
      | .value _, [] => r.await o
      | .value _, '=' :: value => r.next o (String.ofList value)
      | .value _, value => r.next o (String.ofList value)
      | _, _ => do
        let r ← r.next o ""
        short r cs

/-- The error of an argument that has no place.  Where a subcommand is wanted it is an unknown one,
unless it is the name of one that comes after `--`. -/
def misplaced (escaped : Bool) (arg : String) : Usage :=
  if l.subcommands.isEmpty then .unknownArgument
  else if escaped && (arg == "help" || l.subcommands.contains arg) then .unknownArgument
  else .unknownSubcommand

/-- The request for help on what is named. -/
def helpOn : List String → Usage
  | [] => .help
  | [name] => if name == "help" || l.subcommands.contains name then .help else .unknownSubcommand
  | _ => .unknownSubcommand

/-- Whether an argument names a subcommand. -/
def isSubcommand (arg : String) : Bool :=
  !l.subcommands.isEmpty && (arg == "help" || l.subcommands.contains arg)

/-- Read arguments.  The answer holds the subcommand and the arguments after it, if one was
named. -/
def readFrom (escaped : Bool) (r : Reading σ) :
    List String → Except Usage (Reading σ × Option (String × List String))
  | [] => .ok (r, none)
  | arg :: rest =>
    if escaped then do
      readFrom true (← r.take arg (l.misplaced true arg)) rest
    else if !r.awaits && l.isSubcommand arg then
      if arg == "help" then .error (l.helpOn rest) else .ok (r, some (arg, rest))
    else
      match shape arg with
      | .escape => readFrom true r rest
      | .long name value => do readFrom false (← l.long r name value) rest
      | .short flags => do readFrom false (← l.short r flags) rest
      | .plain =>
        match r.pending with
        | some (o, none) => readFrom false { r with pending := some (o, some arg) } rest
        | _ => do readFrom false (← r.take arg (l.misplaced false arg)) rest

/-- Read arguments into a draft. -/
def read (draft : σ) (args : List String) :
    Except Usage (Reading σ × Option (String × List String)) :=
  l.readFrom false { draft, places := l.places } args

/-- The draft of a level without subcommands, once all that is required is there. -/
def finish (r : Reading σ) : Except Usage σ := do
  let r ← r.settle
  if r.places.isEmpty && l.required.all r.given.contains then return r.draft
  else throw .argumentMissing

end Level

end Readout.CommandLine
