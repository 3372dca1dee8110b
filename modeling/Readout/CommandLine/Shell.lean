import Readout.Bench.Basic
import Readout.CommandLine.ProgressBar
import Readout.Station
/-!
# The shell

A subcommand runs at a desk: a station with its link, and two texts that grow, the output and the
warnings.  It ends well, with a failure, or not at all.  A failure is an error with what was being
tried around it.

* `Shell` is the type of subcommands, `Failure.message` the wording of a failure;
* `Shell.host`, `Shell.bench`, `Shell.files` reach the host, the bench and its files.
-/

namespace Readout.CommandLine

/-- What made a subcommand fail. -/
inductive Cause
  | error (e : Error)
  /-- A file of the subcommand itself cannot be used. -/
  | system (e : IoError)
  /-- A refusal of the command line itself. -/
  | refusal (text : String)
  deriving DecidableEq, Repr

/-- A cause, and what was being tried, outermost first. -/
structure Failure where
  trying : List String := []
  cause : Cause
  deriving DecidableEq, Repr

/-- The links of the chain of a cause; an error of the system names its own cause again. -/
def Cause.texts : Cause → List String
  | error (.io e) => [(Error.io e).message, e.message]
  | error e => [e.message]
  | system e => [e.message]
  | refusal text => [text]

def Failure.message (f : Failure) : String := ": ".intercalate (f.trying ++ f.cause.texts)

/-- How a subcommand ends that does not end well. -/
inductive Ending
  | failed (f : Failure)
  | never

/-- Where a subcommand runs. -/
structure Desk where
  station : Station
  journal : Journal Bench
  /-- What was printed, in pieces. -/
  output : Array String := #[]
  /-- What was warned of, in pieces. -/
  warnings : Array String := #[]

/-- A run of a subcommand. -/
abbrev Shell := ExceptT Ending (StateM Desk)

namespace Shell

def print (text : String) : Shell Unit :=
  modify fun d => { d with output := d.output.push text }

def printLine (text : String) : Shell Unit := print (text ++ "\n")

def warnLine (text : String) : Shell Unit :=
  modify fun d => { d with warnings := d.warnings.push (text ++ "\n") }

/-- Fail because of the command line. -/
def refuse {α : Type} (text : String) : Shell α := throw (.failed { cause := .refusal text })

/-- Go on with the value of a computation that may fail. -/
def ofExcept {α : Type} : Except Error α → Shell α
  | .ok a => pure a
  | .error e => throw (.failed { cause := .error e })

/-- Go on with what the system gives for a file of the subcommand itself. -/
def ofSystem {α : Type} : Except IoError α → Shell α
  | .ok a => pure a
  | .error e => throw (.failed { cause := .system e })

/-- Say what is being tried. -/
def trying {α : Type} (text : String) (act : Shell α) : Shell α :=
  tryCatch act fun ending =>
    match ending with
    | .failed f => throw (.failed { f with trying := text :: f.trying })
    | .never => throw .never

/-- What an event shows to the user. -/
def shown : Event → Option String
  | .progress done total => some (ProgressBar.ofCounts done total)
  | _ => none

/-- The value of a run of the host. -/
def ofResult {α : Type} : Except Stop α → Shell α
  | .ok a => pure a
  | .error (.error e) => throw (.failed { cause := .error e })
  | .error .never => throw .never

/-- Run the host and take in what it did. -/
def observe {α : Type} (run : Host Bench α) : Shell (Except Stop α × List Event) := do
  let d ← get
  let (result, journal) := run.run.run d.journal
  let events := journal.events.toList.drop d.journal.events.size
  set { d with journal, output := d.output ++ (events.filterMap shown).toArray }
  return (result, events)

/-- Run the host. -/
def host {α : Type} (run : Host Bench α) : Shell α := do ofResult (← observe run).1

/-- The bench as it is. -/
def bench : Shell Bench := do return (← get).journal.link

def setBench (b : Bench) : Shell Unit :=
  modify fun d => { d with journal := { d.journal with link := b } }

/-- Do something at the bench that may fail. -/
def atBench {α : Type} (act : Bench → Except Error (α × Bench)) : Shell α := do
  let (a, b) ← ofExcept (act (← bench))
  setBench b
  return a

/-- Let time pass. -/
def sleep (time : Duration) : Shell Unit := do
  match (← bench).sleep time with
  | (.done _, b) => setBench b
  | (_, b) =>
    setBench b
    throw .never

def files : Shell Files := do return (← bench).files

def setFiles (files : Files) : Shell Unit := do setBench { ← bench with files }

def station : Shell Station := do return (← get).station

def setStation (station : Station) : Shell Unit := modify fun d => { d with station }

/-- Run the host and append the bytes that it hands over to a file, also if it fails. -/
def hostInto {α : Type} (file : Handle) (run : Host Bench α) : Shell α := do
  let (result, events) ← observe run
  let bytes := events.flatMap Event.bytes
  setFiles ((← files).update file fun c => c.writeAt c.length bytes)
  ofResult result

/-- Change the registers. -/
def changeRegisters (change : RegisterMap → Except Error RegisterMap) : Shell Unit := do
  let s ← station
  setStation { s with registers := ← ofExcept (change s.registers) }

end Shell

end Readout.CommandLine
