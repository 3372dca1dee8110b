import Readout.CommandLine.Value
import Readout.Capture.Output
import Readout.Word
/-!
# Requests

What can be asked for on the command line: one subcommand with its own options, and the options
that hold for all of them, which may stand before the subcommand or after it.

* `Invocation.parse` reads a command line.
-/

namespace Readout.CommandLine

/-- Send a command to the board. -/
structure CommandRequest where
  name : String := ""
  parameter : UInt8 := 0
  second : Option Word := none
  response : Bool := false
  file : Option String := none
  deriving DecidableEq, Repr

/-- Configure the board now, or at its next start. -/
structure ConfigRequest where
  file : String := "config.ini"
  toFlash : Bool := false
  page : Nat := 0
  writeDefault : Bool := false
  deriving DecidableEq, Repr

/-- The flash address of the application firmware. -/
def applicationAddress : UInt32 := 0x01000000

/-- Program firmware. -/
structure FirmwareRequest where
  image : String := ""
  map : Option String := none
  address : UInt32 := applicationAddress
  force : Bool := false
  deriving DecidableEq, Repr

/-- Dump words of the flash to a file. -/
structure DumpRequest where
  file : String := "out_data.bin"
  start : UInt32 := 0
  words : UInt32 := 100
  deriving DecidableEq, Repr

/-- Capture what arrives on a port for some seconds. -/
structure CaptureRequest where
  port : Port := 0x1000
  file : String := "out_data.bin"
  shape : Capture.Shape := { rows := 0, cols := 0 }
  seconds : Nat := 10
  deriving DecidableEq, Repr

/-- Send the words of a text file to a port of the board. -/
structure SendRequest where
  file : String := ""
  port : Port := 0x2000
  deriving DecidableEq, Repr

/-- Configure the board and read out an image. -/
structure ImageRequest where
  file : String := "test.fits"
  config : String := "config.ini"
  port : Port := 0x1202
  cols : UInt32 := 1100
  rows : UInt32 := 6000
  skips : UInt16 := 1
  averageSkips : Bool := false
  samples : Option UInt16 := none
  amplifier : String := "L"
  /-- Seconds. -/
  exposure : Decimal.Binary64 := .ofFloat 5
  /-- Seconds. -/
  duration : Decimal.Binary64 := .ofFloat 100
  /-- The seconds without a new word after which the readout is given up. -/
  stall : Option Nat := none

inductive Request
  | command (r : CommandRequest)
  | config (r : ConfigRequest)
  | firmware (r : FirmwareRequest)
  | dump (r : DumpRequest)
  | capture (r : CaptureRequest)
  | send (r : SendRequest)
  | image (r : ImageRequest)

/-! ## Options -/

def CommandRequest.options : List (Opt CommandRequest) :=
  [.value "prefix" 'p' (Value.literal 8) fun n r => { r with parameter := UInt8.ofNat n },
    .value "second" 'w' (Value.literal 32) fun n r => { r with second := some (UInt32.ofNat n) },
    .flag "response" 'r' fun r => { r with response := true },
    .value "file" 'f' Value.fileName fun f r => { r with file := some f }]

def ConfigRequest.options : List (Opt ConfigRequest) :=
  [.value "config" 'c' Value.fileName fun f r => { r with file := f },
    .flag "flash" 'f' fun r => { r with toFlash := true },
    .value "page" 'p' (Value.count 9) fun n r => { r with page := n },
    .flag "write-default" 'w' fun r => { r with writeDefault := true }]

def FirmwareRequest.options : List (Opt FirmwareRequest) :=
  [.value "file" 'f' Value.fileName fun f r => { r with image := f },
    .value "map" 'm' Value.fileName fun f r => { r with map := some f },
    .value "address" 'a' (Value.literal 32) fun n r => { r with address := UInt32.ofNat n },
    .flag "force" none fun r => { r with force := true }]

def DumpRequest.options : List (Opt DumpRequest) :=
  [.value "file" 'f' Value.fileName fun f r => { r with file := f },
    .value "start" 'a' (Value.literal 32) fun n r => { r with start := UInt32.ofNat n },
    .value "words" 'n' (Value.literal 32) fun n r => { r with words := UInt32.ofNat n }]

/-- The largest count of rows or columns. -/
def lastCount : Nat := UInt32.size - 1

def CaptureRequest.options : List (Opt CaptureRequest) :=
  [.value "port" 'p' (Value.literal 16) fun n r => { r with port := UInt16.ofNat n },
    .value "file" 'f' Value.fileName fun f r => { r with file := f },
    .value "rows" 'r' (Value.count lastCount) fun n r =>
      { r with shape := { r.shape with rows := UInt32.ofNat n } },
    .value "cols" 'c' (Value.count lastCount) fun n r =>
      { r with shape := { r.shape with cols := UInt32.ofNat n } },
    .value "duration" 't' Value.seconds fun n r => { r with seconds := n }]

def SendRequest.options : List (Opt SendRequest) :=
  [.value "file" 'f' Value.fileName fun f r => { r with file := f },
    .value "port" 'p' (Value.literal 16) fun n r => { r with port := UInt16.ofNat n }]

def ImageRequest.options : List (Opt ImageRequest) :=
  [.value "file" 'f' Value.fileName fun f r => { r with file := f },
    .value "config" 'c' Value.fileName fun f r => { r with config := f },
    .value "port" 'p' (Value.literal 16) fun n r => { r with port := UInt16.ofNat n },
    .value "ncols" 'n' (Value.count lastCount) fun n r => { r with cols := UInt32.ofNat n },
    .value "nrows" 'r' (Value.count lastCount) fun n r => { r with rows := UInt32.ofNat n },
    .value "nskips" 'k' (Value.count 65535) fun n r => { r with skips := UInt16.ofNat n },
    .flag "average-skips" 'a' fun r => { r with averageSkips := true },
    .value "samples" 'S' (Value.count 65535) fun n r =>
      { r with samples := some (UInt16.ofNat n) },
    .value "amplifier" none Value.text fun s r => { r with amplifier := s },
    .value "exposure" none Value.real fun x r => { r with exposure := x },
    .value "read-time" none Value.real fun x r => { r with duration := x },
    .value "stall-timeout" none Value.seconds fun n r => { r with stall := some n }]

/-! ## Command lines -/

/-- The options that hold for all subcommands. -/
structure Common where
  board : Option Text.Address := none
  host : Option Text.Address := none
  debug : Bool := false
  deriving DecidableEq, Repr

/-- Options given in two places: those of the later one count. -/
def Common.over (later earlier : Common) : Common where
  board := later.board <|> earlier.board
  host := later.host <|> earlier.host
  debug := later.debug || earlier.debug

def Common.options : List (Opt Common) :=
  [.value "ip" 'i' Value.address fun a c => { c with board := some a },
    .value "server" 's' Value.address fun a c => { c with host := some a },
    .flag "debug" 'd' fun c => { c with debug := true },
    { long := "help", short := 'h', action := .stop .help }]

/-- An option of a part of a draft. -/
def Opt.onPart {σ τ : Type} (change : (σ → σ) → τ → τ) (part : τ → σ) (o : Opt σ) : Opt τ where
  long := o.long
  short := o.short
  action :=
    match o.action with
    | .flag set => .flag (change set)
    | .value set => .value fun text t => (set text (part t)).map fun s => change (fun _ => s) t
    | .stop cause => .stop cause

/-- The level of a subcommand: its own options and the common ones. -/
def subcommandLevel {σ : Type} (options : List (Opt σ)) (places : List (String → σ → σ))
    (required : List String) : Level (σ × Common) where
  options :=
    options.map (.onPart (fun f (r, c) => (f r, c)) Prod.fst) ++
      Common.options.map (.onPart (fun f (r, c) => (r, f c)) Prod.snd)
  places := places.map fun set text (r, c) => (set text r, c)
  required := required

/-- Read the arguments of a subcommand. -/
def readSubcommand {σ : Type} (draft : σ) (options : List (Opt σ))
    (places : List (String → σ → σ)) (required : List String) (request : σ → Request)
    (args : List String) : Except Usage (Request × Common) := do
  let level := subcommandLevel options places required
  let (reading, _) ← level.read (draft, {}) args
  let (r, common) ← level.finish reading
  return (request r, common)

/-- The subcommands by name. -/
def subcommands : List (String × (List String → Except Usage (Request × Common))) :=
  [("command", readSubcommand {} CommandRequest.options [fun name r => { r with name }] []
      .command),
    ("config", readSubcommand {} ConfigRequest.options [] [] .config),
    ("firmware", readSubcommand {} FirmwareRequest.options [] ["file"] .firmware),
    ("read-epcq", readSubcommand {} DumpRequest.options [] [] .dump),
    ("capture", readSubcommand {} CaptureRequest.options [] [] .capture),
    ("send-data", readSubcommand {} SendRequest.options [] ["file"] .send),
    ("image", readSubcommand {} ImageRequest.options [] [] .image)]

/-- The level before the subcommand. -/
def topLevel : Level Common where
  options := Common.options ++ [{ long := "version", short := 'V', action := .stop .version }]
  subcommands := subcommands.map Prod.fst

/-- A command line that was understood. -/
structure Invocation where
  board : Text.Address := .v4 [192, 168, 0, 3]
  host : Text.Address := .v4 [192, 168, 0, 1]
  debug : Bool := false
  request : Request

/-- Read a command line, without the name of the program.  The arguments of the subcommand are
understood before a last value that stands in front of it. -/
def Invocation.parse (args : List String) : Except Usage Invocation := do
  let (reading, rest) ← topLevel.read {} args
  match rest.bind fun (name, args) => (subcommands.lookup name).map (· args) with
  | some understood =>
    let (request, later) ← understood
    let earlier := (← reading.settle).draft
    let common := later.over earlier
    let standard : Invocation := { request }
    return { standard with
      board := common.board.getD standard.board
      host := common.host.getD standard.host
      debug := common.debug }
  | none =>
    let reading ← reading.settle
    throw (if reading.given.isEmpty then .nothingGiven else .subcommandMissing)

end Readout.CommandLine
