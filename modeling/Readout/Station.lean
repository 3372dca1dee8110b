import Readout.Command.DataWords
import Readout.Files
import Readout.Flash.Dump
import Readout.Flash.Firmware
import Readout.Image.Fits
import Readout.Register.Settings
/-!
# The station

The host's side of a board: the register model, and the settings of the exchange.

* `Station.sendRegisters`, `Station.storeRegisters` configure a board now, or at its next start;
* `Station.loadFile` reads a register file;
* `Station.headerCards` describe a readout in the header of its image.
-/

namespace Readout

structure Options where
  /-- The limit for an acknowledgement or an answer; without one the host waits for ever. -/
  commandTimeout : Option Duration := some (Duration.seconds 1)
  /-- The limit for each acknowledgement and answer while the flash is read or programmed. -/
  flashTimeout : Option Duration := some (Duration.seconds 5)
  /-- Send every register, not only those away from their defaults. -/
  writeAll : Bool := true

structure Station where
  registers : RegisterMap := .standard
  options : Options := {}
  /-- Whether images can be written. -/
  images : Bool := true

/-- What is written down about a readout. -/
structure Acquisition where
  /-- Charge measurements per pixel. -/
  measurements : UInt16
  amplifier : String
  /-- Seconds. -/
  exposure : Decimal.Binary64
  /-- Seconds. -/
  duration : Decimal.Binary64
  compileTime : String

namespace Station

/-! ## Registers -/

/-- The message that configures the board. -/
def message (s : Station) : List Word := s.registers.words s.options.writeAll

/-- Assign the values of a register file; the answer is the number of its first malformed line. -/
def loadFile (s : Station) (f : Files) (path : String) : Except Error (Option Nat × Station) :=
  match f.readText path with
  | .error e => .error (.io e)
  | .ok text =>
    let d := Ini.Document.parse text
    .ok (d.firstMalformed, { s with registers := s.registers.load d })

/-- The default registers with the values of a register file, which must not hold a malformed
line. -/
def registersOfFile (f : Files) (path : String) : Except Error RegisterMap :=
  match f.readText path with
  | .error e => .error (.io e)
  | .ok text =>
    let d := Ini.Document.parse text
    match d.firstMalformed with
    | some line => .error (.configParse line)
    | none => .ok (RegisterMap.standard.load d)

/-- Write every register with its description to a file. -/
def writeRegisters (m : RegisterMap) (f : Files) (path : String) : Except Error Files :=
  match f.create path with
  | .error e => .error (.io e)
  | .ok (file, f) =>
    .ok (f.put file.name { data := Text.Utf8.encode (m.settings true true).toList })

variable {σ : Type} [Link σ]

/-- Configure the board; the answer is the number of bytes sent. -/
def sendRegisters (s : Station) : Host σ Nat := Host.send configPort (Word.encode s.message)

/-- Store the configuration in a boot page; the answer is the number of words written. -/
def storeRegisters (s : Station) (page : Nat) : Host σ Nat :=
  Flash.writeBootPage s.options.flashTimeout s.message page

/-- Send the words of a text file to a port; the answer is the number of bytes sent. -/
def sendFile (f : Files) (path : String) (port : Port) : Host σ Nat := do
  match f.readText path with
  | .error e => Host.fail (.io e)
  | .ok text => Exchange.sendWords port (← Host.ofExcept (dataWords text))

/-! ## Firmware -/

/-- The extent of an image, from its map file. -/
def firmwareMap (f : Files) (path : String) : Except Error Flash.FirmwareMap :=
  match f.readText path with
  | .error e => .error (.io e)
  | .ok text =>
    match Flash.FirmwareMap.parse text with
    | .error cause => .error (.mapFile (.inFile path cause))
    | .ok map => .ok map

/-- Program a firmware image from its files; the answer is the number of pages. -/
def writeFirmware (s : Station) (f : Files) (image map : String) (start : UInt32) :
    Host σ Nat := do
  let map ← Host.ofExcept (firmwareMap f map)
  match f.read image with
  | .error e => Host.fail (.io e)
  | .ok content => Flash.writeImage s.options.flashTimeout content.bytes map start

/-! ## Images -/

/-- The cards that describe a readout: the converter registers, its parameters, and the moment of
its end in seconds since the start of 1970. -/
def headerCards (s : Station) (r : Acquisition) (ended : Nat) : Except Error (List Image.Card) := do
  let adc ← s.registers.block Tables.adcBlock
  let registers := (adc.registers.filter fun r => !r.isUnused).map fun r =>
    { keyword := r.name, value := .int (Int64.ofNat r.value.toNat), comment := r.description }
  return Image.Card.remark "This image was taken using odile" :: registers ++
    [{ keyword := "NDCMs", value := .int (Int64.ofNat r.measurements.toNat)
       comment := "Number of charge measurements" },
      { keyword := "NPBIN", value := .int 1, comment := "Vertical binning" },
      { keyword := "NSBIN", value := .int 1, comment := "Horizontal binning" },
      { keyword := "AMPL", value := .text r.amplifier, comment := "Amplifier" },
      { keyword := "MREAD", value := .real r.duration, comment := "Readout time" },
      { keyword := "MEXP", value := .real r.exposure, comment := "Exposure time" },
      { keyword := "RdEnd", value := .text (Calendar.timestamp ended)
        comment := "Readout end time" },
      { keyword := "FWCTIME", value := .text r.compileTime
        comment := "Firmware compile time" }]

/-- Describe a readout in the header of its image. -/
def describe (s : Station) (f : Files) (path : String) (r : Acquisition) (ended : Nat) :
    Except Error Files := do
  if !s.images then throw (.invalidParameter .noImages)
  Image.addCardsTo path (← s.headerCards r ended) f

end Station

end Readout
