import Readout.Capture.Watch
import Readout.Command.ReplyPort
import Readout.CommandLine.Request
import Readout.CommandLine.Shell
import Readout.Path
/-!
# The subcommands

What each subcommand does at a desk, and what it tells its user.

* `Request.run` carries out a request, `Invocation.run` a whole command line;
* `readOut` waits for an image.
-/

namespace Readout.CommandLine

open Shell

/-! ## Captures -/

/-- Start a capture; the answer is its number. -/
def launch (file : String) (port : Port) (shape : Capture.Shape) : Shell Nat := do
  let images := (← station).images
  atBench fun b => b.launch images file port shape

/-- Close a capture; the answer is the number of words that it received. -/
def closeCapture (id : Nat) : Shell Nat := atBench fun b => b.closeCapture id

/-- Close all captures. -/
def closeAll : Shell Unit := do setBench (← bench).closeAll.2

/-! ## Commands -/

/-- Where the reply of a chip read goes if no file is named. -/
def temporaryFile : String := "temp_cabac_delete.txt"

/-- The text of a file; one that cannot be read has none. -/
def textOrNone (file : String) : Shell String := do
  match (← files).readText file with
  | .ok text => return String.ofList text
  | .error _ => return ""

/-- Show the registers that a chip read has stored, and take the temporary file away. -/
def showChip (file : String) : Shell Unit := do
  printLine ("Register is: " ++ (← textOrNone file))
  if file = temporaryFile then setFiles ((← files).remove file)

def CommandRequest.run (r : CommandRequest) : Shell Unit := do
  let options := (← station).options
  let isChipRead := Command.chipReads.contains r.name
  let file := r.file <|> if isChipRead then some temporaryFile else none
  if let (some file, some port) := (file, Command.replyPort? r.name) then
    let _ ← trying ("failed to capture to " ++ file) (launch file port { rows := 0, cols := 0 })
    sleep (Duration.seconds 1)
  let _ ← host (Exchange.command
    { name := r.name, parameter := some r.parameter, second := r.second })
  if r.response then
    let words ← trying "no response from board"
      (host (Exchange.receiveWords commandPort options.commandTimeout))
    printLine (← ofExcept (Response.ofWords r.name words)).text
  sleep (Duration.seconds 1)
  closeAll
  if isChipRead && r.response then file.forM showChip

/-! ## Configuration -/

/-- Load a register file, with a warning if a line of it is malformed. -/
def loadRegisters (file : String) : Shell Unit := do
  let (malformed, s) ← trying ("failed to read " ++ file)
    (ofExcept ((← station).loadFile (← files) file))
  setStation s
  if let some line := malformed then
    warnLine ("Warning: " ++ file ++ " line " ++ toString line ++ " could not be parsed")

/-- The file of the default registers. -/
def defaultFile : String := "default.ini"

def storeDefaults : Shell Unit := do
  let written := Station.writeRegisters .standard (← files) defaultFile
  setFiles (← trying ("failed to write " ++ defaultFile) (ofExcept written))
  printLine ("Wrote " ++ defaultFile)

def ConfigRequest.run (r : ConfigRequest) : Shell Unit := do
  if r.writeDefault then
    storeDefaults
    if !(← files).has r.file then return
  loadRegisters r.file
  let s ← station
  if r.toFlash then
    let words ← host (s.storeRegisters r.page)
    printLine ("Wrote " ++ toString words ++ " words to configuration page " ++ toString r.page)
  else
    let bytes ← host s.sendRegisters
    printLine ("Sent " ++ toString (bytes / 4) ++ " configuration words")

/-! ## Flash -/

def FirmwareRequest.run (r : FirmwareRequest) : Shell Unit := do
  let map := r.map.getD (Path.withExtension "map" r.image)
  if r.map.isNone then printLine (".map file not given, assuming file is: " ++ map)
  if r.address ≠ applicationAddress ∧ !r.force then
    refuse ("address " ++ Text.hex 8 r.address.toNat ++
      " is not the application image, rerun with --force to write firmware there")
  let pages ← trying ("failed to write " ++ r.image)
    (host ((← station).writeFirmware (← files) r.image map r.address))
  printLine ""
  printLine ("Wrote " ++ toString pages ++ " pages")

def DumpRequest.run (r : DumpRequest) : Shell Unit := do
  let created := (← files).create r.file
  let (file, created) ← trying ("failed to create " ++ r.file) (ofSystem created)
  setFiles created
  let words ← hostInto file
    (Flash.dump (← station).options.flashTimeout r.start r.words.toNat)
  printLine ("Read " ++ toString words ++ " words to " ++ r.file)

/-! ## Streams -/

def CaptureRequest.run (r : CaptureRequest) : Shell Unit := do
  let port := Text.hex 1 r.port.toNat
  let id ← trying ("failed to capture on port " ++ port) (launch r.file r.port r.shape)
  printLine ("Capturing on port " ++ port ++ " for " ++ toString r.seconds ++
    " s (Ctrl-C to stop early)")
  sleep (Duration.seconds r.seconds)
  let words ← closeCapture id
  printLine ("Read a total of " ++ toString words ++ " words")

def SendRequest.run (r : SendRequest) : Shell Unit := do
  let bytes ← trying ("failed to send " ++ r.file)
    (host (Station.sendFile (← files) r.file r.port))
  printLine ("Sent " ++ toString (bytes / 4) ++ " words to port " ++ Text.hex 1 r.port.toNat)

/-! ## Images -/

/-- Wait a second; then the time, and the words that a capture has received.  To read the clock and to
show what was received takes no time, so that one reading serves for a look. -/
def nextLook (id : Nat) : Shell (Nat × Nat) := do
  sleep (Duration.seconds 1)
  let b ← bench
  return (b.clock, (b.captures.words? id).getD 0)

/-- Watch a capture until it has all words of a readout or has stalled. -/
def readOut (id : Nat) (patience : Nat) (w : Capture.Watch) : Shell Unit := do
  let showBar (w : Capture.Watch) := print (ProgressBar.ofCounts w.words w.total)
  match ← w.follow (nextLook id) showBar patience with
  | (_, some .complete) => return
  | (w, some .stalled) =>
    printLine ""
    warnLine ("Readout stalled after " ++ toString w.words ++ " of " ++ toString w.total ++
      " words")
  | (_, none) => throw .never

/-- The compile time of the firmware as a text, if the board gives one. -/
def compileTimeText : Shell String := do
  let limit := (← station).options.commandTimeout
  tryCatch (do return Calendar.timestamp (← host (Exchange.compileTime limit)).toNat)
    fun ending =>
      match ending with
      | .failed _ => return "unknown"
      | .never => throw .never

/-- The settings of the converters that a request asks for. -/
def ImageRequest.configure (r : ImageRequest) : Shell Unit := do
  loadRegisters r.config
  if r.averageSkips then
    changeRegisters (·.setSkips r.skips)
    printLine ("Averaging over " ++ toString r.skips.toNat ++ " skips.")
  if let some samples := r.samples then changeRegisters (·.setTriggerSamples samples)
  let _ ← host (← station).sendRegisters
  sleep (Duration.seconds 1)

/-- The shape of an image of so many words. -/
def ImageRequest.shape (r : ImageRequest) (words : Nat) : Shell Capture.Shape := do
  let cols := words / r.rows.toNat
  if cols < UInt32.size then return { rows := r.rows, cols := UInt32.ofNat cols }
  else trying "image too wide" (refuse "number too large to fit in target type")

def ImageRequest.run (r : ImageRequest) : Shell Unit := do
  if (← files).has r.file then
    refuse (r.file ++ " already exists, please specify a different name for the output")
  if r.rows = 0 then refuse "--nrows must be positive"
  r.configure
  let registers := (← station).registers
  let words ← ofExcept
    (registers.wordsToRead r.rows.toNat r.cols.toNat r.skips.toNat)
  let id ← launch r.file r.port (← r.shape words)
  printLine ("Reading " ++ toString words ++ " samples.")
  let b ← bench
  readOut id (Link.patience b)
    { total := words, limit := r.stall.map Duration.seconds, changed := b.clock }
  let read ← closeCapture id
  let acquisition : Acquisition :=
    { measurements := r.skips, amplifier := r.amplifier, exposure := r.exposure
      duration := r.duration, compileTime := ← compileTimeText }
  let described := (← station).describe (← files) r.file acquisition (← bench).seconds
  setFiles (← trying "failed to write image header" (ofExcept described))
  printLine ""
  printLine ("Read a total of " ++ toString read ++ " words.")

/-- Carry out a request. -/
def Request.run : Request → Shell Unit
  | .command r => r.run
  | .config r => r.run
  | .firmware r => r.run
  | .dump r => r.run
  | .capture r => r.run
  | .send r => r.run
  | .image r => r.run

/-- Carry out a request over the network between the addresses that were given. -/
def Invocation.run (v : Invocation) : Shell Unit := do
  let b ← bench
  let joined := (b.network.join v.host v.board).mapError Error.io
  let network ← trying ("failed to open link to ODILE at " ++ v.board.text) (ofExcept joined)
  setBench { b with network }
  v.request.run

end Readout.CommandLine
