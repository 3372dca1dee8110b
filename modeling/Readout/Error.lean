import Readout.Text.Quoted
import Readout.Text.Radix
/-!
# Errors

Every operation of the library fails for one of the causes below.  A cause carries the values that
explain it; its wording is given once, by the `message` functions.

The causes of the link itself (`LinkError`) are a type of their own, so that an error of the link
cannot be mistaken for a refusal by the host.
-/

namespace Readout

/-- Causes of the operating system. -/
inductive IoError
  | noSuchFile
  | fileExists
  | notADirectory
  | isADirectory
  | invalidArgument
  | nameTooLong
  | messageTooLong
  | familyNotSupported
  | addressInUse
  | addressNotAvailable
  | networkUnreachable
  | nulInName
  | notUtf8
  deriving DecidableEq, Repr

/-- The system's own text, with its number where it has one. -/
def IoError.message : IoError → String
  | noSuchFile => "No such file or directory (os error 2)"
  | fileExists => "File exists (os error 17)"
  | notADirectory => "Not a directory (os error 20)"
  | isADirectory => "Is a directory (os error 21)"
  | invalidArgument => "Invalid argument (os error 22)"
  | nameTooLong => "File name too long (os error 36)"
  | messageTooLong => "Message too long (os error 90)"
  | familyNotSupported => "Address family not supported by protocol (os error 97)"
  | addressInUse => "Address already in use (os error 98)"
  | addressNotAvailable => "Cannot assign requested address (os error 99)"
  | networkUnreachable => "Network is unreachable (os error 101)"
  | nulInName => "file name contained an unexpected NUL byte"
  | notUtf8 => "stream did not contain valid UTF-8"

/-- Causes of the link to the board. -/
inductive LinkError
  | timeout
  | transport (cause : String)
  | io (cause : IoError)
  deriving DecidableEq, Repr

/-- Values that an operation does not take. -/
inductive InvalidParameter
  | subAddressOutside (address : UInt8) (entry block : String)
  | blockFull (block : String) (capacity : Nat)
  | subAddressTaken (address : UInt8) (block : String)
  | entryExists (entry block : String)
  | duplicateBlock (block : String)
  | pagePastEnd (page : Nat) (start : UInt32)
  | spanPastEnd (pages : Nat) (start : UInt32)
  | readTooLong (words : Nat)
  | notAWord (token : String)
  | noImages
  | emptyImage (width height : Nat)
  | noDeviceAddress
  deriving DecidableEq, Repr

def InvalidParameter.message : InvalidParameter → String
  | subAddressOutside address entry block =>
    "sub-address " ++ Text.hex 2 address.toNat ++ " of " ++ entry ++ " is outside block " ++ block
  | blockFull block capacity =>
    "block " ++ block ++ " already holds " ++ toString capacity ++ " entries"
  | subAddressTaken address block =>
    "sub-address " ++ Text.hex 2 address.toNat ++ " already used in block " ++ block
  | entryExists entry block => "entry " ++ entry ++ " already exists in block " ++ block
  | duplicateBlock block => "duplicate configuration block " ++ block
  | pagePastEnd page start =>
    "page " ++ toString page ++ " from " ++ Text.hex 8 start.toNat ++
      " is past the end of the flash address space"
  | spanPastEnd pages start =>
    toString pages ++ " pages from " ++ Text.hex 8 start.toNat ++
      " run past the end of the flash address space"
  | readTooLong words => "cannot read " ++ toString words ++ " words at once"
  | notAWord token => "not a 32-bit word: " ++ Text.quote token
  | noImages => "no image capability configured"
  | emptyImage width height =>
    "FITS image must be at least 1x1, got " ++ toString width ++ "x" ++ toString height
  | noDeviceAddress => "device_address is required for build()"

/-- What a map file can lack. -/
inductive MapError
  | noRange
  | reversed (first last : UInt32)
  | inFile (path : String) (cause : MapError)
  deriving DecidableEq, Repr

def MapError.message : MapError → String
  | noRange => "no address range found"
  | reversed first last =>
    "end address " ++ Text.hex 1 last.toNat ++ " before start address " ++ Text.hex 1 first.toNat
  | inFile path cause => path ++ ": " ++ cause.message

/-- Answers and files that cannot be interpreted. -/
inductive ProtocolError
  | shortResponse (command : String) (words : Nat)
  | notAnImage (path : String)
  | truncatedImage (path : String) (needed found : Nat)
  deriving DecidableEq, Repr

def ProtocolError.message : ProtocolError → String
  | shortResponse command words =>
    command ++ " response has " ++ toString words ++ " words, expected at least 2"
  | notAnImage path => path ++ " is not a FITS file"
  | truncatedImage path needed found =>
    path ++ " is truncated: header needs " ++ toString needed ++ " bytes, file has " ++
      toString found

/-- How a page read back differs from the page written.  Sector and page count from the start of
the operation; the differing words are listed only when both pages have the same length. -/
structure Mismatch where
  sector : Nat
  page : Nat
  address : UInt32
  written : Nat
  read : Nat
  differing : List (Nat × UInt32 × UInt32)
  deriving DecidableEq, Repr

/-- The causes of failure. -/
inductive Error
  | invalidCommand (token : String)
  | transport (cause : String)
  | timeout
  | verifyMismatch (found : Mismatch)
  | invalidParameter (cause : InvalidParameter)
  | unalignedAddress (address : UInt32)
  | sectorOverflow (bytes limit : Nat)
  | invalidPage (page : Nat)
  | invalidTask (id : Nat)
  | blockNotFound (block : String)
  | entryNotFound (block entry : String)
  | configParse (line : Nat)
  | mapFile (cause : MapError)
  | protocol (cause : ProtocolError)
  | io (cause : IoError)
  deriving DecidableEq, Repr

namespace Error

/-- An error of the link as an error of the operation that used it. -/
def ofLink : LinkError → Error
  | .timeout => timeout
  | .transport cause => transport cause
  | .io cause => io cause

/-- The wording of an error. -/
def message : Error → String
  | invalidCommand token =>
    "invalid command: " ++ Text.quote token ++ " (commands are exactly 3 ASCII characters)"
  | transport cause => "transport error: " ++ cause
  | timeout => "timeout waiting for response"
  | verifyMismatch m =>
    "flash verify failed at sector " ++ toString m.sector ++ ", page " ++ toString m.page ++
      " (address " ++ Text.hex 8 m.address.toNat ++ "): wrote " ++ toString m.written ++
      " words, read back " ++ toString m.read ++ " words, " ++ toString m.differing.length ++
      " differing"
  | invalidParameter cause => "invalid parameter: " ++ cause.message
  | unalignedAddress address =>
    "address " ++ Text.hex 8 address.toNat ++ " is not aligned to a flash sector boundary"
  | sectorOverflow bytes limit =>
    "write of " ++ toString bytes ++ " bytes exceeds one flash sector (" ++ toString limit ++
      " bytes)"
  | invalidPage page =>
    "invalid configuration page " ++ toString page ++ " (valid pages are 0-9)"
  | invalidTask id => "invalid capture task " ++ toString id
  | blockNotFound block => "configuration block not found: " ++ block
  | entryNotFound block entry =>
    "configuration entry " ++ entry ++ " not found in block " ++ block
  | configParse line => "configuration parse error on line " ++ toString line
  | mapFile cause => "invalid map file: " ++ cause.message
  | protocol cause => "protocol error: " ++ cause.message
  | io cause => "I/O error: " ++ cause.message

end Error

end Readout
