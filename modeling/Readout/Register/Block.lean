import Readout.Error
import Readout.Text.Blank
import Readout.Word
/-!
# Registers and blocks

A register is a named 16-bit value with a default.  A block holds up to 64 registers under one
block address, in the order of their sub-addresses.  A register named `UNUSED` only keeps a
sub-address: it has no name to look it up by and is never sent.

* `Block.add` says which registers a block takes;
* `Block.find?` looks a register up by its name, up to ASCII case;
* `Block.words` are the register words that a block sends.
-/

namespace Readout

structure Register where
  address : UInt8
  value : UInt16
  default : UInt16
  name : String
  description : String
  deriving DecidableEq, Repr

namespace Register

/-- The name of a register that only keeps a sub-address. -/
def unusedName : String := "UNUSED"

/-- A register at its default. -/
def atDefault (default : UInt16) (address : UInt8) (name description : String) : Register :=
  { address, value := default, default, name, description }

def unused (address : UInt8) : Register := atDefault 0 address unusedName "Unused"

def isUnused (r : Register) : Bool := r.name == unusedName

/-- Whether a register is looked up by a name. -/
def answersTo (name : String) (r : Register) : Bool :=
  !r.isUnused && Text.sameName r.name name

/-- Whether a register is sent: all named ones, or only those away from their defaults. -/
def isSent (all : Bool) (r : Register) : Bool :=
  !r.isUnused && (all || r.value != r.default)

def reset (r : Register) : Register := { r with value := r.default }

end Register

/-- The number of sub-addresses of a block. -/
def blockCapacity : Nat := 64

structure Block where
  address : UInt8
  name : String
  registers : List Register := []
  deriving DecidableEq, Repr

namespace Block

/-- Put a register before the first one with a higher sub-address. -/
def insertByAddress (r : Register) : List Register → List Register
  | [] => [r]
  | x :: xs => if r.address < x.address then r :: x :: xs else x :: insertByAddress r xs

/-- Why a block does not take a register, if it does not. -/
def refusal? (b : Block) (r : Register) : Option InvalidParameter :=
  if blockCapacity ≤ r.address.toNat then some (.subAddressOutside r.address r.name b.name)
  else if blockCapacity ≤ b.registers.length then some (.blockFull b.name blockCapacity)
  else if b.registers.any (·.address == r.address) then some (.subAddressTaken r.address b.name)
  else if !r.isUnused && b.registers.any (·.name == r.name) then some (.entryExists r.name b.name)
  else none

/-- Add a register at its place. -/
def add (b : Block) (r : Register) : Except Error Block :=
  match b.refusal? r with
  | some cause => .error (.invalidParameter cause)
  | none => .ok { b with registers := insertByAddress r b.registers }

/-- A block of the given registers, added one by one. -/
def ofRegisters (address : UInt8) (name : String) (rs : List Register) : Except Error Block :=
  rs.foldlM add { address := address, name := name }

/-! ## Looking up and changing -/

/-- The register that answers to a name. -/
def find? (b : Block) (name : String) : Option Register := b.registers.find? (·.answersTo name)

/-- Change the first register that answers to a name. -/
def modifyFirst (name : String) (f : Register → Register) : List Register → List Register
  | [] => []
  | r :: rs => if r.answersTo name then f r :: rs else r :: modifyFirst name f rs

/-- The register that answers to a name, or the error that says that none does. -/
def lookup (b : Block) (name : String) : Except Error Register :=
  match b.find? name with
  | some r => .ok r
  | none => .error (.entryNotFound b.name name)

/-- Change the register that answers to a name. -/
def modify (b : Block) (name : String) (f : Register → Register) : Except Error Block :=
  (b.lookup name).map fun _ => { b with registers := modifyFirst name f b.registers }

def get (b : Block) (name : String) : Except Error UInt16 := (b.lookup name).map Register.value

def set (b : Block) (name : String) (value : UInt16) : Except Error Block :=
  b.modify name fun r => { r with value }

def setDefault (b : Block) (name : String) (default : UInt16) : Except Error Block :=
  b.modify name fun r => { r with default }

def reset (b : Block) : Block := { b with registers := b.registers.map Register.reset }

/-- The register words that the block sends, by increasing sub-address. -/
def words (b : Block) (all : Bool) : List Word :=
  (b.registers.filter (·.isSent all)).map fun r => Word.register b.address r.address r.value

end Block

end Readout
