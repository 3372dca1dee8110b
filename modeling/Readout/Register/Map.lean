import Readout.Register.Tables
/-!
# The register map

All blocks of a board, in the order in which they are sent.  Block names are exact, register names
hold up to ASCII case.

* `RegisterMap.words` is the message that configures a board: every named register, or only those
  away from their defaults;
* `RegisterMap.wordsToRead` is the length of a readout under the current settings.
-/

namespace Readout

structure RegisterMap where
  blocks : List Block
  deriving DecidableEq, Repr

namespace RegisterMap

/-- The map at the compiled-in defaults. -/
def standard : RegisterMap := ⟨Tables.blocks⟩

/-- The first name that an earlier block has already. -/
def duplicate? (seen : List String) : List Block → Option String
  | [] => none
  | b :: bs => if seen.contains b.name then some b.name else duplicate? (b.name :: seen) bs

/-- A map of the given blocks, whose names have to differ. -/
def ofBlocks (bs : List Block) : Except Error RegisterMap :=
  match duplicate? [] bs with
  | some name => .error (.invalidParameter (.duplicateBlock name))
  | none => .ok ⟨bs⟩

/-- The block of a name. -/
def block (m : RegisterMap) (name : String) : Except Error Block :=
  match m.blocks.find? (·.name == name) with
  | some b => .ok b
  | none => .error (.blockNotFound name)

/-- Put a changed block in the place of the first one of that name. -/
def replaceFirst (name : String) (b : Block) : List Block → List Block
  | [] => []
  | x :: xs => if x.name == name then b :: xs else x :: replaceFirst name b xs

/-- Change the block of a name. -/
def modifyBlock (m : RegisterMap) (name : String) (f : Block → Except Error Block) :
    Except Error RegisterMap := do
  let b ← f (← m.block name)
  return ⟨replaceFirst name b m.blocks⟩

def lookup (m : RegisterMap) (block name : String) : Except Error Register := do
  (← m.block block).lookup name

def get (m : RegisterMap) (block name : String) : Except Error UInt16 := do
  (← m.block block).get name

def set (m : RegisterMap) (block name : String) (value : UInt16) : Except Error RegisterMap :=
  m.modifyBlock block (·.set name value)

def setDefault (m : RegisterMap) (block name : String) (default : UInt16) :
    Except Error RegisterMap :=
  m.modifyBlock block (·.setDefault name default)

def resetBlock (m : RegisterMap) (block : String) : Except Error RegisterMap :=
  m.modifyBlock block fun b => .ok b.reset

def reset (m : RegisterMap) : RegisterMap := ⟨m.blocks.map Block.reset⟩

/-- The message that configures a board. -/
def words (m : RegisterMap) (all : Bool) : List Word := m.blocks.flatMap (·.words all)

/-! ## Converter settings -/

/-- Charge measurements per pixel that the board combines. -/
def setSkips (m : RegisterMap) (n : UInt16) : Except Error RegisterMap :=
  m.set Tables.adcBlock Tables.adcSkips n

/-- Samples per integration window. -/
def setSamples (m : RegisterMap) (n : UInt16) : Except Error RegisterMap :=
  m.set Tables.adcBlock Tables.adcSamples n

/-- Samples per trigger. -/
def setTriggerSamples (m : RegisterMap) (n : UInt16) : Except Error RegisterMap :=
  m.set Tables.adcBlock Tables.adcTriggerSamples n

/-- The number of words of a readout.  Every skip is a word of its own unless the board combines
them; without correlated double sampling a pixel gives two raw samples per trigger sample. -/
def wordsToRead (m : RegisterMap) (rows cols skips : Nat) : Except Error Nat := do
  let adc ← m.block Tables.adcBlock
  let boardSkips ← adc.get Tables.adcSkips
  let words := if boardSkips = 1 ∧ 1 < skips then rows * cols * skips else rows * cols
  let output ← adc.get Tables.adcOutput
  if output &&& Tables.doubleSampling = 0 then
    let samples ← adc.get Tables.adcTriggerSamples
    return words * (2 * samples.toNat)
  else return words

end RegisterMap

end Readout
