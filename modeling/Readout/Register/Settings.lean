import Readout.Ini.Document
import Readout.Register.Map
/-!
# Register files

Register values are kept in INI files: a section for every block, a key for every register.

* `Block.load` assigns the values of a document, `Block.settings` writes a section;
* `RegisterMap.load` and `RegisterMap.settings` do so for all blocks.
-/

namespace Readout

/-- The 16-bit value that a document gives a key. -/
def Ini.Document.register? (d : Ini.Document) (name key : String) : Option UInt16 :=
  match d.integer? name key with
  | some (.ofNat n) => if n < 65536 then some (UInt16.ofNat n) else none
  | _ => none

namespace Block

/-- Assign one key of the block's section, if a register answers to it and the value fits; says
whether it did. -/
def loadKey (d : Ini.Document) (b : Block) (key : String) : Block × Bool :=
  match b.find? key, d.register? b.name key with
  | some _, some value =>
    ({ b with registers := modifyFirst key (fun r => { r with value }) b.registers }, true)
  | _, _ => (b, false)

/-- Assign the values of the block's section, and count the assignments. -/
def load (d : Ini.Document) (b : Block) : Block × Nat :=
  (d.keys b.name).foldl
    (fun (acc : Block × Nat) key =>
      let (b, assigned) := loadKey d acc.1 key
      (b, if assigned then acc.2 + 1 else acc.2))
    (b, 0)

/-- The lines of one register: its description if wanted, and its value. -/
def settingLines (described : Bool) (r : Register) : String :=
  (if described then ";" ++ Text.hex 1 r.address.toNat ++ " " ++ r.description ++ "\n" else "") ++
    r.name ++ " = " ++ Text.hex 1 r.value.toNat ++ "\n"

/-- The block as a section of an INI file. -/
def settings (b : Block) (all described : Bool) : String :=
  "[" ++ b.name ++ "]\n" ++
    String.join ((b.registers.filter (·.isSent all)).map (settingLines described))

end Block

namespace RegisterMap

/-- Assign the values of a document to all blocks. -/
def load (d : Ini.Document) (m : RegisterMap) : RegisterMap :=
  ⟨m.blocks.map fun b => (b.load d).1⟩

/-- All blocks as an INI file. -/
def settings (m : RegisterMap) (all described : Bool) : String :=
  String.join (m.blocks.map (·.settings all described))

end RegisterMap

end Readout
