import Readout.Proofs.Register.Assigned
import Readout.Proofs.Register.Blocks
/-!
# The register that a name reaches

A block tells the names of its registers apart as they are spelled, and looks them up up to case.
So a name reaches the first of the registers that are called so up to case, whichever of them it is
the exact name of.

* `Block.Reaches` says what it means that a name reaches a register: `lookup`, `get`, `set` and
  `load` all turn to it;
* `Block.ofRegisters_reaches`: in a block that is made of registers the name of a register reaches
  that register itself exactly if it is the first of its name up to case;
* `Block.ofRegisters_shadowed`: a block of two registers, one of which no name reaches.
-/

namespace Readout.Block

open Text

/-- All that is done under a name is done to the register `s` at place `j`. -/
structure Reaches (b : Block) (key : String) (j : Nat) (s : Register) : Prop where
  lookup : b.lookup key = .ok s
  get : b.get key = .ok s.value
  set : ∀ value,
    b.set key value = .ok { b with registers := b.registers.set j { s with value } }
  load : ∀ d value, Ini.Document.register? d b.name key = some value →
    (b.load d).1.registers[j]? = some { s with value }

section Foremost

variable {b : Block} {i j : Nat} {r s : Register} {key : String}

theorem Foremost.reaches (h : b.Foremost j s) (hname : sameName s.name key = true) :
    b.Reaches key j s := by
  have hslot : b.slot? key = some j := (slot?_congr hname).symm.trans h.slot?
  have hlookup : b.lookup key = .ok s := by
    rw [Block.lookup, find?_of_slot? hslot, h.here]
  refine ⟨hlookup, ?_, fun value => ?_, fun d value hvalue => ?_⟩
  · rw [Block.get, hlookup]
    rfl
  · obtain ⟨hlt, hj⟩ := List.getElem?_eq_some_iff.1 h.here
    have hset : b.registers.modify j (fun r => { r with value }) =
        b.registers.set j { s with value } := by
      rw [List.modify_eq_set_getElem?, h.here]
      rfl
    rw [Block.set, Block.modify, hlookup, modifyFirst_of_findIdx? hslot, hset]
    rfl
  · exact getElem?_load h ((d.register?_congr b.name hname).trans hvalue)

/-- Among the registers of a name there is a first one. -/
theorem exists_foremost (hr : b.registers[i]? = some r) (hnamed : r.isUnused = false) :
    ∃ j s, j ≤ i ∧ b.Foremost j s ∧ sameName s.name r.name = true := by
  have hanswers : r.answersTo r.name = true := by
    rw [r.answersTo_name, hnamed]
    rfl
  cases hslot : b.slot? r.name with
  | none =>
    have hnone := List.findIdx?_eq_none_iff.1 hslot r (List.mem_of_getElem? hr)
    rw [hanswers] at hnone
    cases hnone
  | some j =>
    obtain ⟨-, -, -, hbefore⟩ := slot?_eq_some_iff.1 hslot
    obtain ⟨s, hs, hname⟩ := foremost_of_slot? hslot
    refine ⟨j, s, Nat.le_of_not_lt fun hlt => ?_, hs, hname⟩
    rw [hbefore i hlt r hr] at hanswers
    cases hanswers

/-- A register that comes before another one in a block has a lower sub-address. -/
theorem WellFormed.address_lt (h : b.WellFormed) (hs : b.registers[j]? = some s)
    (hr : b.registers[i]? = some r) (hlt : j < i) : s.address < r.address := by
  obtain ⟨hj, rfl⟩ := List.getElem?_eq_some_iff.1 hs
  obtain ⟨hi, rfl⟩ := List.getElem?_eq_some_iff.1 hr
  exact List.pairwise_iff_getElem.1 h.ordered j i hj hi hlt

theorem WellFormed.name_ne (h : b.WellFormed) (hs : b.registers[j]? = some s)
    (hr : b.registers[i]? = some r) (hlt : j < i) (hsnamed : s.isUnused = false)
    (hrnamed : r.isUnused = false) : s.name ≠ r.name := by
  obtain ⟨hj, rfl⟩ := List.getElem?_eq_some_iff.1 hs
  obtain ⟨hi, rfl⟩ := List.getElem?_eq_some_iff.1 hr
  exact List.pairwise_iff_getElem.1 h.names j i hj hi hlt hsnamed hrnamed

end Foremost

/-- In a block that is made of registers, whatever is called on it, the name of a register reaches
the first register of that name up to case.  This is the register itself exactly if none before it
is called so; if it is another one, then one at a lower sub-address whose name is spelled
otherwise. -/
theorem ofRegisters_reaches {address : UInt8} {name : String} {rs : List Register} {b : Block}
    (h : ofRegisters address name rs = .ok b) (calls : List Call) {i : Nat} {r : Register}
    (hr : (b.callAll calls).registers[i]? = some r) (hnamed : r.isUnused = false) :
    ∃ j s, (b.callAll calls).Foremost j s ∧ (b.callAll calls).Reaches r.name j s ∧
      sameName s.name r.name = true ∧
      ((b.callAll calls).Foremost i r → j = i ∧ s = r) ∧
      (¬ (b.callAll calls).Foremost i r →
        j < i ∧ s.address < r.address ∧ s.name ≠ r.name) := by
  have hwell := (wellFormed_ofRegisters h).callAll calls
  obtain ⟨j, s, hle, hs, hname⟩ := exists_foremost hr hnamed
  refine ⟨j, s, hs, hs.reaches hname, hname, fun hfirst => ?_, fun hnot => ?_⟩
  · have heq : j = i := by
      refine Nat.le_antisymm hle (Nat.le_of_not_lt fun hlt => ?_)
      have hother := hfirst.first j hlt s hs.here hs.named
      rw [hname] at hother
      cases hother
    subst heq
    exact ⟨rfl, hs.unique hfirst⟩
  · have hlt : j < i := by
      refine Nat.lt_of_le_of_ne hle fun heq => hnot ?_
      subst heq
      have hsame : s = r := Option.some.inj (hs.here.symm.trans hr)
      rwa [hsame] at hs
    exact ⟨hlt, hwell.address_lt hs.here hr hlt, hwell.name_ne hs.here hr hlt hs.named hnamed⟩

/-- Two registers whose names differ in case only. -/
def shadowing : Block :=
  ⟨0x20, "ADC", [.atDefault 1 0 "Gain" "", .atDefault 2 1 "GAIN" ""]⟩

theorem ofRegisters_shadowing :
    ofRegisters 0x20 "ADC" [.atDefault 1 0 "Gain" "", .atDefault 2 1 "GAIN" ""] =
      .ok shadowing := by
  decide

theorem ofRegisters_reaches_earlier :
    shadowing.registers[1]? = some (.atDefault 2 1 "GAIN" "") ∧
      shadowing.Reaches "GAIN" 0 (.atDefault 1 0 "Gain" "") := by
  have hr : (shadowing.callAll []).registers[1]? = some (.atDefault 2 1 "GAIN" "") := rfl
  obtain ⟨j, s, hs, hreaches, -, -, hlater⟩ :=
    ofRegisters_reaches ofRegisters_shadowing [] hr (by decide)
  have hnot : ¬ shadowing.Foremost 1 (.atDefault 2 1 "GAIN" "") := by
    intro hfirst
    have hother := hfirst.first 0 Nat.one_pos (.atDefault 1 0 "Gain" "") rfl (by decide)
    exact absurd hother (by decide)
  obtain ⟨hlt, -, -⟩ := hlater hnot
  obtain rfl : j = 0 := by omega
  obtain rfl : s = .atDefault 1 0 "Gain" "" := (Option.some.inj hs.here).symm
  exact ⟨hr, hreaches⟩

/-- A register can be in a block and yet not be reached by its name: `GAIN` is added next to `Gain`,
and its name gives and changes the value of the other one. -/
theorem ofRegisters_shadowed :
    ∃ b, ofRegisters 0x20 "ADC" [.atDefault 1 0 "Gain" "", .atDefault 2 1 "GAIN" ""] = .ok b ∧
      b.registers[1]? = some (.atDefault 2 1 "GAIN" "") ∧
      b.get "GAIN" = .ok 1 ∧
      (b.set "GAIN" 7).map Block.registers =
        .ok [⟨0, 7, 1, "Gain", ""⟩, .atDefault 2 1 "GAIN" ""] ∧
      ¬ b.Reaches "GAIN" 1 (.atDefault 2 1 "GAIN" "") := by
  refine ⟨shadowing, ofRegisters_shadowing, rfl, by decide, by decide, fun hreaches => ?_⟩
  exact absurd hreaches.get (by decide)

end Readout.Block
