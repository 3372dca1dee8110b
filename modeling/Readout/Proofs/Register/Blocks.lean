import Mathlib.Data.List.Perm.Subperm
import Readout.Proofs.Register.Layout
/-!
# What a block takes

A block is made by adding registers, one by one.  It takes a register exactly if the sub-address is
one of the block's and free and no other register has its name; that the block has room is then no
condition of its own.  So the order in which registers are added does not matter.

* `Block.WellFormed` is what every block keeps to, whatever is called on it
  (`WellFormed.callAll`), and `Block.Accepts` says which registers it takes (`add_eq_ok_iff`);
* `Fitting` registers are those that a block can hold together, in any order:
  `Block.foldlM_add_iff`;
* `Block.ofRegisters_callAll` puts these together for a block that is made of registers.
-/

namespace Readout

/-! ## Registers that go together -/

namespace Register

/-- Two registers that a block can hold: at different sub-addresses, and with different names if
both have names. -/
structure Compatible (r s : Register) : Prop where
  address : r.address ≠ s.address
  name : r.isUnused = false → s.isUnused = false → r.name ≠ s.name

theorem Compatible.symm {r s : Register} (h : r.Compatible s) : s.Compatible r :=
  ⟨h.address.symm, fun hs hr => (h.name hr hs).symm⟩

/-- What is settled about a register when it is added. -/
def place (r : Register) : UInt8 × String × String := (r.address, r.name, r.description)

theorem ignoresValue_place : IgnoresValue place := fun _ _ => rfl

theorem ignoresDefault_place : IgnoresDefault place := fun _ _ => rfl

theorem isUnused_eq_false_iff {r : Register} : r.isUnused = false ↔ r.name ≠ unusedName := by
  rw [isUnused, beq_eq_false_iff_ne]

end Register

/-- Registers that a block can hold together. -/
structure Fitting (rs : List Register) : Prop where
  inside : ∀ r ∈ rs, r.address.toNat < blockCapacity
  compatible : rs.Pairwise Register.Compatible

theorem Fitting.perm {rs rs' : List Register} (h : Fitting rs) (hperm : rs.Perm rs') :
    Fitting rs' :=
  ⟨fun r hr => h.inside r (hperm.mem_iff.2 hr),
    (hperm.pairwise_iff Register.Compatible.symm).1 h.compatible⟩

/-- There are as many sub-addresses as a block has room. -/
theorem Fitting.length_le {rs : List Register} (h : Fitting rs) : rs.length ≤ blockCapacity := by
  have hnodup : (rs.map fun r => r.address.toNat).Nodup := by
    rw [List.Nodup, List.pairwise_map]
    exact h.compatible.imp fun hrs heq => hrs.address (UInt8.toNat_inj.1 heq)
  have hsubset : (rs.map fun r => r.address.toNat) ⊆ List.range blockCapacity := by
    intro n hn
    obtain ⟨r, hr, rfl⟩ := List.mem_map.1 hn
    exact List.mem_range.2 (h.inside r hr)
  simpa using (hnodup.subperm hsubset).length_le

namespace Block

variable {b b' : Block} {r : Register}

theorem perm_insertByAddress (r : Register) (rs : List Register) :
    (insertByAddress r rs).Perm (r :: rs) := by
  induction rs with
  | nil => exact .refl _
  | cons s rs ih =>
    unfold insertByAddress
    split
    · exact .refl _
    · exact (ih.cons s).trans (.swap r s rs)

theorem perm_append_insertByAddress (rs : List Register) (r : Register) (old : List Register) :
    (rs ++ insertByAddress r old).Perm (r :: rs ++ old) :=
  ((perm_insertByAddress r old).append_left rs).trans List.perm_middle

/-! ## Blocks -/

/-- What every block keeps to. -/
structure WellFormed (b : Block) : Prop where
  ordered : b.Ordered
  inside : ∀ r ∈ b.registers, r.address.toNat < blockCapacity
  names : b.registers.Pairwise fun r s =>
    r.isUnused = false → s.isUnused = false → r.name ≠ s.name

theorem wellFormed_iff : b.WellFormed ↔ b.Ordered ∧ Fitting b.registers := by
  constructor
  · intro h
    refine ⟨h.ordered, h.inside, (h.ordered.and h.names).imp fun hrs => ⟨?_, hrs.2⟩⟩
    exact UInt8.ne_of_lt hrs.1
  · rintro ⟨hordered, hfitting⟩
    exact ⟨hordered, hfitting.inside, hfitting.compatible.imp fun hrs => hrs.name⟩

theorem WellFormed.fitting (h : b.WellFormed) : Fitting b.registers := (wellFormed_iff.1 h).2

/-- A block takes a register at a free sub-address of its own, under a name that is not there. -/
structure Accepts (b : Block) (r : Register) : Prop where
  inside : r.address.toNat < blockCapacity
  free : ∀ s ∈ b.registers, s.address ≠ r.address
  name : r.name = Register.unusedName ∨ ∀ s ∈ b.registers, s.name ≠ r.name

theorem fitting_cons_iff : Fitting (r :: b.registers) ↔ b.Accepts r ∧ Fitting b.registers := by
  constructor
  · intro h
    obtain ⟨hhead, htail⟩ := List.pairwise_cons.1 h.compatible
    refine ⟨⟨h.inside r (by simp), fun s hs => (hhead s hs).address.symm, ?_⟩,
      ⟨fun s hs => h.inside s (by simp [hs]), htail⟩⟩
    by_cases hname : r.name = Register.unusedName
    · exact .inl hname
    · refine .inr fun s hs heq => ?_
      exact (hhead s hs).name (Register.isUnused_eq_false_iff.2 hname)
        (Register.isUnused_eq_false_iff.2 (heq ▸ hname)) heq.symm
  · rintro ⟨haccepts, hfitting⟩
    refine ⟨fun s hs => ?_, List.pairwise_cons.2 ⟨fun s hs => ?_, hfitting.compatible⟩⟩
    · rcases List.mem_cons.1 hs with rfl | hs
      · exact haccepts.inside
      · exact hfitting.inside s hs
    · refine ⟨(haccepts.free s hs).symm, fun hr _ heq => ?_⟩
      rcases haccepts.name with hname | hname
      · exact Register.isUnused_eq_false_iff.1 hr hname
      · exact hname s hs heq.symm

/-- A block that has a free sub-address has room. -/
theorem refusal?_eq_none_iff (h : b.WellFormed) : b.refusal? r = none ↔ b.Accepts r := by
  have htaken : (b.registers.any (·.address == r.address)) = true ↔
      ∃ s ∈ b.registers, s.address = r.address := by simp
  have hnamed : (!r.isUnused && b.registers.any (·.name == r.name)) = true ↔
      r.name ≠ Register.unusedName ∧ ∃ s ∈ b.registers, s.name = r.name := by
    simp [Register.isUnused]
  unfold refusal?
  constructor
  · intro hnone
    split at hnone
    · cases hnone
    · rename_i hinside
      split at hnone
      · cases hnone
      · split at hnone
        · cases hnone
        · rename_i hfree
          split at hnone
          · cases hnone
          · rename_i hname
            rw [htaken] at hfree
            rw [hnamed] at hname
            refine ⟨Nat.lt_of_not_le hinside, fun s hs heq => hfree ⟨s, hs, heq⟩, ?_⟩
            by_contra hneither
            rw [not_or] at hneither
            refine hneither.2 fun s hs heq => hname ⟨hneither.1, s, hs, heq⟩
  · intro haccepts
    have hroom : ¬ blockCapacity ≤ b.registers.length := by
      have hlength := (fitting_cons_iff.2 ⟨haccepts, h.fitting⟩).length_le
      rw [List.length_cons] at hlength
      omega
    rw [if_neg (Nat.not_le.2 haccepts.inside), if_neg hroom, if_neg, if_neg]
    · rw [hnamed]
      rintro ⟨hne, s, hs, heq⟩
      exact haccepts.name.elim hne fun hnames => hnames s hs heq
    · rw [htaken]
      rintro ⟨s, hs, heq⟩
      exact haccepts.free s hs heq

/-- A block takes a register exactly if it accepts it, and puts it in its place. -/
theorem add_eq_ok_iff (h : b.WellFormed) : b.add r = .ok b' ↔
    b.Accepts r ∧ b' = { b with registers := insertByAddress r b.registers } := by
  rw [← refusal?_eq_none_iff h]
  unfold add
  cases b.refusal? r with
  | some cause => simp
  | none => simp [eq_comm]

theorem WellFormed.add (h : b.WellFormed) (hadd : b.add r = .ok b') : b'.WellFormed := by
  obtain ⟨haccepts, rfl⟩ := (add_eq_ok_iff h).1 hadd
  refine wellFormed_iff.2 ⟨h.ordered.add hadd, ?_⟩
  exact (fitting_cons_iff.2 ⟨haccepts, h.fitting⟩).perm (perm_insertByAddress r _).symm

/-! ## Registers in any order -/

/-- A block takes registers one by one exactly if they go together with those that it has. -/
theorem foldlM_add_iff {rs : List Register} (h : b.WellFormed) :
    (∃ b', rs.foldlM Block.add b = .ok b') ↔ Fitting (rs ++ b.registers) := by
  induction rs generalizing b with
  | nil => exact ⟨fun _ => h.fitting, fun _ => ⟨b, rfl⟩⟩
  | cons r rs ih =>
    have hmove := perm_append_insertByAddress rs r b.registers
    rw [List.foldlM_cons]
    constructor
    · rintro ⟨b', hb'⟩
      cases hadd : b.add r with
      | error e =>
        rw [hadd] at hb'
        cases hb'
      | ok c =>
        rw [hadd] at hb'
        obtain ⟨-, rfl⟩ := (add_eq_ok_iff h).1 hadd
        exact ((ih (h.add hadd)).1 ⟨b', hb'⟩).perm hmove
    · intro hfitting
      have hmine : Fitting (r :: b.registers) :=
        ⟨fun s hs => hfitting.inside s (by simp at hs ⊢; tauto),
          hfitting.compatible.sublist (by simp)⟩
      have hadd := (add_eq_ok_iff h).2 ⟨(fitting_cons_iff.1 hmine).1, rfl⟩
      rw [hadd]
      exact (ih (h.add hadd)).2 (hfitting.perm hmove.symm)

/-- What a block has after it took registers one by one. -/
theorem WellFormed.foldlM_add {rs : List Register} (h : b.WellFormed)
    (hadd : rs.foldlM Block.add b = .ok b') :
    b'.WellFormed ∧ b'.address = b.address ∧ b'.name = b.name ∧
      b'.registers.Perm (rs ++ b.registers) := by
  induction rs generalizing b with
  | nil =>
    cases hadd
    exact ⟨h, rfl, rfl, .refl _⟩
  | cons r rs ih =>
    rw [List.foldlM_cons] at hadd
    cases hr : b.add r with
    | error e =>
      rw [hr] at hadd
      cases hadd
    | ok c =>
      rw [hr] at hadd
      obtain ⟨hwell, haddress, hname, hperm⟩ := ih (h.add hr) hadd
      obtain ⟨-, rfl⟩ := (add_eq_ok_iff h).1 hr
      exact ⟨hwell, haddress, hname, hperm.trans (perm_append_insertByAddress rs r _)⟩

theorem wellFormed_empty (address : UInt8) (name : String) :
    WellFormed { address := address, name := name } :=
  ⟨List.Pairwise.nil, nofun, List.Pairwise.nil⟩

theorem wellFormed_ofRegisters {address : UInt8} {name : String} {rs : List Register}
    (h : ofRegisters address name rs = .ok b) : b.WellFormed :=
  ((wellFormed_empty address name).foldlM_add h).1

/-- The same registers in another order make the same block. -/
theorem ofRegisters_perm {address : UInt8} {name : String} {rs rs' : List Register}
    (h : ofRegisters address name rs = .ok b) (hperm : rs.Perm rs') :
    ofRegisters address name rs' = .ok b := by
  have hempty := wellFormed_empty address name
  obtain ⟨hwell, haddress, hname, hregisters⟩ := hempty.foldlM_add h
  have hfitting := (foldlM_add_iff hempty).1 ⟨b, h⟩
  obtain ⟨b', h'⟩ := (foldlM_add_iff hempty).2 (hfitting.perm (hperm.append_right _))
  obtain ⟨hwell', haddress', hname', hregisters'⟩ := hempty.foldlM_add h'
  have hsame : b'.registers = b.registers := by
    refine List.Perm.eq_of_pairwise (fun r s _ _ hrs hsr => ?_) hwell'.ordered hwell.ordered
      (hregisters'.trans ((hperm.symm.append_right _).trans hregisters.symm))
    exact absurd (UInt8.lt_trans hrs hsr) (UInt8.lt_irrefl _)
  have heq : b' = b := by
    cases b
    cases b'
    simp only [mk.injEq]
    exact ⟨haddress'.trans haddress.symm, hname'.trans hname.symm, hsame⟩
  rw [← heq]
  exact h'

/-! ## Calls -/

/-- A call that changes values or defaults. -/
inductive Edit
  | set (name : String) (value : UInt16)
  | setDefault (name : String) (default : UInt16)
  | reset
  | load (d : Ini.Document)

/-- A call on a block. -/
inductive Call
  | add (r : Register)
  | edit (e : Edit)

/-- The block that a call makes, or the old one if the call is rejected. -/
def orKeep (b : Block) : Except Error Block → Block
  | .ok b' => b'
  | .error _ => b

def edit (b : Block) : Edit → Block
  | .set name value => b.orKeep (b.set name value)
  | .setDefault name default => b.orKeep (b.setDefault name default)
  | .reset => b.reset
  | .load d => (b.load d).1

def call (b : Block) : Call → Block
  | .add r => b.orKeep (b.add r)
  | .edit e => b.edit e

/-- The block after a series of calls, accepted or rejected. -/
def callAll (b : Block) (calls : List Call) : Block := calls.foldl call b

theorem view_orKeep {α : Type} {g : Register → α} {answer : Except Error Block}
    (h : ∀ b', answer = .ok b' → b'.view g = b.view g) : (b.orKeep answer).view g = b.view g := by
  cases answer with
  | ok b' => exact h b' rfl
  | error e => rfl

/-- No edit moves, renames or describes a register anew. -/
theorem view_edit (b : Block) (e : Edit) :
    (b.edit e).view Register.place = b.view Register.place := by
  cases e with
  | set name value => exact view_orKeep fun _ h => view_set Register.ignoresValue_place h
  | setDefault name default =>
    exact view_orKeep fun _ h => view_setDefault Register.ignoresDefault_place h
  | reset => exact view_reset Register.ignoresValue_place b
  | load d => exact view_load Register.ignoresValue_place d b

theorem names_iff (rs : List Register) :
    (rs.Pairwise fun r s => r.isUnused = false → s.isUnused = false → r.name ≠ s.name) ↔
      (rs.map Register.place).Pairwise fun p q =>
        p.2.1 ≠ Register.unusedName → q.2.1 ≠ Register.unusedName → p.2.1 ≠ q.2.1 := by
  rw [List.pairwise_map]
  simp only [Register.isUnused_eq_false_iff, Register.place]

/-- Whether a block is well-formed is a matter of the places of its registers. -/
theorem WellFormed.of_view (h : b.WellFormed)
    (hview : b'.view Register.place = b.view Register.place) : b'.WellFormed := by
  have hmap : b'.registers.map Register.place = b.registers.map Register.place :=
    congrArg (·.2.2) hview
  have haddresses : b'.view Register.address = b.view Register.address := by
    have hfirst := congrArg (List.map Prod.fst) hmap
    rw [List.map_map, List.map_map] at hfirst
    exact Prod.ext (congrArg (·.1) hview) (Prod.ext (congrArg (·.2.1) hview) hfirst)
  refine ⟨ordered_of_view haddresses h.ordered, fun r hr => ?_, ?_⟩
  · have hplace : r.place ∈ b.registers.map Register.place := by
      rw [← hmap]
      exact List.mem_map_of_mem hr
    obtain ⟨s, hs, heq⟩ := List.mem_map.1 hplace
    have haddress : s.address = r.address := congrArg Prod.fst heq
    rw [← haddress]
    exact h.inside s hs
  · rw [names_iff, hmap, ← names_iff]
    exact h.names

theorem WellFormed.call (h : b.WellFormed) (c : Call) : (b.call c).WellFormed := by
  cases c with
  | add r =>
    show (b.orKeep (b.add r)).WellFormed
    cases hadd : b.add r with
    | ok b' => exact h.add hadd
    | error e => exact h
  | edit e => exact h.of_view (view_edit b e)

theorem WellFormed.callAll (h : b.WellFormed) (calls : List Call) :
    (b.callAll calls).WellFormed := by
  induction calls generalizing b with
  | nil => exact h
  | cons c calls ih => exact ih (h.call c)

/-- A call to add a register that the block does not accept changes nothing. -/
theorem call_add_of_not_accepts (h : b.WellFormed) (hnot : ¬ b.Accepts r) :
    b.call (.add r) = b := by
  show b.orKeep (b.add r) = b
  cases hadd : b.add r with
  | ok b' => exact absurd ((add_eq_ok_iff h).1 hadd).1 hnot
  | error e => rfl

/-- A block that is made of registers keeps them in order, apart and within its room, whatever is
called on it; it takes a register exactly if it accepts it, and only that changes which registers
there are.  In which order it was given its registers cannot be seen. -/
theorem ofRegisters_callAll {address : UInt8} {name : String} {rs : List Register}
    (h : ofRegisters address name rs = .ok b) :
    (∀ calls, (b.callAll calls).WellFormed ∧
      (b.callAll calls).registers.length ≤ blockCapacity ∧
      (∀ r, ((∃ b', (b.callAll calls).add r = .ok b') ↔ (b.callAll calls).Accepts r) ∧
        (¬ (b.callAll calls).Accepts r → b.callAll (calls ++ [.add r]) = b.callAll calls)) ∧
      ∀ e, (b.callAll (calls ++ [.edit e])).view Register.place =
        (b.callAll calls).view Register.place) ∧
    ∀ rs', rs.Perm rs' → ofRegisters address name rs' = .ok b := by
  refine ⟨fun calls => ?_, fun rs' hperm => ofRegisters_perm h hperm⟩
  have hwell := (wellFormed_ofRegisters h).callAll calls
  have hlast (c : Call) : b.callAll (calls ++ [c]) = (b.callAll calls).call c := by
    rw [callAll, List.foldl_append]
    rfl
  refine ⟨hwell, hwell.fitting.length_le, fun r => ⟨⟨?_, fun haccepts => ?_⟩, fun hnot => ?_⟩,
    fun e => ?_⟩
  · rintro ⟨b', hadd⟩
    exact ((add_eq_ok_iff hwell).1 hadd).1
  · exact ⟨_, (add_eq_ok_iff hwell).2 ⟨haccepts, rfl⟩⟩
  · rw [hlast]
    exact call_add_of_not_accepts hwell hnot
  · rw [hlast]
    exact view_edit _ e

/-- Two registers and a placeholder make the same block in another order, and a second register at
a sub-address is rejected, also after a change. -/
theorem ofRegisters_callAll_swapped :
    ofRegisters 0x20 "ADC" [.atDefault 1 4 "Skips" "", .unused 1, .atDefault 4 0 "Tap" ""] =
        .ok ⟨0x20, "ADC", [.atDefault 4 0 "Tap" "", .unused 1, .atDefault 1 4 "Skips" ""]⟩ ∧
      ofRegisters 0x20 "ADC" [.unused 1, .atDefault 4 0 "Tap" "", .atDefault 1 4 "Skips" ""] =
        .ok ⟨0x20, "ADC", [.atDefault 4 0 "Tap" "", .unused 1, .atDefault 1 4 "Skips" ""]⟩ ∧
      Block.callAll ⟨0x20, "ADC", [.atDefault 4 0 "Tap" "", .unused 1, .atDefault 1 4 "Skips" ""]⟩
          [.edit (.set "skips" 9), .add (.atDefault 0 4 "Other" "")] =
        ⟨0x20, "ADC", [.atDefault 4 0 "Tap" "", .unused 1, ⟨4, 9, 1, "Skips", ""⟩]⟩ := by
  have hmade : ofRegisters 0x20 "ADC"
      [.atDefault 1 4 "Skips" "", .unused 1, .atDefault 4 0 "Tap" ""] =
        .ok ⟨0x20, "ADC", [.atDefault 4 0 "Tap" "", .unused 1, .atDefault 1 4 "Skips" ""]⟩ := by
    decide
  obtain ⟨hcalls, hperm⟩ := ofRegisters_callAll hmade
  refine ⟨hmade, hperm _ (by decide), ?_⟩
  obtain ⟨-, -, hadd, -⟩ := hcalls [.edit (.set "skips" 9)]
  refine ((hadd (.atDefault 0 4 "Other" "")).2 fun haccepts => ?_).trans (by decide)
  exact haccepts.free ⟨4, 9, 1, "Skips", ""⟩ (by decide) rfl

end Block

end Readout
