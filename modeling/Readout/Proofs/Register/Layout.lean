import Mathlib.Data.List.Pairwise
import Readout.Register.Settings
/-!
# What changes of registers keep

Setting, resetting and loading change values, and `setDefault` changes defaults.  Which registers
there are, and where, is settled when a block is made: a block takes registers at places of their
own only, and keeps them in order.

* `Block.view`, `RegisterMap.view` are what can be seen of a map through a property of registers;
* `view_set`, `view_load` and the like: a change keeps every property that does not look at what the
  change is about;
* `RegisterMap.view_changeAll`: a series of changes keeps the places of the registers;
* `Block.ordered_ofRegisters`: a block that is made of registers has them in order.
-/

namespace Readout

/-! ## Properties of registers -/

/-- A property of registers that does not look at their values. -/
def Register.IgnoresValue {α : Type} (g : Register → α) : Prop :=
  ∀ (r : Register) (value : UInt16), g { r with value } = g r

/-- A property of registers that does not look at their defaults. -/
def Register.IgnoresDefault {α : Type} (g : Register → α) : Prop :=
  ∀ (r : Register) (default : UInt16), g { r with default } = g r

variable {α : Type} {g : Register → α}

theorem Register.ignoresValue_address : IgnoresValue Register.address := fun _ _ => rfl

theorem Register.ignoresDefault_address : IgnoresDefault Register.address := fun _ _ => rfl

theorem Register.ignoresValue_reset : IgnoresValue Register.reset := fun _ _ => rfl

/-! ## Blocks -/

namespace Block

/-- A block with a property of its registers in place of the registers. -/
def view (g : Register → α) (b : Block) : UInt8 × String × List α :=
  (b.address, b.name, b.registers.map g)

theorem map_modifyFirst {f : Register → Register} (h : ∀ r, g (f r) = g r) (name : String)
    (rs : List Register) : (modifyFirst name f rs).map g = rs.map g := by
  induction rs with
  | nil => rfl
  | cons r rs ih =>
    unfold modifyFirst
    split
    · simp only [List.map_cons, h]
    · simp only [List.map_cons, ih]

theorem view_modify {b b' : Block} {name : String} {f : Register → Register}
    (h : ∀ r, g (f r) = g r) (hb : b.modify name f = .ok b') : b'.view g = b.view g := by
  unfold modify at hb
  cases hlookup : b.lookup name with
  | error e =>
    rw [hlookup] at hb
    cases hb
  | ok r =>
    rw [hlookup] at hb
    cases hb
    simp only [view, map_modifyFirst h]

theorem view_set (hg : Register.IgnoresValue g) {b b' : Block} {name : String} {value : UInt16}
    (hb : b.set name value = .ok b') : b'.view g = b.view g :=
  view_modify (fun r => hg r value) hb

theorem view_setDefault (hg : Register.IgnoresDefault g) {b b' : Block} {name : String}
    {default : UInt16} (hb : b.setDefault name default = .ok b') : b'.view g = b.view g :=
  view_modify (fun r => hg r default) hb

theorem view_reset (hg : Register.IgnoresValue g) (b : Block) : b.reset.view g = b.view g := by
  have hmap : (b.registers.map Register.reset).map g = b.registers.map g := by
    rw [List.map_map]
    exact List.map_congr_left fun r _ => hg r r.default
  simp only [view, reset, hmap]

theorem view_loadKey (hg : Register.IgnoresValue g) (d : Ini.Document) (b : Block) (key : String) :
    (loadKey d b key).1.view g = b.view g := by
  unfold loadKey
  split
  · rename_i value _ _
    simp only [view, map_modifyFirst fun r => hg r value]
  · rfl

theorem view_load (hg : Register.IgnoresValue g) (d : Ini.Document) (b : Block) :
    (b.load d).1.view g = b.view g := by
  -- The keys are assigned one by one, to a block that has changed meanwhile.
  unfold load
  refine List.foldlRecOn (motive := fun acc : Block × Nat => acc.1.view g = b.view g) _ _ rfl ?_
  intro acc hacc key _
  exact (view_loadKey hg d acc.1 key).trans hacc

/-! ## Order -/

/-- The registers of a block have increasing sub-addresses. -/
def Ordered (b : Block) : Prop := b.registers.Pairwise fun r s => r.address < s.address

theorem mem_insertByAddress {r x : Register} {rs : List Register} :
    x ∈ insertByAddress r rs ↔ x = r ∨ x ∈ rs := by
  induction rs with
  | nil => simp [insertByAddress]
  | cons s rs ih =>
    unfold insertByAddress
    split
    · simp
    · simp only [List.mem_cons, ih]
      exact or_left_comm

theorem pairwise_insertByAddress {r : Register} {rs : List Register}
    (h : rs.Pairwise fun x y => x.address < y.address) (hnew : ∀ x ∈ rs, x.address ≠ r.address) :
    (insertByAddress r rs).Pairwise fun x y => x.address < y.address := by
  induction rs with
  | nil => exact List.pairwise_singleton _ _
  | cons s rs ih =>
    have hpairs := List.pairwise_cons.1 h
    unfold insertByAddress
    split
    · rename_i hlt
      refine List.pairwise_cons.2 ⟨fun x hx => ?_, h⟩
      rcases List.mem_cons.1 hx with rfl | hmem
      · exact hlt
      · exact UInt8.lt_trans hlt (hpairs.1 x hmem)
    · rename_i hle
      refine List.pairwise_cons.2 ⟨fun x hx => ?_, ih hpairs.2 fun x hx => hnew x (by simp [hx])⟩
      rcases mem_insertByAddress.1 hx with rfl | hmem
      · exact UInt8.lt_of_le_of_ne (UInt8.not_lt.1 hle) (hnew s (by simp))
      · exact hpairs.1 x hmem

/-- A block takes a register only at a sub-address that is free. -/
theorem address_ne_of_add {b b' : Block} {r : Register} (h : b.add r = .ok b') :
    b'.registers = insertByAddress r b.registers ∧ ∀ x ∈ b.registers, x.address ≠ r.address := by
  unfold add at h
  cases hrefusal : b.refusal? r with
  | some cause =>
    rw [hrefusal] at h
    cases h
  | none =>
    rw [hrefusal] at h
    cases h
    refine ⟨rfl, fun x hx heq => ?_⟩
    have htaken : b.registers.any (·.address == r.address) = true :=
      List.any_eq_true.2 ⟨x, hx, beq_iff_eq.2 heq⟩
    unfold refusal? at hrefusal
    simp only [htaken, if_true] at hrefusal
    split at hrefusal
    · cases hrefusal
    · split at hrefusal <;> cases hrefusal

theorem Ordered.add {b b' : Block} {r : Register} (hb : b.Ordered) (h : b.add r = .ok b') :
    b'.Ordered := by
  obtain ⟨hregisters, hnew⟩ := address_ne_of_add h
  unfold Ordered
  rw [hregisters]
  exact pairwise_insertByAddress hb hnew

theorem Ordered.foldlM_add {rs : List Register} {b b' : Block} (hb : b.Ordered)
    (h : rs.foldlM Block.add b = .ok b') : b'.Ordered := by
  induction rs generalizing b with
  | nil =>
    cases h
    exact hb
  | cons r rs ih =>
    rw [List.foldlM_cons] at h
    cases hr : b.add r with
    | error e =>
      rw [hr] at h
      cases h
    | ok c =>
      rw [hr] at h
      exact ih (hb.add hr) h

/-- A block that is made of registers has them in order. -/
theorem ordered_ofRegisters {address : UInt8} {name : String} {rs : List Register} {b : Block}
    (h : ofRegisters address name rs = .ok b) : b.Ordered :=
  Ordered.foldlM_add (b := { address, name }) List.Pairwise.nil h

/-- Order is a matter of sub-addresses alone. -/
theorem ordered_of_view {b b' : Block}
    (h : b'.view Register.address = b.view Register.address) (hb : b.Ordered) : b'.Ordered := by
  have hmap : b'.registers.map Register.address = b.registers.map Register.address :=
    congrArg (·.2.2) h
  have hsorted : (b.registers.map Register.address).Pairwise (· < ·) := List.pairwise_map.2 hb
  rw [← hmap] at hsorted
  exact List.pairwise_map.1 hsorted

end Block

/-! ## Maps -/

namespace RegisterMap

def view (g : Register → α) (m : RegisterMap) : List (UInt8 × String × List α) :=
  m.blocks.map (·.view g)

theorem map_replaceFirst {β : Type} (v : Block → β) {name : String} {b b' : Block}
    {bs : List Block} (hfind : bs.find? (·.name == name) = some b) (hv : v b' = v b) :
    (replaceFirst name b' bs).map v = bs.map v := by
  induction bs with
  | nil => cases hfind
  | cons c bs ih =>
    cases hc : c.name == name with
    | true =>
      simp only [List.find?_cons, hc, Option.some.injEq] at hfind
      subst hfind
      simp only [replaceFirst, hc, if_true, List.map_cons, hv]
    | false =>
      simp only [List.find?_cons, hc] at hfind
      simp only [replaceFirst, hc, Bool.false_eq_true, if_false, List.map_cons, ih hfind]

theorem view_modifyBlock {m m' : RegisterMap} {name : String} {f : Block → Except Error Block}
    (hf : ∀ b b', f b = .ok b' → b'.view g = b.view g) (h : m.modifyBlock name f = .ok m') :
    m'.view g = m.view g := by
  unfold modifyBlock block at h
  cases hfind : m.blocks.find? (·.name == name) with
  | none =>
    rw [hfind] at h
    cases h
  | some b =>
    rw [hfind] at h
    cases hb : f b with
    | error e =>
      simp only [bind, Except.bind, hb] at h
      cases h
    | ok b' =>
      simp only [bind, Except.bind, hb] at h
      cases h
      exact map_replaceFirst (Block.view g) hfind (hf b b' hb)

theorem view_set (hg : Register.IgnoresValue g) {m m' : RegisterMap} {block name : String}
    {value : UInt16} (h : m.set block name value = .ok m') : m'.view g = m.view g :=
  view_modifyBlock (fun _ _ hb => Block.view_set hg hb) h

theorem view_setDefault (hg : Register.IgnoresDefault g) {m m' : RegisterMap}
    {block name : String} {default : UInt16} (h : m.setDefault block name default = .ok m') :
    m'.view g = m.view g :=
  view_modifyBlock (fun _ _ hb => Block.view_setDefault hg hb) h

theorem view_reset (hg : Register.IgnoresValue g) (m : RegisterMap) :
    m.reset.view g = m.view g := by
  unfold view reset
  rw [List.map_map]
  exact List.map_congr_left fun b _ => Block.view_reset hg b

theorem view_load (hg : Register.IgnoresValue g) (d : Ini.Document) (m : RegisterMap) :
    (m.load d).view g = m.view g := by
  unfold view load
  rw [List.map_map]
  exact List.map_congr_left fun b _ => Block.view_load hg d b

/-! ## Series of changes -/

/-- A call that changes a register map. -/
inductive Change
  | set (block name : String) (value : UInt16)
  | setDefault (block name : String) (default : UInt16)
  | reset
  | load (d : Ini.Document)

/-- The map that a call makes, or the old one if the call is rejected. -/
def orKeep (m : RegisterMap) : Except Error RegisterMap → RegisterMap
  | .ok m' => m'
  | .error _ => m

def change (m : RegisterMap) : Change → RegisterMap
  | .set block name value => m.orKeep (m.set block name value)
  | .setDefault block name default => m.orKeep (m.setDefault block name default)
  | .reset => m.reset
  | .load d => m.load d

/-- The map after a series of calls, accepted or rejected. -/
def changeAll (m : RegisterMap) (changes : List Change) : RegisterMap := changes.foldl change m

theorem view_orKeep {m : RegisterMap} {r : Except Error RegisterMap}
    (h : ∀ m', r = .ok m' → m'.view g = m.view g) : (m.orKeep r).view g = m.view g := by
  cases r with
  | ok m' => exact h m' rfl
  | error e => rfl

theorem view_change (hvalue : Register.IgnoresValue g) (hdefault : Register.IgnoresDefault g)
    (m : RegisterMap) (c : Change) : (m.change c).view g = m.view g := by
  cases c with
  | set block name value => exact view_orKeep fun _ h => view_set hvalue h
  | setDefault block name default => exact view_orKeep fun _ h => view_setDefault hdefault h
  | reset => exact view_reset hvalue m
  | load d => exact view_load hvalue d m

/-- No series of changes moves a register. -/
theorem view_changeAll (m : RegisterMap) (changes : List Change) :
    (m.changeAll changes).view Register.address = m.view Register.address := by
  induction changes generalizing m with
  | nil => rfl
  | cons c changes ih =>
    exact (ih (m.change c)).trans
      (view_change Register.ignoresValue_address Register.ignoresDefault_address m c)

end RegisterMap

end Readout
