import Readout.Proofs.Ini.Sections
import Readout.Proofs.Register.Layout
/-!
# Which registers a document assigns

A name means the first register of a block that answers to it.  Loading a document goes through the
keys of the block's section and assigns, for each, the register that the key means; which one that
is does not depend on what was assigned before.

* `Block.slot?` is the place of the register that a name means, and `Block.Foremost` says of a
  register that it is the one that its own name means;
* `Block.targets` are the places that some keys assign, each with its value: `load_targets` has a
  document loaded as these, and `mem_targets_iff` says which they are.
-/

namespace Readout

open Text Ini

/-! ## Names up to case -/

theorem Register.answersTo_congr {key key' : String} (h : sameName key key' = true) (r : Register) :
    r.answersTo key = r.answersTo key' := by
  rw [answersTo, answersTo, sameName_comm r.name key, sameName_comm r.name key',
    sameName_congr h r.name]

theorem Register.answersTo_name (r : Register) : r.answersTo r.name = !r.isUnused := by
  rw [answersTo, sameName_self, Bool.and_true]

namespace Ini.Document

variable (d : Document) (name : String) {key key' : String}

theorem get?_congr (h : sameName key key' = true) : d.get? name key = d.get? name key' := by
  have hanswers : (fun e : String × String => sameName e.1 key) = fun e => sameName e.1 key' := by
    funext e
    rw [sameName_comm e.1 key, sameName_comm e.1 key', sameName_congr h e.1]
  rw [get?, get?, hanswers]

theorem register?_congr (h : sameName key key' = true) :
    d.register? name key = d.register? name key' := by
  rw [register?, register?, integer?, integer?, d.get?_congr name h]

/-- What is found is found under a key of the section. -/
theorem exists_key_of_register? {value : UInt16} (h : d.register? name key = some value) :
    ∃ key' ∈ d.keys name, sameName key' key = true := by
  have hget : d.get? name key ≠ none := by
    intro hnone
    rw [register?, integer?, hnone] at h
    cases h
  rw [get?_eq, ne_eq, Option.map_eq_none_iff, List.find?_eq_none] at hget
  push Not at hget
  obtain ⟨e, he, hkey⟩ := hget
  refine ⟨e.1, ?_, hkey⟩
  rw [keys_eq]
  exact List.mem_map_of_mem he

end Ini.Document

namespace Block

/-! ## Places -/

/-- The place of the register that a name means. -/
def slot? (b : Block) (key : String) : Option Nat := b.registers.findIdx? (·.answersTo key)

/-- The register at place `i` has a name, and is the first one of that name. -/
structure Foremost (b : Block) (i : Nat) (r : Register) : Prop where
  here : b.registers[i]? = some r
  named : r.isUnused = false
  first : ∀ j < i, ∀ s, b.registers[j]? = some s → s.isUnused = false →
    sameName s.name r.name = false

section Slots

variable {b : Block} {key key' : String} {i : Nat} {r : Register}

theorem slot?_eq_some_iff : b.slot? key = some i ↔
    ∃ r, b.registers[i]? = some r ∧ r.answersTo key = true ∧
      ∀ j < i, ∀ s, b.registers[j]? = some s → s.answersTo key = false := by
  rw [slot?, List.findIdx?_eq_some_iff_getElem]
  constructor
  · rintro ⟨hi, hanswers, hbefore⟩
    refine ⟨b.registers[i], List.getElem?_eq_getElem hi, hanswers, fun j hj s hs => ?_⟩
    obtain ⟨hlt, rfl⟩ := List.getElem?_eq_some_iff.1 hs
    exact Bool.eq_false_iff.2 (hbefore j hj)
  · rintro ⟨r, hr, hanswers, hbefore⟩
    obtain ⟨hi, rfl⟩ := List.getElem?_eq_some_iff.1 hr
    refine ⟨hi, hanswers, fun j hj => ?_⟩
    have hlt : j < b.registers.length := Nat.lt_trans hj hi
    exact Bool.eq_false_iff.1 (hbefore j hj _ (List.getElem?_eq_getElem hlt))

theorem slot?_congr (h : sameName key key' = true) : b.slot? key = b.slot? key' := by
  rw [slot?, slot?, funext (Register.answersTo_congr h)]

/-- Which register a name means depends on the names in the block alone. -/
theorem slot?_of_view {b' : Block} (h : b'.view Register.name = b.view Register.name)
    (key : String) : b'.slot? key = b.slot? key := by
  have hnames : b'.registers.map Register.name = b.registers.map Register.name :=
    congrArg (·.2.2) h
  have hslot (c : Block) : c.slot? key = (c.registers.map Register.name).findIdx?
      fun name => name != Register.unusedName && sameName name key := by
    rw [slot?, List.findIdx?_map]
    rfl
  rw [hslot, hslot, hnames]

theorem Foremost.slot? (h : b.Foremost i r) : b.slot? r.name = some i := by
  refine slot?_eq_some_iff.2 ⟨r, h.here, ?_, fun j hj s hs => ?_⟩
  · rw [r.answersTo_name, h.named]
    rfl
  · cases hnamed : s.isUnused with
    | true => rw [Register.answersTo, hnamed]; rfl
    | false => rw [Register.answersTo, h.first j hj s hs hnamed, Bool.and_false]

/-- A register that a name means is also meant by its own name. -/
theorem foremost_of_slot? (h : b.slot? key = some i) :
    ∃ r, b.Foremost i r ∧ sameName r.name key = true := by
  obtain ⟨r, hr, hanswers, hbefore⟩ := slot?_eq_some_iff.1 h
  obtain ⟨hnamed, hname⟩ := (Bool.and_eq_true _ _ ▸ hanswers :)
  rw [Bool.not_eq_true'] at hnamed
  refine ⟨r, ⟨hr, hnamed, fun j hj s hs hs' => ?_⟩, hname⟩
  have hother := hbefore j hj s hs
  rwa [← Register.answersTo_congr hname, Register.answersTo, hs', Bool.not_false,
    Bool.true_and] at hother

theorem Foremost.unique {s : Register} (hr : b.Foremost i r) (hs : b.Foremost i s) : r = s :=
  Option.some.inj (hr.here.symm.trans hs.here)

theorem find?_eq (b : Block) (key : String) :
    b.find? key = (b.slot? key).bind fun i => b.registers[i]? := by
  rw [find?, slot?]
  induction b.registers with
  | nil => rfl
  | cons r rs ih =>
    rw [List.find?_cons, List.findIdx?_cons, ih]
    cases r.answersTo key with
    | true => rfl
    | false => cases rs.findIdx? (·.answersTo key) <;> rfl

theorem find?_of_slot? (h : b.slot? key = some i) : b.find? key = b.registers[i]? := by
  rw [find?_eq, h, Option.bind_some]

theorem modifyFirst_of_findIdx? {f : Register → Register} {rs : List Register}
    (h : rs.findIdx? (·.answersTo key) = some i) : modifyFirst key f rs = rs.modify i f := by
  induction rs generalizing i with
  | nil => cases h
  | cons r rs ih =>
    rw [List.findIdx?_cons] at h
    rw [modifyFirst]
    cases hanswers : r.answersTo key with
    | true =>
      rw [hanswers] at h
      obtain rfl := Option.some.inj h
      rfl
    | false =>
      rw [hanswers] at h
      obtain ⟨j, hj, rfl⟩ := Option.map_eq_some_iff.1 h
      rw [if_neg Bool.false_ne_true, ih hj]
      rfl

end Slots

/-! ## Loading -/

/-- Assign a value to the register at a place. -/
def put (rs : List Register) (t : Nat × UInt16) : List Register :=
  rs.modify t.1 fun r => { r with value := t.2 }

/-- What a key assigns: the place of the register that it means, and its value. -/
def target? (d : Document) (b : Block) (key : String) : Option (Nat × UInt16) :=
  (b.slot? key).bind fun i => (d.register? b.name key).map fun value => (i, value)

/-- What some keys assign, one after the other. -/
def targets (d : Document) (b : Block) (keys : List String) : List (Nat × UInt16) :=
  keys.filterMap (b.target? d)

theorem target?_eq_some_iff {d : Document} {b : Block} {key : String} {i : Nat} {value : UInt16} :
    b.target? d key = some (i, value) ↔
      b.slot? key = some i ∧ d.register? b.name key = some value := by
  rw [target?]
  cases b.slot? key with
  | none => simp
  | some j => cases d.register? b.name key <;> simp

section Load

variable (d : Document) (b : Block)

theorem loadKey_target (key : String) : b.loadKey d key = match b.target? d key with
    | some t => ({ b with registers := put b.registers t }, true)
    | none => (b, false) := by
  cases hslot : b.slot? key with
  | none => rw [loadKey, find?_eq, target?, hslot]; rfl
  | some i =>
    obtain ⟨r, hr, -⟩ := slot?_eq_some_iff.1 hslot
    rw [loadKey, find?_of_slot? hslot, hr, target?, hslot]
    cases d.register? b.name key with
    | none => rfl
    | some value =>
      dsimp only
      rw [modifyFirst_of_findIdx? hslot]
      rfl

/-- What a key assigns does not depend on what was assigned before. -/
theorem target?_loadKey (key : String) : (b.loadKey d key).1.target? d = b.target? d := by
  have hview := view_loadKey (g := Register.name) (fun _ _ => rfl) d b key
  have hname : (b.loadKey d key).1.name = b.name := congrArg (·.2.1) hview
  funext key'
  rw [target?, target?, slot?_of_view hview, hname]

theorem foldl_loadKey_targets (keys : List String) (n : Nat) :
    keys.foldl (fun (acc : Block × Nat) key =>
        let (b, assigned) := loadKey d acc.1 key
        (b, if assigned then acc.2 + 1 else acc.2)) (b, n) =
      ({ b with registers := (b.targets d keys).foldl put b.registers },
        n + (b.targets d keys).length) := by
  induction keys generalizing b n with
  | nil => rfl
  | cons key keys ih =>
    have hsame := target?_loadKey d b key
    have hstep := loadKey_target d b key
    rw [List.foldl_cons, targets, List.filterMap_cons]
    cases htarget : b.target? d key with
    | none =>
      rw [htarget] at hstep
      simp only [hstep]
      exact ih b n
    | some t =>
      rw [htarget] at hstep
      rw [hstep] at hsame
      simp only [hstep, if_true]
      rw [ih, targets, hsame, List.foldl_cons, List.length_cons, Nat.add_right_comm, Nat.add_assoc]

/-- A document is loaded by assigning the targets of its keys. -/
theorem load_targets : b.load d =
    ({ b with registers := (b.targets d (d.keys b.name)).foldl put b.registers },
      (b.targets d (d.keys b.name)).length) := by
  rw [load, foldl_loadKey_targets, Nat.zero_add]

end Load

section Put

variable {ts : List (Nat × UInt16)} {i : Nat}

theorem getElem?_put (rs : List Register) (t : Nat × UInt16) (i : Nat) :
    (put rs t)[i]? = if t.1 = i then rs[i]?.map fun r => { r with value := t.2 } else rs[i]? := by
  rw [put, List.getElem?_modify]
  split
  · rfl
  · exact Option.map_id'

theorem getElem?_foldl_put_of_forall (h : ∀ t ∈ ts, t.1 ≠ i) (rs : List Register) :
    (ts.foldl put rs)[i]? = rs[i]? := by
  induction ts generalizing rs with
  | nil => rfl
  | cons t ts ih =>
    rw [List.foldl_cons, ih fun t' ht' => h t' (List.mem_cons_of_mem t ht'), getElem?_put,
      if_neg (h t List.mem_cons_self)]

/-- A register whose place is a target, of one value only, has that value afterwards. -/
theorem getElem?_foldl_put {value : UInt16} (hmem : (i, value) ∈ ts)
    (h : ∀ value', (i, value') ∈ ts → value' = value) (rs : List Register) :
    (ts.foldl put rs)[i]? = rs[i]?.map fun r => { r with value } := by
  induction ts generalizing rs with
  | nil => cases hmem
  | cons t ts ih =>
    have hrest : ∀ value', (i, value') ∈ ts → value' = value :=
      fun value' hvalue' => h value' (List.mem_cons_of_mem t hvalue')
    rw [List.foldl_cons]
    by_cases hlater : ∃ value', (i, value') ∈ ts
    · obtain ⟨value', hvalue'⟩ := hlater
      rw [ih (hrest value' hvalue' ▸ hvalue') hrest, getElem?_put]
      split
      · rw [Option.map_map]
        rfl
      · rfl
    · have hnone : ∀ t ∈ ts, t.1 ≠ i := by
        rintro ⟨j, value'⟩ ht rfl
        exact hlater ⟨value', ht⟩
      rcases List.mem_cons.1 hmem with rfl | hmem
      · rw [getElem?_foldl_put_of_forall hnone, getElem?_put, if_pos rfl]
      · exact absurd ⟨value, hmem⟩ hlater

end Put

section Loaded

variable {d : Document} {b : Block} {i : Nat} {r : Register} {value : UInt16}

/-- A document assigns the foremost registers of their names, if it has values for these. -/
theorem mem_targets_iff : (i, value) ∈ b.targets d (d.keys b.name) ↔
    ∃ r, b.Foremost i r ∧ d.register? b.name r.name = some value := by
  rw [targets, List.mem_filterMap]
  constructor
  · rintro ⟨key, -, htarget⟩
    obtain ⟨hslot, hvalue⟩ := target?_eq_some_iff.1 htarget
    obtain ⟨r, hr, hname⟩ := foremost_of_slot? hslot
    exact ⟨r, hr, (d.register?_congr b.name hname).trans hvalue⟩
  · rintro ⟨r, hr, hvalue⟩
    obtain ⟨key, hkey, hname⟩ := d.exists_key_of_register? b.name hvalue
    refine ⟨key, hkey, target?_eq_some_iff.2 ⟨?_, ?_⟩⟩
    · rw [slot?_congr hname, hr.slot?]
    · rw [d.register?_congr b.name hname, hvalue]

theorem getElem?_load (hr : b.Foremost i r) (hvalue : d.register? b.name r.name = some value) :
    (b.load d).1.registers[i]? = some { r with value } := by
  rw [load_targets]
  refine (getElem?_foldl_put (mem_targets_iff.2 ⟨r, hr, hvalue⟩) ?_ _).trans ?_
  · intro value' hmem
    obtain ⟨s, hs, hvalue'⟩ := mem_targets_iff.1 hmem
    rw [← hr.unique hs, hvalue] at hvalue'
    exact (Option.some.inj hvalue').symm
  · rw [hr.here, Option.map_some]

theorem getElem?_load_of_forall
    (h : ∀ r value, b.Foremost i r → d.register? b.name r.name ≠ some value) :
    (b.load d).1.registers[i]? = b.registers[i]? := by
  rw [load_targets]
  refine getElem?_foldl_put_of_forall ?_ _
  rintro ⟨j, value⟩ hmem rfl
  obtain ⟨r, hr, hvalue⟩ := mem_targets_iff.1 hmem
  exact h r value hr hvalue

end Loaded

end Block

end Readout
