import Mathlib.Data.List.Pairwise
import Readout.Proofs.Register.Written
/-!
# Reading a register file back

The file that a register map writes gives every named register its value again, whatever the values
are of the map that it is loaded into.

* `Block.load_eq`: what loading does to one block, register by register;
* `RegisterMap.writable_standard`: the file of the default tables can be read back;
* `RegisterMap.load_settings`: a file of all registers restores a map of the same shape, and a file
  of the changed registers restores a map at its defaults.
-/

namespace Readout

open Text Ini

/-! ## Looking up among different names -/

/-- Among things with different names, each is found under its own name. -/
theorem find?_sameName {α : Type} {name : α → String} {xs : List α}
    (h : xs.Pairwise fun x y => sameName (name x) (name y) = false) {x : α} (hx : x ∈ xs) :
    xs.find? (fun y => sameName (name y) (name x)) = some x := by
  induction xs with
  | nil => cases hx
  | cons y ys ih =>
    have hpairs := List.pairwise_cons.1 h
    rcases List.mem_cons.1 hx with rfl | hmem
    · exact List.find?_cons_of_pos (sameName_self _)
    · have hother := hpairs.1 x hmem
      rw [List.find?_cons_of_neg (by simp [hother])]
      exact ih hpairs.2 hmem

namespace Register

/-- Apart from its value, a register is given by what it is reset to. -/
theorem fields_of_reset {r s : Register} (h : r.reset = s.reset) :
    r.address = s.address ∧ r.default = s.default ∧ r.name = s.name ∧
      r.description = s.description := by
  cases r
  cases s
  simp only [reset, mk.injEq] at h ⊢
  exact ⟨h.1, h.2.2.1, h.2.2.2.1, h.2.2.2.2⟩

theorem isUnused_of_reset {r s : Register} (h : r.reset = s.reset) : r.isUnused = s.isUnused := by
  rw [isUnused, isUnused, (fields_of_reset h).2.2.1]

/-- Registers that agree apart from their values agree altogether if the values do. -/
theorem eq_of_reset {r s : Register} (h : r.reset = s.reset) (hvalue : r.value = s.value) :
    r = s := by
  cases r
  cases s
  simp only [reset, mk.injEq] at h
  simp only at hvalue
  simp only [mk.injEq]
  exact ⟨h.1, hvalue, h.2.2⟩

/-- Two registers that no name can mean both of. -/
def Apart (r s : Register) : Prop :=
  r.isUnused = false → s.isUnused = false → sameName r.name s.name = false

/-- A name that one register answers to is not answered by a register apart from it. -/
theorem Apart.answersTo {r s : Register} (h : Apart r s) {key : String}
    (hr : r.answersTo key = true) : s.answersTo key = false := by
  rw [Bool.eq_false_iff]
  intro hs
  simp only [Register.answersTo, Bool.and_eq_true, Bool.not_eq_true', sameName, beq_iff_eq] at hr hs
  have hne := h hr.1 hs.1
  rw [sameName, hr.2, hs.2, beq_self_eq_true] at hne
  cases hne

instance : Std.Symm Apart where
  symm r s h hs hr := by
    rw [sameName_comm]
    exact h hr hs

/-- Being apart does not depend on values. -/
theorem Apart.of_reset {r s r' s' : Register} (h : Apart r s) (hr : r'.reset = r.reset)
    (hs : s'.reset = s.reset) : Apart r' s' := by
  intro hr' hs'
  rw [isUnused_of_reset hr] at hr'
  rw [isUnused_of_reset hs] at hs'
  rw [(fields_of_reset hr).2.2.1, (fields_of_reset hs).2.2.1]
  exact h hr' hs'

/-- A register gets the value of another one if it answers to its name. -/
def accept (r s : Register) : Register :=
  if r.answersTo s.name then { r with value := s.value } else r

theorem reset_accept (r s : Register) : (r.accept s).reset = r.reset := by
  unfold accept
  split <;> rfl

/-! ## Taking values one by one -/

/-- A register after it was offered the values of others, one by one. -/
def acceptAll (r : Register) (ss : List Register) : Register := ss.foldl accept r

theorem reset_acceptAll (r : Register) (ss : List Register) :
    (r.acceptAll ss).reset = r.reset := by
  induction ss generalizing r with
  | nil => rfl
  | cons s ss ih =>
    have hrest := ih (r.accept s)
    rw [reset_accept] at hrest
    exact hrest

/-- A register keeps its value if none of the others has its name. -/
theorem acceptAll_of_forall {r : Register} {ss : List Register}
    (h : ∀ s ∈ ss, r.answersTo s.name = false) : r.acceptAll ss = r := by
  induction ss with
  | nil => rfl
  | cons s ss ih =>
    have hs : r.accept s = r := by simp [accept, h s (by simp)]
    have hrest := ih fun t ht => h t (by simp [ht])
    rw [acceptAll, List.foldl_cons, hs]
    exact hrest

/-- A register gets the value of the one register that has its name. -/
theorem acceptAll_of_mem {r s : Register} {ss : List Register}
    (h : ss.Pairwise fun s t => sameName s.name t.name = false) (hs : s ∈ ss)
    (hname : r.name = s.name) (hr : r.isUnused = false) :
    r.acceptAll ss = { r with value := s.value } := by
  have hself : r.answersTo s.name = true := by
    simp [answersTo, hr, hname, sameName_self]
  induction ss with
  | nil => cases hs
  | cons t ss ih =>
    have hpairs := List.pairwise_cons.1 h
    rcases List.mem_cons.1 hs with rfl | hmem
    · have haccept : r.accept s = { r with value := s.value } := by simp [accept, hself]
      have hrest : ∀ t ∈ ss, ({ r with value := s.value } : Register).answersTo t.name = false := by
        intro t ht
        have hne := hpairs.1 t ht
        rw [← hname] at hne
        simp [answersTo, hne]
      rw [acceptAll, List.foldl_cons, haccept]
      exact acceptAll_of_forall hrest
    · have hother : r.answersTo t.name = false := by
        have hne := hpairs.1 s hmem
        rw [sameName_comm, ← hname] at hne
        simp [answersTo, hne]
      have haccept : r.accept t = r := by simp [accept, hother]
      rw [acceptAll, List.foldl_cons, haccept]
      exact ih hpairs.2 hmem

end Register

/-! ## Loading a block -/

namespace Block

/-- The first register that answers to a name is the only one. -/
theorem modifyFirst_eq_map {key : String} (f : Register → Register) {rs : List Register}
    (h : rs.Pairwise Register.Apart) :
    modifyFirst key f rs = rs.map fun r => if r.answersTo key then f r else r := by
  induction rs with
  | nil => rfl
  | cons r rs ih =>
    have hpairs := List.pairwise_cons.1 h
    by_cases hr : r.answersTo key = true
    · have hrest : (rs.map fun s => if s.answersTo key then f s else s) = rs := by
        refine (List.map_congr_left fun s hs => ?_).trans (List.map_id rs)
        simp [(hpairs.1 s hs).answersTo hr]
      simp [modifyFirst, hr, hrest]
    · simp [modifyFirst, hr, ih hpairs.2]

/-- A key with a value is taken by the register that answers to it, if there is one. -/
theorem loadKey_eq {d : Document} {b : Block} {r : Register}
    (h : b.registers.Pairwise Register.Apart) (hvalue : d.register? b.name r.name = some r.value) :
    (b.loadKey d r.name).1 = { b with registers := b.registers.map (·.accept r) } := by
  cases hfind : b.find? r.name with
  | some s =>
    have hload : (b.loadKey d r.name).1 =
        { b with
          registers := modifyFirst r.name (fun x => { x with value := r.value }) b.registers } := by
      rw [loadKey, hfind, hvalue]
    rw [hload, modifyFirst_eq_map _ h]
    rfl
  | none =>
    have hnone := List.find?_eq_none.1 hfind
    have hsame : b.registers.map (·.accept r) = b.registers := by
      refine (List.map_congr_left fun s hs => ?_).trans (List.map_id _)
      simp [Register.accept, hnone s hs]
    rw [loadKey, hfind, hsame]

/-- The keys of the section are taken one after the other. -/
theorem foldl_loadKey {d : Document} {ss : List Register} {b : Block} (n : Nat)
    (h : b.registers.Pairwise Register.Apart)
    (hvalues : ∀ s ∈ ss, d.register? b.name s.name = some s.value) :
    ((ss.map Register.name).foldl (fun (acc : Block × Nat) key =>
        let (b, assigned) := loadKey d acc.1 key
        (b, if assigned then acc.2 + 1 else acc.2)) (b, n)).1 =
      { b with registers := b.registers.map (·.acceptAll ss) } := by
  induction ss generalizing b n with
  | nil =>
    have hsame : b.registers.map (·.acceptAll []) = b.registers := List.map_id _
    rw [hsame]
    rfl
  | cons s ss ih =>
    have hstep := loadKey_eq h (hvalues s (by simp))
    have hrest : ({ b with registers := b.registers.map (·.accept s) } : Block).registers.Pairwise
        Register.Apart := by
      refine List.pairwise_map.2 (h.imp fun {x y} hxy => ?_)
      exact hxy.of_reset (Register.reset_accept x s) (Register.reset_accept y s)
    rw [List.map_cons, List.foldl_cons]
    simp only [hstep]
    rw [ih _ hrest fun t ht => hvalues t (by simp [ht])]
    simp [Register.acceptAll, Function.comp_def]

/-- Loading offers the registers of the section to every register of the block. -/
theorem load_eq {d : Document} {ss : List Register} {b : Block}
    (h : b.registers.Pairwise Register.Apart) (hkeys : d.keys b.name = ss.map Register.name)
    (hvalues : ∀ s ∈ ss, d.register? b.name s.name = some s.value) :
    (b.load d).1 = { b with registers := b.registers.map (·.acceptAll ss) } := by
  rw [load, hkeys]
  exact foldl_loadKey 0 h hvalues

end Block

/-! ## The document of a file -/

/-- The document of a register file. -/
def RegisterMap.document (m : RegisterMap) (all : Bool) : Document :=
  { sections := m.blocks.map fun b => b.section all }

section Document

variable {m : RegisterMap} (h : m.Writable) (all : Bool) {b : Block} (hb : b ∈ m.blocks)
include h hb

theorem section?_document : (m.document all).section? b.name = some (b.section all) := by
  have hfind := find?_sameName h.blocks hb
  rw [RegisterMap.document, Document.section?, List.find?_map]
  simp only [Function.comp_def, Block.section, hfind, Option.map_some]

theorem keys_document :
    (m.document all).keys b.name = (b.registers.filter (·.isSent all)).map Register.name := by
  rw [Document.keys, section?_document h all hb]
  simp [Block.section, Register.setting]

theorem pairwise_isSent : (b.registers.filter (·.isSent all)).Pairwise
    fun r s => sameName r.name s.name = false :=
  (h.registers b hb).sublist (b.isSent_sublist_named all)

/-- The document gives a register its value. -/
theorem register?_document {r : Register} (hr : r ∈ b.registers.filter (·.isSent all)) :
    (m.document all).register? b.name r.name = some r.value := by
  have hfind := find?_sameName (pairwise_isSent h all hb) hr
  have hget : (m.document all).get? b.name r.name = some (hex 1 r.value.toNat) := by
    rw [Document.get?, section?_document h all hb, Option.bind_some, Block.section, List.find?_map]
    simp only [Function.comp_def, Register.setting, hfind, Option.map_some]
  have hbound := r.value.toNat_lt
  have hint : (m.document all).integer? b.name r.name = some (r.value.toNat : Int) := by
    rw [Document.integer?, hget, Option.bind_some]
    exact parse_hex (by omega)
  rw [Document.register?, hint]
  simp [hbound]

/-- The registers of a block are told apart by their names. -/
theorem pairwise_apart : b.registers.Pairwise Register.Apart := by
  refine (List.pairwise_filter.1 (h.registers b hb)).imp fun {r s} hrs hr hs => ?_
  exact hrs (by simp [hr]) (by simp [hs])

end Document

/-! ## Restoring -/

/-- Images of lists agree if they do so on what has the same shape. -/
theorem map_eq_map {α β γ : Type} {shape : α → β} {f g : α → γ} {xs ys : List α}
    (h : xs.map shape = ys.map shape)
    (heq : ∀ x ∈ xs, ∀ y ∈ ys, shape x = shape y → f x = g y) : xs.map f = ys.map g := by
  induction xs generalizing ys with
  | nil =>
    have hnil : ys = [] := List.map_eq_nil_iff.1 h.symm
    rw [hnil]
    rfl
  | cons x xs ih =>
    obtain ⟨y, ys, rfl, hy, hys⟩ := List.map_eq_cons_iff.1 h.symm
    have hrest := ih hys.symm fun x' hx' y' hy' => heq x' (by simp [hx']) y' (by simp [hy'])
    have hfirst := heq x (by simp) y (by simp) hy.symm
    rw [List.map_cons, List.map_cons, hfirst, hrest]

/-- The named registers of two blocks agree if the registers agree in all but their values, and the
named ones in these as well. -/
theorem filter_named_eq {f : Register → Register} (hf : ∀ x, (f x).reset = x.reset)
    {xs ys : List Register} (h : xs.map Register.reset = ys.map Register.reset)
    (heq : ∀ x ∈ xs, ∀ y ∈ ys, x.reset = y.reset → y.isUnused = false → f x = y) :
    (xs.map f).filter (fun r => !r.isUnused) = ys.filter fun r => !r.isUnused := by
  have hguard : ∀ zs : List Register, zs.filter (fun r => !r.isUnused) =
      (zs.map (Option.guard fun r => !r.isUnused)).filterMap id := by
    intro zs
    rw [List.filterMap_map, Function.id_comp, List.filterMap_eq_filter]
  rw [hguard, hguard, List.map_map]
  refine congrArg _ (map_eq_map h fun x hx y hy hshape => ?_)
  have hunused : (f x).isUnused = y.isUnused := by
    refine Register.isUnused_of_reset ?_
    rw [hf, hshape]
  cases hname : y.isUnused with
  | true => simp [Option.guard, hunused, hname]
  | false => simp [heq x hx y hy hshape hname]

namespace Block

/-- Apart from the values of its registers, a block is given by what it is reset to. -/
theorem fields_of_reset {b c : Block} (h : b.reset = c.reset) :
    b.address = c.address ∧ b.name = c.name ∧
      b.registers.map Register.reset = c.registers.map Register.reset := by
  cases b
  cases c
  simpa [reset] using h

theorem reset_reset (b : Block) : b.reset.reset = b.reset := by
  simp [reset, Function.comp_def, Register.reset]

/-- What a block sends is up to its named registers. -/
theorem words_eq (b : Block) (all : Bool) :
    b.words all = (b.named.filter fun r => all || r.value != r.default).map fun r =>
      Word.register b.address r.address r.value := by
  rw [words, named, List.filter_filter]
  simp only [Register.isSent, Bool.and_comm]

end Block

section Restoring

variable {m : RegisterMap} (h : m.Writable) (all : Bool) {b : Block} (hb : b ∈ m.blocks)
include h hb

/-- A named register gets its value back, if the file has it or it stands at its default. -/
theorem acceptAll_isSent {x y : Register} (hy : y ∈ b.registers) (hshape : x.reset = y.reset)
    (hname : y.isUnused = false) (hdefault : all = true ∨ x.value = x.default) :
    x.acceptAll (b.registers.filter (·.isSent all)) = y := by
  have hfields := Register.fields_of_reset hshape
  have hpairs := pairwise_isSent h all hb
  by_cases hsent : y.isSent all = true
  · have hmem : y ∈ b.registers.filter (·.isSent all) := List.mem_filter.2 ⟨hy, hsent⟩
    have hunused : x.isUnused = false := by rw [Register.isUnused_of_reset hshape, hname]
    rw [Register.acceptAll_of_mem hpairs hmem hfields.2.2.1 hunused]
    exact Register.eq_of_reset hshape rfl
  · -- the file does not speak of it, so both stand at the default
    simp only [Register.isSent, hname, Bool.not_false, Bool.true_and, Bool.or_eq_true,
      bne_iff_ne, ne_eq, not_or, Decidable.not_not] at hsent
    have hvalue : x.value = y.value := by
      rw [hdefault.resolve_left hsent.1, hfields.2.1, hsent.2]
    have hxy : x = y := Register.eq_of_reset hshape hvalue
    have hothers : ∀ s ∈ b.registers.filter (·.isSent all), x.answersTo s.name = false := by
      intro s hs
      have hmem := List.mem_filter.1 hs
      have hne : y ≠ s := by
        rintro rfl
        simp [Register.isSent, hsent, hname] at hmem
      have hapart := (pairwise_apart h hb).forall hy hmem.1 hne
      have hsname : s.isUnused = false := by
        simpa using (List.mem_filter.1 (Block.mem_named_of_isSent hs)).2
      simp [Register.answersTo, hxy, hapart hname hsname]
    rw [Register.acceptAll_of_forall hothers, hxy]

/-- A block of the same shape gets its named registers back. -/
theorem load_document {c : Block} (hshape : c.reset = b.reset)
    (hdefault : all = true ∨ c = b.reset) :
    (c.load (m.document all)).1.reset = b.reset ∧ (c.load (m.document all)).1.named = b.named := by
  obtain ⟨-, hname, hregisters⟩ := Block.fields_of_reset hshape
  have hapart : c.registers.Pairwise Register.Apart := by
    have hreset : (b.registers.map Register.reset).Pairwise Register.Apart :=
      List.pairwise_map.2 (pairwise_apart h hb)
    rw [← hregisters, List.pairwise_map] at hreset
    exact hreset
  have hload := Block.load_eq hapart (hname ▸ keys_document h all hb) fun s hs =>
    hname ▸ register?_document h all hb hs
  rw [hload]
  constructor
  · rw [← hshape, Block.reset, Block.reset, List.map_map]
    simp only [Function.comp_def, Register.reset_acceptAll]
  · refine filter_named_eq (fun x => Register.reset_acceptAll x _) hregisters ?_
    intro x hx y hy hxy hnamed
    refine acceptAll_isSent h all hb hy hxy hnamed (hdefault.imp_right fun hc => ?_)
    rw [hc] at hx
    obtain ⟨r, -, rfl⟩ := List.mem_map.1 hx
    rfl

end Restoring

namespace RegisterMap

/-- The settings of one map stand in another one: the two differ in nothing but the values of
registers without a name, and they send the same messages. -/
structure Restored (l m : RegisterMap) : Prop where
  shape : l.reset = m.reset
  named : l.blocks.map Block.named = m.blocks.map Block.named
  words : ∀ all, l.words all = m.words all

/-- A map of the same shape gets its named registers back. -/
theorem restored_load {m m' : RegisterMap} (h : m.Writable) (all : Bool)
    (hshape : m'.reset = m.reset) (hdefault : all = true ∨ m' = m.reset) :
    (m'.load (m.document all)).Restored m := by
  have hblocks : m'.blocks.map Block.reset = m.blocks.map Block.reset := congrArg blocks hshape
  have hload : ∀ c ∈ m'.blocks, ∀ b ∈ m.blocks, c.reset = b.reset →
      (c.load (m.document all)).1.reset = b.reset ∧
        (c.load (m.document all)).1.named = b.named := by
    intro c hc b hb hcb
    refine load_document h all hb hcb (hdefault.imp_right fun hm => ?_)
    rw [hm] at hc
    obtain ⟨b', -, rfl⟩ := List.mem_map.1 hc
    rw [← hcb, Block.reset_reset]
  have hwords : ∀ all', ∀ c ∈ m'.blocks, ∀ b ∈ m.blocks, c.reset = b.reset →
      (c.load (m.document all)).1.words all' = b.words all' := by
    intro all' c hc b hb hcb
    obtain ⟨hreset, hnamed⟩ := hload c hc b hb hcb
    rw [Block.words_eq, Block.words_eq, hnamed, (Block.fields_of_reset hreset).1]
  refine ⟨?_, ?_, fun all' => ?_⟩
  · rw [load, reset, reset, List.map_map]
    exact congrArg _ (map_eq_map hblocks fun c hc b hb hcb => (hload c hc b hb hcb).1)
  · rw [load, List.map_map]
    exact map_eq_map hblocks fun c hc b hb hcb => (hload c hc b hb hcb).2
  · rw [words, words, List.flatMap_def, List.flatMap_def, load, List.map_map]
    exact congrArg _ (map_eq_map hblocks (hwords all'))

/-! ## The default tables -/

/-- Whether a file can be read back does not depend on the values. -/
theorem writable_reset {m : RegisterMap} : m.reset.Writable ↔ m.Writable := by
  have hnamed : ∀ b : Block, b.reset.named = b.named.map Register.reset := by
    intro b
    rw [Block.named, Block.named, Block.reset, List.filter_map]
    rfl
  simp only [writable_iff, reset, List.pairwise_map, List.forall_mem_map, hnamed]
  rfl

/-- The map with one value in all registers. -/
def fill (m : RegisterMap) (value : UInt16) : RegisterMap :=
  ⟨m.blocks.map fun b => { b with registers := b.registers.map fun r => { r with value } }⟩

theorem reset_fill (m : RegisterMap) (value : UInt16) : (m.fill value).reset = m.reset := by
  simp [fill, reset, Block.reset, Function.comp_def, Register.reset]

/-- The file of the default tables can be read back. -/
theorem writable_standard : standard.Writable where
  blocks := by decide +kernel
  registers := by decide +kernel
  blockNames := by decide +kernel
  registerNames := by decide +kernel
  descriptions := by
    have hfeed : ∀ b ∈ standard.blocks, ∀ r ∈ b.named,
        (10 : UInt8) ∉ r.description.toByteArray.data.toList := by decide +kernel
    intro b hb r hr
    exact not_mem_feed (hfeed b hb r hr)

/-! ## The round trip -/

/-- **A register file restores the settings that it was written from.**  A file of all registers
does so in every map of the same shape, a file of the changed registers in a map at its defaults,
and no line of either is malformed. -/
theorem load_settings {m : RegisterMap} (h : m.Writable) (described : Bool) :
    (∀ all, (Document.parse (m.settings all described).toList).firstMalformed = none) ∧
    (∀ m' : RegisterMap, m'.reset = m.reset →
      (m'.load (Document.parse (m.settings true described).toList)).Restored m) ∧
    (m.reset.load (Document.parse (m.settings false described).toList)).Restored m := by
  have hparse : ∀ all, Document.parse (m.settings all described).toList = m.document all :=
    fun all => parse_settings h all described
  have hreset : m.reset.reset = m.reset := by
    simp [reset, Function.comp_def, Block.reset_reset]
  refine ⟨fun all => ?_, fun m' hshape => ?_, ?_⟩
  · rw [hparse]
    rfl
  · rw [hparse]
    exact restored_load h true hshape (.inl rfl)
  · rw [hparse]
    exact restored_load h false hreset (.inr rfl)

theorem load_settings_standard :
    (standard.fill 0x1234).Writable ∧ (standard.fill 0xFFFF).reset = (standard.fill 0x1234).reset ∧
    ((standard.fill 0xFFFF).load
      (Document.parse ((standard.fill 0x1234).settings true true).toList)).Restored
        (standard.fill 0x1234) := by
  have hwritable : (standard.fill 0x1234).Writable := by
    rw [← writable_reset, reset_fill, writable_reset]
    exact writable_standard
  have hshape : (standard.fill 0xFFFF).reset = (standard.fill 0x1234).reset := by
    rw [reset_fill, reset_fill]
  exact ⟨hwritable, hshape, (load_settings hwritable true).2.1 _ hshape⟩

end RegisterMap

end Readout
