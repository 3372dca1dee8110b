import Readout.Proofs.Register.Layout
import Readout.Proofs.Register.RoundTrip
/-!
# What the board makes of a message

A board that takes a message puts the value of each word into the register that the word names.  The
full message has one word for every named register, and the short one leaves out those that are at
their defaults; so both make the same of a board that is at the defaults.

* `RegisterFile.replay` is what a board holds after a message;
* `RegisterMap.Placed` says of a map that no two of its registers share a place;
* `replay_words`: what a board holds after a message of a map, whatever it held before;
* `words_configure`: the two messages, after any changes of the map.
-/

namespace Readout

/-! ## The fields of a register word -/

namespace Word

def blockField (w : Word) : UInt8 := UInt8.ofNat (w.toNat / 16777216)

def subField (w : Word) : UInt8 := UInt8.ofNat (w.toNat / 65536)

def valueField (w : Word) : UInt16 := UInt16.ofNat w.toNat

/-- The half of a word that says which register it is about. -/
def upperHalf (w : Word) : Nat := w.toNat / 65536

variable (block sub : UInt8) (value : UInt16)

theorem toNat_register : (register block sub value).toNat =
    block.toNat * 16777216 + sub.toNat * 65536 + value.toNat := by
  have hb := block.toNat_lt
  have hs := sub.toNat_lt
  have hv := value.toNat_lt
  rw [register, UInt32.toNat_ofNat']
  omega

@[simp] theorem blockField_register : blockField (register block sub value) = block := by
  have hb := block.toNat_lt
  have hs := sub.toNat_lt
  have hv := value.toNat_lt
  rw [blockField, ← UInt8.toNat_inj, toNat_register, UInt8.toNat_ofNat']
  omega

@[simp] theorem subField_register : subField (register block sub value) = sub := by
  have hb := block.toNat_lt
  have hs := sub.toNat_lt
  have hv := value.toNat_lt
  rw [subField, ← UInt8.toNat_inj, toNat_register, UInt8.toNat_ofNat']
  omega

@[simp] theorem valueField_register : valueField (register block sub value) = value := by
  have hv := value.toNat_lt
  rw [valueField, ← UInt16.toNat_inj, toNat_register, UInt16.toNat_ofNat']
  omega

theorem upperHalf_register :
    upperHalf (register block sub value) = block.toNat * 256 + sub.toNat := by
  have hv := value.toNat_lt
  rw [upperHalf, toNat_register]
  omega

end Word

/-! ## Registers in their places -/

/-- A block that was made of registers, each of which it took. -/
def Block.IsMade (b : Block) : Prop := ∃ rs, Block.ofRegisters b.address b.name rs = .ok b

/-- A register with the address of its block. -/
structure Located where
  block : UInt8
  register : Register
  deriving DecidableEq

namespace Located

def IsAt (p : Located) (block sub : UInt8) : Prop := p.block = block ∧ p.register.address = sub

instance (p : Located) (block sub : UInt8) : Decidable (p.IsAt block sub) :=
  inferInstanceAs (Decidable (_ ∧ _))

/-- Two registers in different places. -/
def Apart (p q : Located) : Prop := ¬ p.IsAt q.block q.register.address

/-- The word that sets a board's register to the value of this one. -/
def word (p : Located) : Word := Word.register p.block p.register.address p.register.value

instance : Std.Symm Apart where
  symm _ _ h hat := h ⟨hat.1.symm, hat.2.symm⟩

/-- The words of registers in different places name different registers. -/
theorem Apart.upperHalf {p q : Located} (h : p.Apart q) :
    Word.upperHalf p.word ≠ Word.upperHalf q.word := by
  intro heq
  have hp := p.register.address.toNat_lt
  have hq := q.register.address.toNat_lt
  rw [word, word, Word.upperHalf_register, Word.upperHalf_register] at heq
  refine h ⟨UInt8.toNat_inj.1 ?_, UInt8.toNat_inj.1 ?_⟩ <;> omega

end Located

namespace RegisterMap

/-- The named registers of a map, in the order in which they are sent. -/
def located (m : RegisterMap) : List Located :=
  m.blocks.flatMap fun b => b.named.map (Located.mk b.address)

/-- A map whose registers have places of their own: the blocks have different addresses, and the
registers of each block increasing ones. -/
structure Placed (m : RegisterMap) : Prop where
  addresses : m.blocks.Pairwise fun b c => b.address ≠ c.address
  ordered : ∀ b ∈ m.blocks, b.Ordered

theorem Placed.of_view {m m' : RegisterMap} (h : m.Placed)
    (hview : m'.view Register.address = m.view Register.address) : m'.Placed where
  addresses := by
    have hmap : m'.blocks.map Block.address = m.blocks.map Block.address := by
      have hfirst := congrArg (List.map fun v : UInt8 × String × List UInt8 => v.1) hview
      simpa only [view, List.map_map, Function.comp_def, Block.view] using hfirst
    have hpairs := List.pairwise_map.2 h.addresses
    rw [← hmap] at hpairs
    exact List.pairwise_map.1 hpairs
  ordered := by
    intro b' hb'
    have hmem : b'.view Register.address ∈ m.view Register.address := by
      rw [← hview]
      exact List.mem_map_of_mem hb'
    obtain ⟨b, hb, hbview⟩ := List.mem_map.1 hmem
    exact Block.ordered_of_view hbview.symm (h.ordered b hb)

theorem Placed.apart {m : RegisterMap} (h : m.Placed) : m.located.Pairwise Located.Apart := by
  refine List.pairwise_flatMap.2 ⟨fun b hb => ?_, h.addresses.imp fun {b c} hbc => ?_⟩
  · have hnamed : b.named.Pairwise fun r s => r.address < s.address :=
      List.Pairwise.sublist List.filter_sublist (h.ordered b hb)
    refine List.pairwise_map.2 (hnamed.imp fun {r s} hrs hat => ?_)
    exact UInt8.ne_of_lt hrs hat.2
  · intro p hp q hq hat
    obtain ⟨r, -, rfl⟩ := List.mem_map.1 hp
    obtain ⟨s, -, rfl⟩ := List.mem_map.1 hq
    exact hbc hat.1

/-- What stands at the place of a register is that register. -/
theorem Placed.eq_of_isAt {m : RegisterMap} (h : m.Placed) {p q : Located} (hp : p ∈ m.located)
    (hq : q ∈ m.located) (hat : q.IsAt p.block p.register.address) : q = p := by
  by_contra hne
  exact h.apart.forall hq hp hne hat

/-- The message is the words of the registers that are sent. -/
theorem words_eq_located (m : RegisterMap) (all : Bool) :
    m.words all = (m.located.filter (·.register.isSent all)).map Located.word := by
  have hblock : ∀ b : Block, b.words all =
      ((b.named.map (Located.mk b.address)).filter (·.register.isSent all)).map Located.word := by
    intro b
    have hsent : b.named.filter (·.isSent all) = b.registers.filter (·.isSent all) := by
      rw [Block.named, List.filter_filter]
      refine List.filter_congr fun r _ => ?_
      cases hunused : r.isUnused <;> simp [Register.isSent, hunused]
    rw [Block.words, ← hsent, List.filter_map, List.map_map]
    rfl
  rw [words, located, List.filter_flatMap, List.map_flatMap]
  exact congrArg (List.flatMap · _) (funext hblock)

theorem mem_located {m : RegisterMap} {p : Located} :
    p ∈ m.located ↔ ∃ b ∈ m.blocks, p.block = b.address ∧ p.register ∈ b.named := by
  simp only [located, List.mem_flatMap, List.mem_map]
  constructor
  · rintro ⟨b, hb, r, hr, rfl⟩
    exact ⟨b, hb, rfl, hr⟩
  · rintro ⟨b, hb, hblock, hr⟩
    exact ⟨b, hb, p.register, hr, by rw [← hblock]⟩

theorem isUnused_of_located {m : RegisterMap} {p : Located} (hp : p ∈ m.located) :
    p.register.isUnused = false := by
  obtain ⟨b, -, -, hr⟩ := mem_located.1 hp
  simpa using (List.mem_filter.1 hr).2

end RegisterMap

/-! ## Taking a message -/

/-- What the registers of a board hold, by the address of their block and their sub-address. -/
abbrev RegisterFile := UInt8 → UInt8 → UInt16

namespace RegisterFile

/-- Take a register word. -/
def put (f : RegisterFile) (w : Word) : RegisterFile := fun block sub =>
  if block = w.blockField ∧ sub = w.subField then w.valueField else f block sub

/-- Take the words of a message one by one. -/
def replay (f : RegisterFile) (ws : List Word) : RegisterFile := ws.foldl put f

theorem replay_append (f : RegisterFile) (ws vs : List Word) :
    f.replay (ws ++ vs) = (f.replay ws).replay vs := List.foldl_append

theorem put_word (f : RegisterFile) (p : Located) (block sub : UInt8) :
    f.put p.word block sub = if p.IsAt block sub then p.register.value else f block sub := by
  unfold put Located.word Located.IsAt
  simp only [Word.blockField_register, Word.subField_register, Word.valueField_register]
  simp only [eq_comm]

/-- Words for other registers leave a register as it is. -/
theorem replay_of_forall {f : RegisterFile} {ps : List Located} {block sub : UInt8}
    (h : ∀ p ∈ ps, ¬ p.IsAt block sub) :
    f.replay (ps.map Located.word) block sub = f block sub := by
  induction ps generalizing f with
  | nil => rfl
  | cons p ps ih =>
    have hrest := ih (f := f.put p.word) fun q hq => h q (by simp [hq])
    have hfirst : ¬ p.IsAt block sub := h p (by simp)
    rw [put_word, if_neg hfirst] at hrest
    exact hrest

/-- A register has the value of the one word for it. -/
theorem replay_of_mem {f : RegisterFile} {ps : List Located} (h : ps.Pairwise Located.Apart)
    {p : Located} (hp : p ∈ ps) :
    f.replay (ps.map Located.word) p.block p.register.address = p.register.value := by
  induction ps generalizing f with
  | nil => cases hp
  | cons q ps ih =>
    have hpairs := List.pairwise_cons.1 h
    rcases List.mem_cons.1 hp with rfl | hmem
    · have hothers : ∀ q ∈ ps, ¬ q.IsAt p.block p.register.address :=
        fun q hq => Std.Symm.symm _ _ (hpairs.1 q hq)
      have hrest := replay_of_forall (f := f.put p.word) hothers
      rw [put_word, if_pos ⟨rfl, rfl⟩] at hrest
      exact hrest
    · exact ih hpairs.2 hmem

variable {m : RegisterMap}

/-- After a message a register that was sent has its value, and any other one keeps what it had. -/
theorem replay_words (h : m.Placed) (f : RegisterFile) (all : Bool) {p : Located}
    (hp : p ∈ m.located) : f.replay (m.words all) p.block p.register.address =
      if p.register.isSent all then p.register.value else f p.block p.register.address := by
  rw [RegisterMap.words_eq_located]
  split
  · rename_i hsent
    have hpairs := h.apart.sublist (List.filter_sublist (p := fun q => q.register.isSent all))
    exact replay_of_mem hpairs (List.mem_filter.2 ⟨hp, hsent⟩)
  · rename_i hsent
    refine replay_of_forall fun q hq hat => ?_
    obtain ⟨hmem, hqsent⟩ := List.mem_filter.1 hq
    rw [h.eq_of_isAt hp hmem hat] at hqsent
    exact hsent hqsent

/-- A message leaves alone what the map does not know. -/
theorem replay_words_beyond (f : RegisterFile) (all : Bool) {block sub : UInt8}
    (h : ∀ p ∈ m.located, ¬ p.IsAt block sub) : f.replay (m.words all) block sub = f block sub := by
  rw [RegisterMap.words_eq_located]
  exact replay_of_forall fun p hp => h p (List.mem_filter.1 hp).1

/-- A board whose named registers are at their defaults. -/
def AtDefaults (f : RegisterFile) (m : RegisterMap) : Prop :=
  ∀ p ∈ m.located, f p.block p.register.address = p.register.default

end RegisterFile

/-! ## The two messages -/

namespace RegisterMap

/-- The messages of a map configure a board: they differ in nothing but the registers at their
defaults, the full one names every register once and in order, and either brings a board that is at
the defaults to the values of the map. -/
structure Configures (m : RegisterMap) : Prop where
  sublist : (m.words false).Sublist (m.words true)
  complete : m.words true = m.located.map Located.word
  ordered : ∀ b ∈ m.blocks, b.named.Pairwise fun r s => r.address < s.address
  apart : (m.words true).Pairwise fun v w => Word.upperHalf v ≠ Word.upperHalf w
  same : ∀ f : RegisterFile, f.AtDefaults m → f.replay (m.words false) = f.replay (m.words true)
  current : ∀ f : RegisterFile, f.AtDefaults m → ∀ p ∈ m.located, ∀ all,
    f.replay (m.words all) p.block p.register.address = p.register.value

theorem Placed.configures {m : RegisterMap} (h : m.Placed) : m.Configures := by
  have hcomplete : m.words true = m.located.map Located.word := by
    rw [words_eq_located, List.filter_eq_self.2]
    intro p hp
    simp [Register.isSent, isUnused_of_located hp]
  have hcurrent : ∀ f : RegisterFile, f.AtDefaults m → ∀ p ∈ m.located, ∀ all,
      f.replay (m.words all) p.block p.register.address = p.register.value := by
    intro f hf p hp all
    rw [RegisterFile.replay_words h f all hp]
    split
    · rfl
    · rename_i hsent
      have hvalue : p.register.value = p.register.default := by
        have hdefault : all = false ∧ p.register.value = p.register.default := by
          simpa [Register.isSent, isUnused_of_located hp] using hsent
        exact hdefault.2
      rw [hf p hp, hvalue]
  refine ⟨?_, hcomplete, fun b hb => ?_, ?_, fun f hf => ?_, hcurrent⟩
  · rw [hcomplete, words_eq_located]
    exact List.filter_sublist.map _
  · exact List.Pairwise.sublist List.filter_sublist (h.ordered b hb)
  · rw [hcomplete]
    exact List.pairwise_map.2 (h.apart.imp fun hpq => hpq.upperHalf)
  · funext block sub
    by_cases hat : ∃ p ∈ m.located, p.IsAt block sub
    · obtain ⟨p, hp, rfl, rfl⟩ := hat
      rw [hcurrent f hf p hp, hcurrent f hf p hp]
    · have hnone : ∀ p ∈ m.located, ¬ p.IsAt block sub := fun p hp hp' => hat ⟨p, hp, hp'⟩
      rw [RegisterFile.replay_words_beyond f false hnone,
        RegisterFile.replay_words_beyond f true hnone]

/-- Blocks that were made of registers, with different addresses, keep all registers apart. -/
theorem placed_of_isMade {m : RegisterMap} (hmade : ∀ b ∈ m.blocks, b.IsMade)
    (haddresses : m.blocks.Pairwise fun b c => b.address ≠ c.address) : m.Placed := by
  refine ⟨haddresses, fun b hb => ?_⟩
  obtain ⟨rs, hrs⟩ := hmade b hb
  exact Block.ordered_ofRegisters hrs

/-- **The short message and the full one configure a board alike**, whatever calls changed the map
before, and whether these were accepted or not. -/
theorem words_configure {m : RegisterMap} (hmade : ∀ b ∈ m.blocks, b.IsMade)
    (haddresses : m.blocks.Pairwise fun b c => b.address ≠ c.address) (changes : List Change) :
    (m.changeAll changes).Configures :=
  ((placed_of_isMade hmade haddresses).of_view (view_changeAll m changes)).configures

/-- The default tables are made of their registers. -/
theorem isMade_standard : ∀ b ∈ standard.blocks, b.IsMade := by
  have hmade : ∀ b ∈ standard.blocks,
      (Block.ofRegisters b.address b.name b.registers).toOption = some b := by decide +kernel
  intro b hb
  refine ⟨b.registers, ?_⟩
  cases hof : Block.ofRegisters b.address b.name b.registers with
  | error e =>
    have hnone := hmade b hb
    rw [hof] at hnone
    cases hnone
  | ok c =>
    have hsome := hmade b hb
    rw [hof] at hsome
    cases hsome
    rfl

theorem addresses_standard : standard.blocks.Pairwise fun b c => b.address ≠ c.address := by
  decide +kernel

/-- A value, a name that no register has, and a default that moves away from the value. -/
theorem words_configure_standard :
    (∀ b ∈ standard.blocks, b.IsMade) ∧
    (standard.blocks.Pairwise fun b c => b.address ≠ c.address) ∧
    (standard.changeAll [.set Tables.adcBlock Tables.adcSkips 5, .set Tables.adcBlock "None" 1,
      .setDefault Tables.adcBlock Tables.adcSamples 7]).Configures :=
  ⟨isMade_standard, addresses_standard, words_configure isMade_standard addresses_standard _⟩

end RegisterMap

end Readout
