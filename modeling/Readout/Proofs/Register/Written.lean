import Mathlib.Tactic.MkIffOfInductiveProp
import Readout.Proofs.Ini.Documents
import Readout.Register.Settings
/-!
# What a register file says

The text of a register file, read line by line, gives one section for every block, with one key for
every register that was written.

* `Writable` says of a register map that its file can be read back: no two names of a kind are the
  same, names are words, and descriptions stay on their lines;
* `linesOf_settings`: the lines of the text;
* `parse_settings`: the document that they make up.
-/

namespace Readout

open Text Ini

/-! ## Names -/

/-- The registers of a block that have a name. -/
def Block.named (b : Block) : List Register := b.registers.filter fun r => !r.isUnused

/-- A register map whose file can be read back. -/
@[mk_iff]
structure RegisterMap.Writable (m : RegisterMap) : Prop where
  /-- No two blocks have the same name. -/
  blocks : m.blocks.Pairwise fun b c => sameName b.name c.name = false
  /-- No two registers of a block have the same name. -/
  registers : ∀ b ∈ m.blocks, b.named.Pairwise fun r s => sameName r.name s.name = false
  blockNames : ∀ b ∈ m.blocks, IsWord b.name.toList
  registerNames : ∀ b ∈ m.blocks, ∀ r ∈ b.named, IsWord r.name.toList
  descriptions : ∀ b ∈ m.blocks, ∀ r ∈ b.named, '\n' ∉ r.description.toList

/-! ## Lines -/

/-- The lines of a register: a comment if it is described, and an assignment. -/
def Register.written (described : Bool) (r : Register) : List Line :=
  (if described then [.nothing] else []) ++ [.assignment r.name (hex 1 r.value.toNat)]

/-- The lines of a block. -/
def Block.written (b : Block) (all described : Bool) : List Line :=
  .header b.name :: (b.registers.filter (·.isSent all)).flatMap (Register.written described)

/-- Only registers that have a name are sent. -/
theorem Block.isSent_sublist_named (b : Block) (all : Bool) :
    (b.registers.filter (·.isSent all)).Sublist b.named := by
  refine List.monotone_filter_right _ fun r hr => ?_
  exact (Bool.and_eq_true _ _ ▸ hr).1

theorem Block.mem_named_of_isSent {b : Block} {all : Bool} {r : Register}
    (h : r ∈ b.registers.filter (·.isSent all)) : r ∈ b.named :=
  (b.isSent_sublist_named all).subset h

/-- The text of a register's comment. -/
def Register.comment (r : Register) : List Char :=
  ';' :: ((hex 1 r.address.toNat).toList ++ ' ' :: r.description.toList)

/-- The text of a register's assignment. -/
def Register.assignment (r : Register) : List Char :=
  r.name.toList ++ ' ' :: '=' :: ' ' :: (hex 1 r.value.toNat).toList

theorem linesOf_comment {r : Register} (h : '\n' ∉ r.description.toList) (rest : List Char) :
    linesOf (r.comment ++ '\n' :: rest) = .nothing :: linesOf rest := by
  have haddress : '\n' ∉ (hex 1 r.address.toNat).toList :=
    not_mem_of_isWord (isWord_hex _) (by decide)
  have hfeed : '\n' ∉ r.comment := by
    simp [Register.comment, haddress, h]
  -- a carriage return at the end of a description goes with the line end
  have hdrop : ∃ cs, dropReturn r.comment = ';' :: cs := by
    unfold dropReturn
    split
    · exact ⟨_, List.dropLast_cons_of_ne_nil (by simp)⟩
    · exact ⟨_, rfl⟩
  obtain ⟨cs, hcs⟩ := hdrop
  rw [linesOf_cons hfeed, hcs, Line.ofText_comment]

theorem linesOf_assignment {r : Register} (h : IsWord r.name.toList) (rest : List Char) :
    linesOf (r.assignment ++ '\n' :: rest) =
      .assignment r.name (hex 1 r.value.toNat) :: linesOf rest := by
  have hvalue := isWord_hex r.value.toNat
  have hfeed : '\n' ∉ r.assignment := by
    have h₁ : '\n' ∉ r.name.toList := not_mem_of_isWord h (by decide)
    have h₂ : '\n' ∉ (hex 1 r.value.toNat).toList := not_mem_of_isWord hvalue (by decide)
    simp [Register.assignment, h₁, h₂]
  have hreturn : '\r' ∉ r.assignment := by
    have h₁ : '\r' ∉ r.name.toList := not_mem_of_isWord h (by decide)
    have h₂ : '\r' ∉ (hex 1 r.value.toNat).toList := not_mem_of_isWord hvalue (by decide)
    simp [Register.assignment, h₁, h₂]
  rw [linesOf_cons hfeed, dropReturn_eq_self hreturn, Register.assignment,
    Line.ofText_assignment h hvalue, String.ofList_toList, String.ofList_toList]

theorem linesOf_settingLines {r : Register} (hname : IsWord r.name.toList)
    (hdescription : '\n' ∉ r.description.toList) (described : Bool) (rest : List Char) :
    linesOf ((Block.settingLines described r).toList ++ rest) =
      r.written described ++ linesOf rest := by
  have hassignment := linesOf_assignment hname rest
  cases described with
  | false =>
    have htext : (Block.settingLines false r).toList ++ rest = r.assignment ++ '\n' :: rest := by
      simp [Block.settingLines, Register.assignment]
    rw [htext, hassignment]
    rfl
  | true =>
    have htext : (Block.settingLines true r).toList ++ rest =
        r.comment ++ '\n' :: (r.assignment ++ '\n' :: rest) := by
      simp [Block.settingLines, Register.comment, Register.assignment]
    rw [htext, linesOf_comment hdescription, hassignment]
    rfl

/-- The lines of a run of registers. -/
theorem linesOf_registers (described : Bool) {rs : List Register}
    (hnames : ∀ r ∈ rs, IsWord r.name.toList)
    (hdescriptions : ∀ r ∈ rs, '\n' ∉ r.description.toList) (rest : List Char) :
    linesOf ((rs.map (Block.settingLines described)).flatMap String.toList ++ rest) =
      rs.flatMap (Register.written described) ++ linesOf rest := by
  induction rs with
  | nil => rfl
  | cons r rs ih =>
    have hrest := ih (fun s hs => hnames s (by simp [hs])) fun s hs => hdescriptions s (by simp [hs])
    rw [List.map_cons, List.flatMap_cons, List.append_assoc,
      linesOf_settingLines (hnames r (by simp)) (hdescriptions r (by simp)), hrest,
      List.flatMap_cons, List.append_assoc]

theorem linesOf_block {b : Block} (hname : IsWord b.name.toList)
    (hnames : ∀ r ∈ b.named, IsWord r.name.toList)
    (hdescriptions : ∀ r ∈ b.named, '\n' ∉ r.description.toList) (all described : Bool)
    (rest : List Char) :
    linesOf ((b.settings all described).toList ++ rest) =
      b.written all described ++ linesOf rest := by
  have htext : (b.settings all described).toList ++ rest =
      '[' :: (b.name.toList ++ [']']) ++ '\n' ::
        (((b.registers.filter (·.isSent all)).map
          (Block.settingLines described)).flatMap String.toList ++ rest) := by
    simp [Block.settings]
  have hfeed : '\n' ∉ '[' :: (b.name.toList ++ [']']) := by
    have h₁ : '\n' ∉ b.name.toList := not_mem_of_isWord hname (by decide)
    simp [h₁]
  have hreturn : '\r' ∉ '[' :: (b.name.toList ++ [']']) := by
    have h₁ : '\r' ∉ b.name.toList := not_mem_of_isWord hname (by decide)
    simp [h₁]
  have hwords : ∀ r ∈ b.registers.filter (·.isSent all), IsWord r.name.toList :=
    fun r hr => hnames r (Block.mem_named_of_isSent hr)
  have hlines : ∀ r ∈ b.registers.filter (·.isSent all), '\n' ∉ r.description.toList :=
    fun r hr => hdescriptions r (Block.mem_named_of_isSent hr)
  rw [htext, linesOf_cons hfeed, dropReturn_eq_self hreturn, Line.ofText_header hname,
    linesOf_registers described hwords hlines rest, String.ofList_toList]
  rfl

/-- The lines of a register file. -/
theorem linesOf_settings {m : RegisterMap} (h : m.Writable) (all described : Bool) :
    linesOf (m.settings all described).toList =
      m.blocks.flatMap fun b => b.written all described := by
  have htext : (m.settings all described).toList =
      m.blocks.flatMap fun b => (b.settings all described).toList := by
    rw [RegisterMap.settings, String.toList_join, List.flatMap_map]
  have hblocks : ∀ bs : List Block, (∀ b ∈ bs, b ∈ m.blocks) →
      linesOf (bs.flatMap fun b => (b.settings all described).toList) =
        bs.flatMap fun b => b.written all described := by
    intro bs
    induction bs with
    | nil => exact fun _ => rfl
    | cons b bs ih =>
      intro hmem
      have hb := hmem b (by simp)
      rw [List.flatMap_cons, linesOf_block (h.blockNames b hb) (h.registerNames b hb)
        (h.descriptions b hb), ih fun c hc => hmem c (by simp [hc]), List.flatMap_cons]
  rw [htext, hblocks m.blocks fun b hb => hb]

/-! ## Sections -/

/-- The key of a register with its value. -/
def Register.setting (r : Register) : String × String := (r.name, hex 1 r.value.toNat)

/-- The section of a block. -/
def Block.section (b : Block) (all : Bool) : Section :=
  { name := b.name, entries := (b.registers.filter (·.isSent all)).map Register.setting }

namespace Ini

theorem assignKey_new {key : String} {entries : List (String × String)}
    (h : ∀ e ∈ entries, sameName e.1 key = false) (value : String) :
    assignKey key value entries = entries ++ [(key, value)] := by
  induction entries with
  | nil => rfl
  | cons e entries ih =>
    have he : sameName e.1 key = false := h e (by simp)
    have hrest := ih fun x hx => h x (by simp [hx])
    simp [assignKey, he, hrest]

theorem openSection_new {name : String} {sections : List Section}
    (h : ∀ s ∈ sections, sameName s.name name = false) :
    openSection name sections = sections ++ [⟨name, []⟩] := by
  induction sections with
  | nil => rfl
  | cons s sections ih =>
    have hs : sameName s.name name = false := h s (by simp)
    have hrest := ih fun x hx => h x (by simp [hx])
    simp [openSection, hs, hrest]

/-- The section that was opened last takes the key. -/
theorem assignIn_last {name : String} {sections : List Section}
    (h : ∀ s ∈ sections, sameName s.name name = false) (key value : String)
    (entries : List (String × String)) :
    assignIn name key value (sections ++ [⟨name, entries⟩]) =
      sections ++ [⟨name, assignKey key value entries⟩] := by
  induction sections with
  | nil => simp [assignIn, sameName_self]
  | cons s sections ih =>
    have hs : sameName s.name name = false := h s (by simp)
    have hrest := ih fun x hx => h x (by simp [hx])
    simp [assignIn, hs, hrest]

namespace Document

/-- A draft of the given sections, the last of them open, without a malformed line. -/
def Draft.ofSections (sections : List Section) (current : String) : Draft :=
  { document := { sections }, current }

/-- The lines of a register add its key to the open section. -/
theorem Draft.push_register {sections : List Section} {name : String}
    (hsections : ∀ s ∈ sections, sameName s.name name = false) {entries : List (String × String)}
    {r : Register} (hkeys : ∀ e ∈ entries, sameName e.1 r.name = false) (described : Bool)
    (n : Nat) :
    (Draft.ofSections (sections ++ [⟨name, entries⟩]) name).pushAll n (r.written described) =
      Draft.ofSections (sections ++ [⟨name, entries ++ [r.setting]⟩]) name := by
  have hassign := assignIn_last hsections r.name (hex 1 r.value.toNat) entries
  rw [assignKey_new hkeys] at hassign
  cases described <;>
    simp [Register.written, Draft.pushAll, Draft.push, Draft.ofSections, hassign, Register.setting]

/-- The lines of a run of registers add their keys in order. -/
theorem Draft.push_registers {sections : List Section} {name : String}
    (hsections : ∀ s ∈ sections, sameName s.name name = false) (described : Bool)
    {rs : List Register} (hnames : rs.Pairwise fun r s => sameName r.name s.name = false) :
    ∀ {entries : List (String × String)} (n : Nat),
      (∀ e ∈ entries, ∀ r ∈ rs, sameName e.1 r.name = false) →
      (Draft.ofSections (sections ++ [⟨name, entries⟩]) name).pushAll n
          (rs.flatMap (Register.written described)) =
        Draft.ofSections (sections ++ [⟨name, entries ++ rs.map Register.setting⟩]) name := by
  induction rs with
  | nil => intro entries n _; simp [Draft.pushAll]
  | cons r rs ih =>
    intro entries n hkeys
    have hpairs := List.pairwise_cons.1 hnames
    have hkeys' : ∀ e ∈ entries ++ [r.setting], ∀ s ∈ rs, sameName e.1 s.name = false := by
      intro e he s hs
      simp only [List.mem_append, List.mem_singleton] at he
      rcases he with he | rfl
      · exact hkeys e he s (by simp [hs])
      · exact hpairs.1 s hs
    rw [List.flatMap_cons, Draft.pushAll_append,
      Draft.push_register hsections fun e he => hkeys e he r (by simp), ih hpairs.2 _ hkeys']
    simp

/-- The lines of a block add its section. -/
theorem Draft.push_block {sections : List Section} {b : Block} {current : String}
    (hsections : ∀ s ∈ sections, sameName s.name b.name = false)
    (hnames : b.named.Pairwise fun r s => sameName r.name s.name = false) (all described : Bool)
    (n : Nat) :
    (Draft.ofSections sections current).pushAll n (b.written all described) =
      Draft.ofSections (sections ++ [b.section all]) b.name := by
  have hopen : (Draft.ofSections sections current).push (.header b.name) n =
      Draft.ofSections (sections ++ [⟨b.name, []⟩]) b.name := by
    rw [Draft.push, Draft.ofSections, openSection_new hsections]
    rfl
  rw [Block.written, Draft.pushAll, hopen, Draft.push_registers hsections described
    (hnames.sublist (b.isSent_sublist_named all)) _ fun e he => absurd he (List.not_mem_nil)]
  rfl

end Document

end Ini

/-- **The document of a register file.** -/
theorem parse_settings {m : RegisterMap} (h : m.Writable) (all described : Bool) :
    Document.parse (m.settings all described).toList =
      { sections := m.blocks.map fun b => b.section all } := by
  have hblocks : ∀ (bs : List Block) (sections : List Section) (current : String) (n : Nat),
      (∀ b ∈ bs, b ∈ m.blocks) →
      (bs.Pairwise fun b c => sameName b.name c.name = false) →
      (∀ s ∈ sections, ∀ b ∈ bs, sameName s.name b.name = false) →
      ((Document.Draft.ofSections sections current).pushAll n
          (bs.flatMap fun b => b.written all described)).document =
        { sections := sections ++ bs.map fun b => b.section all } := by
    intro bs
    induction bs with
    | nil => intro sections current n _ _ _; simp [Document.Draft.pushAll, Document.Draft.ofSections]
    | cons b bs ih =>
      intro sections current n hmem hpairs hsections
      have hnames := List.pairwise_cons.1 hpairs
      have hsections' : ∀ s ∈ sections ++ [b.section all], ∀ c ∈ bs,
          sameName s.name c.name = false := by
        intro s hs c hc
        simp only [List.mem_append, List.mem_singleton] at hs
        rcases hs with hs | rfl
        · exact hsections s hs c (by simp [hc])
        · exact hnames.1 c hc
      rw [List.flatMap_cons, Document.Draft.pushAll_append, Document.Draft.push_block
        (fun s hs => hsections s hs b (by simp)) (h.registers b (hmem b (by simp))),
        ih _ _ _ (fun c hc => hmem c (by simp [hc])) hnames.2 hsections']
      simp
  have hall := hblocks m.blocks [] "" 1 (fun b hb => hb) h.blocks fun s hs => by cases hs
  rw [← linesOf_settings h all described] at hall
  exact hall

end Readout
