import Mathlib.Data.List.DropRight
import Readout.Proofs.Board.Commit
import Readout.Proofs.Board.Heard
/-!
# The history of a flash

What a board keeps is decided by the datagrams that reach it: its commands erase sectors and write
words, and a word of the flash is what was written to it since its sector was erased.  Nothing that
concerns the answers of the board, the canned ones, the faults of a read and silence, has a part in it.

* `Deed` is something done to a flash, `Registers.history` the deeds of a run of datagrams;
* `word_undergoAll`: what an address holds after any history;
* `memory_send`: what one datagram does to all that a board keeps, `memory_sendAll` a run of them;
* `memory_history` puts these together, with what follows for the bits of a word, for the reach of
  a command, and for boards that differ in how they answer.
-/

namespace Readout

/-! ## Deeds -/

/-- Something that is done to a flash. -/
inductive Deed
  /-- The sector that holds an address is erased. -/
  | erase (address : UInt32)
  | write (address : UInt32) (w : Word)
  deriving DecidableEq, Repr

namespace Deed

/-- Whether the word at an address is erased. -/
def erases (a : UInt32) : Deed → Bool
  | erase b => Flash.sector b == Flash.sector a
  | write .. => false

/-- The word that is written to an address. -/
def written? (a : UInt32) : Deed → Option Word
  | erase _ => none
  | write b w => if b = a then some w else none

/-- The first address of the sector that is erased. -/
def erased? : Deed → Option UInt32
  | erase b => some (UInt32.ofNat (Flash.sector b * Flash.sectorBytes))
  | write .. => none

/-- The words that were written to an address since its sector was last erased. -/
def writtenSince (a : UInt32) (h : List Deed) : List Word :=
  (h.rtakeWhile fun d => !d.erases a).filterMap (written? a)

/-- What an address holds from which all these words are written on: an erased word if its sector
was ever erased, else what it held at first. -/
def ground (a : UInt32) (first : Word) (h : List Deed) : Word :=
  if h.any (erases a) then Flash.erasedWord else first

theorem writtenSince_concat (a : UInt32) (h : List Deed) (d : Deed) :
    writtenSince a (h ++ [d]) =
      if d.erases a then [] else writtenSince a h ++ (d.written? a).toList := by
  unfold writtenSince
  rw [List.rtakeWhile_concat]
  cases herases : d.erases a with
  | true => rfl
  | false =>
    cases hwritten : d.written? a <;> simp [hwritten]

theorem ground_concat (a : UInt32) (first : Word) (h : List Deed) (d : Deed) :
    ground a first (h ++ [d]) = if d.erases a then Flash.erasedWord else ground a first h := by
  cases herases : d.erases a <;> simp [ground, herases]

end Deed

namespace Nor

/-- A deed is done. -/
def undergo (f : Nor) : Deed → Nor
  | .erase a => f.eraseSector a
  | .write a w => f.commitWord a w

/-- Deeds are done one after the other. -/
def undergoAll (f : Nor) (h : List Deed) : Nor := h.foldl undergo f

theorem undergoAll_append (f : Nor) (h h' : List Deed) :
    f.undergoAll (h ++ h') = (f.undergoAll h).undergoAll h' := List.foldl_append

theorem word_undergo (f : Nor) (d : Deed) (a : UInt32) :
    (f.undergo d).word a =
      if d.erases a then Flash.erasedWord else (d.written? a).toList.foldl (· &&& ·) (f.word a) := by
  cases d with
  | erase b =>
    rw [undergo, word_eraseSector, Deed.erases]
    by_cases hsector : Flash.sector b = Flash.sector a
    · rw [if_pos hsector.symm, if_pos (beq_iff_eq.2 hsector)]
    · rw [if_neg (Ne.symm hsector), if_neg (mt beq_iff_eq.1 hsector)]
      rfl
  | write b w =>
    rw [undergo, word_commitWord, Deed.written?]
    by_cases hb : b = a
    · subst hb
      simp [Deed.erases]
    · simp [Deed.erases, hb]

/-- **What an address holds after a history**: what it held at first, or an erased word if its sector
was erased, and with that every word that was written to it since. -/
theorem word_undergoAll (f : Nor) (h : List Deed) (a : UInt32) :
    (f.undergoAll h).word a =
      (Deed.writtenSince a h).foldl (· &&& ·) (Deed.ground a (f.word a) h) := by
  induction h using List.reverseRecOn with
  | nil => rfl
  | append_singleton h d ih =>
    have hlast : f.undergoAll (h ++ [d]) = (f.undergoAll h).undergo d := undergoAll_append f h [d]
    rw [hlast, word_undergo, ih, Deed.writtenSince_concat, Deed.ground_concat]
    split
    · rfl
    · rw [List.foldl_append]

/-- Writing clears bits: without an erasure no bit of a word is set that was clear. -/
theorem testBit_undergoAll (f : Nor) {h : List Deed} {a : UInt32}
    (hkept : ∀ d ∈ h, d.erases a = false) {i : Nat}
    (hbit : ((f.undergoAll h).word a).toNat.testBit i = true) :
    (f.word a).toNat.testBit i = true := by
  induction h generalizing f with
  | nil => exact hbit
  | cons d h ih =>
    have hone := ih (f.undergo d) (fun e he => hkept e (by simp [he])) hbit
    rw [word_undergo, hkept d (by simp)] at hone
    cases hwritten : d.written? a with
    | none => simpa [hwritten] using hone
    | some w =>
      simp only [hwritten, Option.toList_some, List.foldl_cons, List.foldl_nil, Bool.false_eq_true,
        if_false, UInt32.toNat_and, Nat.testBit_and, Bool.and_eq_true] at hone
      exact hone.1

/-- A word that no deed erases or writes stays as it is. -/
theorem word_undergoAll_of_untouched (f : Nor) {h : List Deed} {a : UInt32}
    (hfree : ∀ d ∈ h, d.erases a = false ∧ d.written? a = none) :
    (f.undergoAll h).word a = f.word a := by
  induction h generalizing f with
  | nil => rfl
  | cons d h ih =>
    obtain ⟨herases, hwritten⟩ := hfree d (by simp)
    have hone : (f.undergo d).word a = f.word a := by
      rw [word_undergo, herases, hwritten]
      rfl
    exact (ih _ fun e he => hfree e (by simp [he])).trans hone

/-- A run of words that is committed is a history of writes. -/
theorem commit_eq_undergoAll (f : Nor) (start : UInt32) (ws : List Word) :
    f.commit start ws =
      f.undergoAll (ws.mapIdx fun i w => .write (Flash.wordAddress start i) w) := by
  induction ws generalizing f start with
  | nil => rfl
  | cons w ws ih =>
    rw [commit, ih, List.mapIdx_cons, Flash.wordAddress_zero]
    simp only [← Flash.wordAddress_succ]
    rfl

end Nor

/-! ## Registers -/

namespace Board

/-- The registers of a board: where its commands act, and the words that wait to be written. -/
structure Registers where
  address : UInt32
  buffer : List Word
  deriving DecidableEq, Repr

/-- The command that a datagram is heard as. -/
def heard? (d : Port × Bytes) : Option Received :=
  if d.1 = commandPort then understand (Word.decode d.2) else none

namespace Registers

/-- What a command does to the flash.  As many words as its parameter says, or all that wait if
there are fewer, go to the address and on from there, four bytes apart. -/
def deeds (r : Registers) (c : Received) : List Deed :=
  if c.name = Command.eraseSector then [.erase r.address]
  else if c.name = Command.commit then
    (r.buffer.take c.parameter.toNat).mapIdx fun i w => .write (Flash.wordAddress r.address i) w
  else []

/-- The registers after a command. -/
def obey (r : Registers) (c : Received) : Registers :=
  if c.name = Command.clearBuffers ∨ c.name = Command.commit then { r with buffer := [] }
  else if c.name = Command.setAddress then { r with address := c.second.getD 0 }
  else r

/-- The registers after a datagram. -/
def after (r : Registers) (d : Port × Bytes) : Registers :=
  match heard? d with
  | some c => r.obey c
  | none => if d.1 = firmwarePort then { r with buffer := r.buffer ++ Word.decode d.2 } else r

/-- The registers after a run of datagrams. -/
def afterAll (r : Registers) (ds : List (Port × Bytes)) : Registers := ds.foldl after r

/-- What a run of datagrams does to the flash. -/
def history (r : Registers) : List (Port × Bytes) → List Deed
  | [] => []
  | d :: ds => ((heard? d).elim [] r.deeds) ++ (r.after d).history ds

theorem history_append (r : Registers) (ds ds' : List (Port × Bytes)) :
    r.history (ds ++ ds') = r.history ds ++ (r.afterAll ds).history ds' := by
  induction ds generalizing r with
  | nil => rfl
  | cons d ds ih =>
    rw [List.cons_append, history, history, ih, List.append_assoc]
    rfl

end Registers

/-! ## What a board keeps -/

/-- What a board keeps: the flash, its registers, and the records of erased sectors and commands. -/
structure Memory where
  flash : Nor
  registers : Registers
  erased : List UInt32
  commands : List Received

def memory (b : Board) : Memory where
  flash := b.flash
  registers := { address := b.address, buffer := b.buffer }
  erased := b.erased.toList
  commands := b.commands.toList

/-- What is kept after a run of datagrams. -/
def Memory.sendAll (m : Memory) (ds : List (Port × Bytes)) : Memory where
  flash := m.flash.undergoAll (m.registers.history ds)
  registers := m.registers.afterAll ds
  erased := m.erased ++ (m.registers.history ds).filterMap Deed.erased?
  commands := m.commands ++ ds.filterMap heard?

/-- A run of datagrams from the host. -/
def sendAll (b : Board) (ds : List (Port × Bytes)) : Board :=
  ds.foldl (fun b d => b.send d.1 d.2) b

@[simp] theorem memory_answer (b : Board) (port : Port) (ws : List Word) :
    (b.answer port ws).memory = b.memory := by
  unfold answer
  split <;> rfl

@[simp] theorem memory_acknowledge (b : Board) (name : String) :
    (b.acknowledge name).memory = b.memory := memory_answer b _ _

@[simp] theorem memory_takeFault (b : Board) : b.takeFault.2.memory = b.memory := by
  unfold takeFault
  cases b.fault <;> rfl

/-- What is kept after a command, but for the record of the command itself. -/
def Memory.obey (m : Memory) (c : Received) : Memory :=
  { m with
    flash := m.flash.undergoAll (m.registers.deeds c)
    registers := m.registers.obey c
    erased := m.erased ++ (m.registers.deeds c).filterMap Deed.erased? }

/-- Commands that neither erase nor write change the registers at most. -/
theorem Memory.obey_idle (m : Memory) {c : Received} (herase : c.name ≠ Command.eraseSector)
    (hcommit : c.name ≠ Command.commit) :
    m.obey c = { m with registers := m.registers.obey c } := by
  rw [obey, Registers.deeds, if_neg herase, if_neg hcommit, List.filterMap_nil, List.append_nil]
  rfl

/-- Writing erases nothing. -/
theorem filterMap_erased?_writes (start : UInt32) (ws : List Word) :
    (ws.mapIdx fun i w => Deed.write (Flash.wordAddress start i) w).filterMap Deed.erased? = [] := by
  rw [List.filterMap_eq_nil_iff]
  intro d hd
  obtain ⟨i, hi, rfl⟩ := List.mem_mapIdx.1 hd
  rfl

/-- What a board keeps of a command depends on nothing but what it kept before. -/
theorem memory_obey (b : Board) (c : Received) : (b.obey c).memory = b.memory.obey c := by
  unfold obey
  split_ifs with hclear hseek herase hcommit hread
  · rw [memory_acknowledge, Memory.obey_idle _ (by rw [hclear]; decide) (by rw [hclear]; decide),
      Registers.obey, if_pos (.inl hclear)]
    rfl
  · rw [memory_acknowledge, Memory.obey_idle _ (by rw [hseek]; decide) (by rw [hseek]; decide),
      Registers.obey, if_neg (by rw [hseek]; decide), if_pos hseek]
    rfl
  · rw [memory_acknowledge, Memory.obey, Registers.deeds, if_pos herase, Registers.obey,
      if_neg (by rw [herase]; decide), if_neg (by rw [herase]; decide)]
    simp [memory, eraseSector, Deed.erased?, Nor.undergoAll, Nor.undergo]
  · rw [memory_acknowledge, Memory.obey, Registers.deeds, if_neg (by rw [hcommit]; decide),
      if_pos hcommit, Registers.obey, if_pos (.inr hcommit), filterMap_erased?_writes,
      List.append_nil, ← Nor.commit_eq_undergoAll]
    rfl
  · rw [answerRead_eq, memory_answer, memory_takeFault, Memory.obey_idle _ herase hcommit,
      Registers.obey, if_neg (by rw [hread]; decide), if_neg hseek]
  · rw [memory_acknowledge, Memory.obey_idle _ herase hcommit, Registers.obey,
      if_neg (not_or.2 ⟨hclear, hcommit⟩), if_neg hseek]

/-- A datagram that is heard as a command. -/
theorem Memory.sendAll_heard (m : Memory) {d : Port × Bytes} {c : Received}
    (h : heard? d = some c) :
    m.sendAll [d] = { m.obey c with commands := m.commands ++ [c] } := by
  simp [sendAll, obey, Registers.history, Registers.afterAll, Registers.after, h]

/-- A datagram that is no command reaches the buffer at most. -/
theorem Memory.sendAll_unheard (m : Memory) {d : Port × Bytes} (h : heard? d = none) :
    m.sendAll [d] = { m with registers := m.registers.after d } := by
  simp [sendAll, Registers.history, Registers.afterAll, h, Nor.undergoAll]

theorem Memory.sendAll_append (m : Memory) (ds ds' : List (Port × Bytes)) :
    m.sendAll (ds ++ ds') = (m.sendAll ds).sendAll ds' := by
  simp [sendAll, Registers.history_append, Registers.afterAll, Nor.undergoAll_append]

theorem memory_record (b : Board) (c : Received) :
    ({ b with commands := b.commands.push c } : Board).memory =
      { b.memory with commands := b.memory.commands ++ [c] } := by
  simp [memory]

/-- **One datagram**: what a board keeps of it. -/
theorem memory_send (b : Board) (d : Port × Bytes) :
    (b.send d.1 d.2).memory = b.memory.sendAll [d] := by
  rw [send]
  split_ifs with hcommand hfirmware
  · cases hheard : understand (Word.decode d.2) with
    | none =>
      have hnone : heard? d = none := by rw [heard?, if_pos hcommand, hheard]
      rw [takeCommand, hheard, Memory.sendAll_unheard _ hnone, Registers.after, hnone]
      have hport : d.1 ≠ firmwarePort := by rw [hcommand]; decide
      dsimp only
      rw [if_neg hport]
      rfl
    | some c =>
      have hsome : heard? d = some c := by rw [heard?, if_pos hcommand, hheard]
      rw [takeCommand, hheard, Memory.sendAll_heard _ hsome]
      dsimp only
      rw [memory_record, memory_obey]
      rfl
  · have hnone : heard? d = none := if_neg hcommand
    rw [Memory.sendAll_unheard _ hnone, Registers.after, hnone]
    dsimp only
    rw [if_pos hfirmware]
    rfl
  · have hnone : heard? d = none := if_neg hcommand
    rw [Memory.sendAll_unheard _ hnone, Registers.after, hnone]
    dsimp only
    rw [if_neg hfirmware]
    rfl

/-- **A run of datagrams**: what a board keeps of it depends on nothing but what it kept before. -/
theorem memory_sendAll (b : Board) (ds : List (Port × Bytes)) :
    (b.sendAll ds).memory = b.memory.sendAll ds := by
  induction ds generalizing b with
  | nil => simp [sendAll, Memory.sendAll, Registers.history, Registers.afterAll, Nor.undergoAll]
  | cons d ds ih =>
    calc ((b.send d.1 d.2).sendAll ds).memory
      _ = (b.send d.1 d.2).memory.sendAll ds := ih _
      _ = (b.memory.sendAll [d]).sendAll ds := by rw [memory_send]
      _ = b.memory.sendAll (d :: ds) := (Memory.sendAll_append _ [d] ds).symm

/-- A command touches the words of the sector that it erases, or those that it writes. -/
theorem Registers.reach (r : Registers) {c : Received} {d : Deed} {a : UInt32}
    (hd : d ∈ r.deeds c) (ha : ¬ (d.erases a = false ∧ d.written? a = none)) :
    c.name = Command.eraseSector ∧ Flash.sector a = Flash.sector r.address ∨
      c.name = Command.commit ∧ ∃ i < min c.parameter.toNat r.buffer.length,
        a = Flash.wordAddress r.address i := by
  unfold deeds at hd
  split_ifs at hd with herase hcommit
  · refine .inl ⟨herase, ?_⟩
    by_contra hsector
    rw [List.mem_singleton.1 hd] at ha
    exact ha ⟨beq_eq_false_iff_ne.2 (Ne.symm hsector), rfl⟩
  · obtain ⟨i, hi, rfl⟩ := List.mem_mapIdx.1 hd
    rw [List.length_take] at hi
    refine .inr ⟨hcommit, i, hi, ?_⟩
    by_contra haddress
    exact ha ⟨rfl, if_neg (Ne.symm haddress)⟩
  · cases hd

/-- A datagram that changes a word of the flash is a command that reaches it. -/
theorem reach_of_changed {b : Board} {d : Port × Bytes} {a : UInt32}
    (h : (b.send d.1 d.2).flash.word a ≠ b.flash.word a) : ∃ c, heard? d = some c ∧
      (c.name = Command.eraseSector ∧ Flash.sector a = Flash.sector b.address ∨
        c.name = Command.commit ∧ ∃ i < min c.parameter.toNat b.buffer.length,
          a = Flash.wordAddress b.address i) := by
  have hflash := congrArg Memory.flash (memory_send b d)
  cases hheard : heard? d with
  | none =>
    rw [Memory.sendAll_unheard _ hheard] at hflash
    exact absurd (congrArg (·.word a) hflash) h
  | some c =>
    rw [Memory.sendAll_heard _ hheard] at hflash
    refine ⟨c, rfl, ?_⟩
    by_contra hreach
    refine h ((congrArg (·.word a) hflash).trans (Nor.word_undergoAll_of_untouched _ ?_))
    intro deed hdeed
    by_contra htouched
    exact hreach (Registers.reach _ hdeed htouched)

/-- **The flash is the history of its datagrams.**  After any run of datagrams, on any board, every
address holds what it held before, or an erased word if its sector was erased meanwhile, and with
all words that were written to it since; the registers, the record of erased sectors and the record
of commands are those that the run gives.  Between erasures of its sector no bit of a word is set
again.  A datagram changes a word only if it is a command to erase the sector of the word or to
write a run that the word is in.  Boards that keep the same before a run keep the same after it,
whatever their canned answers, their faults, their silence and the datagrams that wait on them.

Boards are specified for the sectors below the topmost one, which is erased here like the others. -/
theorem sendAll_history (b : Board) (ds : List (Port × Bytes)) :
    (∀ a, (b.sendAll ds).flash.word a =
      (Deed.writtenSince a (b.memory.registers.history ds)).foldl (· &&& ·)
        (Deed.ground a (b.flash.word a) (b.memory.registers.history ds))) ∧
    (b.sendAll ds).memory = b.memory.sendAll ds ∧
    (∀ (more : List (Port × Bytes)) (a : UInt32),
      (∀ d ∈ (b.sendAll ds).memory.registers.history more, d.erases a = false) →
        ∀ i, ((b.sendAll (ds ++ more)).flash.word a).toNat.testBit i = true →
          ((b.sendAll ds).flash.word a).toNat.testBit i = true) ∧
    (∀ (d : Port × Bytes) (a : UInt32),
      ((b.sendAll ds).send d.1 d.2).flash.word a ≠ (b.sendAll ds).flash.word a →
        ∃ c, heard? d = some c ∧
          (c.name = Command.eraseSector ∧
              Flash.sector a = Flash.sector (b.sendAll ds).address ∨
            c.name = Command.commit ∧
              ∃ i < min c.parameter.toNat (b.sendAll ds).buffer.length,
                a = Flash.wordAddress (b.sendAll ds).address i)) ∧
    ∀ other : Board, other.memory = b.memory → (other.sendAll ds).memory = (b.sendAll ds).memory := by
  refine ⟨fun a => ?_, memory_sendAll b ds, fun more a hkept i hbit => ?_,
    fun d a => reach_of_changed, fun other hother => ?_⟩
  · rw [← Nor.word_undergoAll]
    exact congrArg (·.flash.word a) (memory_sendAll b ds)
  · have hmore : (b.sendAll (ds ++ more)).memory = (b.sendAll ds).memory.sendAll more := by
      rw [← memory_sendAll, sendAll, sendAll, sendAll, List.foldl_append]
    refine Nor.testBit_undergoAll _ hkept (i := i) ?_
    rw [show (b.sendAll (ds ++ more)).flash = _ from congrArg Memory.flash hmore] at hbit
    exact hbit
  · rw [memory_sendAll, memory_sendAll, hother]

/-- A board that is silent and has a fault armed keeps the same of a run as one that is not: the word
is zero, since either half was written to it. -/
theorem sendAll_history_halves :
    let run := [(commandPort, Word.encode [0x00455341, 0x20000]),
      (firmwarePort, Word.encode [0x0000FFFF]), (commandPort, Word.encode [0x01455752]),
      (firmwarePort, Word.encode [0xFFFF0000]), (commandPort, Word.encode [0x01455752])]
    let mute : Board := { silent := true, fault := some ⟨0, 1⟩ }
    mute.memory = Board.memory {} ∧ (mute.sendAll run).memory = (Board.sendAll {} run).memory ∧
      (mute.sendAll run).flash.word 0x20000 = 0 := by
  intro run mute
  obtain ⟨hword, -, -, -, hsame⟩ := sendAll_history {} run
  have halike : mute.memory = Board.memory {} := rfl
  refine ⟨halike, hsame mute halike, ?_⟩
  rw [show (mute.sendAll run).flash = (Board.sendAll {} run).flash from
    congrArg Memory.flash (hsame mute halike), hword]
  have hempty : ({} : Board).flash.word 0x20000 = Flash.erasedWord := Std.HashMap.getD_empty
  rw [hempty]
  decide

end Board

end Readout
