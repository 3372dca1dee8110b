import Readout.Board.Basic
import Readout.Proofs.Command.Frames
/-!
# The board and its traffic

A board is the flash with its registers, and the record of the datagrams that went to and fro.  What
a command does to the first part depends on nothing of the second.

* `Board.quiet` is a board without its traffic;
* `understand_frame`: a board understands exactly the command that was sent;
* `quiet_send_command`, `queue_send_command`, `queue_send_read` say what a command does to the two
  parts: one answer waits for the host, on the command port or, for a read, on the firmware port.
-/

namespace Readout

/-! ## Frames -/

namespace Word

theorem toNat_ofAscii_lt (s : String) : (ofAscii s).toNat < 16777216 := by
  unfold ofAscii
  generalize hbs : (s.toList.flatMap String.utf8EncodeChar).take 3 = bs
  have hlen : bs.length ≤ 3 := by rw [← hbs]; exact List.length_take_le 3 _
  clear hbs
  rcases bs with _ | ⟨a, _ | ⟨b, _ | ⟨c, _ | ⟨d, bs⟩⟩⟩⟩
  · decide
  · have := a.toNat_lt
    simp only [List.foldl_cons, List.foldl_nil, UInt32.toNat_ofNat', UInt32.toNat_zero]
    omega
  · have := a.toNat_lt; have := b.toNat_lt
    simp only [List.foldl_cons, List.foldl_nil, UInt32.toNat_ofNat', UInt32.toNat_zero]
    omega
  · have := a.toNat_lt; have := b.toNat_lt; have := c.toNat_lt
    simp only [List.foldl_cons, List.foldl_nil, UInt32.toNat_ofNat', UInt32.toNat_zero]
    omega
  · simp only [List.length_cons] at hlen
    omega

theorem toNat_asciiField (w : Word) : (asciiField w).toNat = w.toNat % 16777216 := by
  have h : (0x00FFFFFF : UInt32).toNat = 2 ^ 24 - 1 := rfl
  rw [asciiField, UInt32.toNat_and, h, Nat.and_two_pow_sub_one_eq_mod]

end Word

/-- A command as a board hears it. -/
def Command.heard (c : Command) : Received :=
  { name := Word.ascii (Word.ofAscii c.name)
    parameter := c.parameter.getD 0
    second := c.second.filter (· ≠ absentWord) }

/-- The command word holds the name below the parameter. -/
theorem Command.word_fields {c : Command} {w : Word} (h : c.word = .ok w) :
    Word.asciiField w = Word.ofAscii c.name ∧ UInt8.ofNat (w.toNat / 16777216) =
      c.parameter.getD 0 := by
  unfold Command.word at h
  split at h
  · cases h
    have hname := Word.toNat_ofAscii_lt c.name
    have hparam := (c.parameter.getD 0).toNat_lt
    refine ⟨?_, ?_⟩
    · rw [← UInt32.toNat_inj, Word.toNat_asciiField, UInt32.toNat_ofNat']
      omega
    · rw [← UInt8.toNat_inj, UInt32.toNat_ofNat', UInt8.toNat_ofNat']
      omega
  · cases h

theorem Command.heard_seek {a : UInt32} (ha : a ≠ absentWord) :
    ({ name := setAddress, second := some a } : Command).heard =
      { name := setAddress, parameter := 0, second := some a } := by
  have hname : Word.ascii (Word.ofAscii setAddress) = setAddress := by decide
  have hkeep : (some a).filter (· ≠ absentWord) = some a :=
    Option.filter_eq_some_iff.2 ⟨rfl, by simpa using ha⟩
  rw [heard, hname, hkeep]
  rfl

theorem Command.heard_read (n : UInt8) :
    ({ name := readFlash, parameter := some n } : Command).heard =
      { name := readFlash, parameter := n, second := none } := by
  have hname : Word.ascii (Word.ofAscii readFlash) = readFlash := by decide
  rw [heard, hname]
  rfl

namespace Board

/-- A board understands exactly the command that was sent. -/
theorem understand_frame {c : Command} {data : Bytes} (h : c.frame = .ok data) :
    understand (Word.decode data) = some c.heard := by
  unfold Command.frame Command.words at h
  cases hw : c.word with
  | error e => rw [hw] at h; cases h
  | ok w =>
    rw [hw] at h
    cases h
    obtain ⟨hname, hparam⟩ := Command.word_fields hw
    rw [Word.decode_encode]
    simp only [understand, Command.heard, hname, hparam, Option.some.injEq, Received.mk.injEq,
      true_and]
    cases c.second.filter (· ≠ Command.absentWord) <;> rfl

/-! ## Queues -/

theorem queue_push (b : Board) (p q : Port) (data : Bytes) :
    (b.push p data).queue q = if p = q then b.queue q ++ [data] else b.queue q := by
  simp only [queue, push, Std.HashMap.getD_insert, beq_iff_eq]
  split
  · rename_i h; rw [h]
  · rfl

/-- What waits first is taken first, and nothing else changes. -/
theorem pop_cons {b : Board} {p : Port} {data : Bytes} {rest : List Bytes}
    (h : b.queue p = data :: rest) :
    b.pop p = some (data, { b with queues := b.queues.insert p rest }) := by
  simp only [pop, h]

theorem pop_nil {b : Board} {p : Port} (h : b.queue p = []) : b.pop p = none := by
  simp only [pop, h]

theorem queue_setQueue (b : Board) (p q : Port) (rest : List Bytes) :
    ({ b with queues := b.queues.insert p rest } : Board).queue q =
      if p = q then rest else b.queue q := by
  simp only [queue, Std.HashMap.getD_insert, beq_iff_eq]

/-! ## Without the traffic -/

/-- A board without its traffic. -/
def quiet (b : Board) : Board := { b with queues := {}, sent := #[], commands := #[] }

@[simp] theorem flash_quiet (b : Board) : b.quiet.flash = b.flash := rfl
@[simp] theorem address_quiet (b : Board) : b.quiet.address = b.address := rfl
@[simp] theorem buffer_quiet (b : Board) : b.quiet.buffer = b.buffer := rfl
@[simp] theorem erased_quiet (b : Board) : b.quiet.erased = b.erased := rfl
@[simp] theorem fault_quiet (b : Board) : b.quiet.fault = b.fault := rfl
@[simp] theorem addressFaults_quiet (b : Board) : b.quiet.addressFaults = b.addressFaults := rfl
@[simp] theorem answers_quiet (b : Board) : b.quiet.answers = b.answers := rfl
@[simp] theorem silent_quiet (b : Board) : b.quiet.silent = b.silent := rfl
@[simp] theorem quiet_quiet (b : Board) : b.quiet.quiet = b.quiet := rfl

theorem silent_of_quiet {b c : Board} (h : b.quiet = c) : b.silent = c.silent := by
  rw [← h, silent_quiet]

theorem flash_of_quiet {b c : Board} (h : b.quiet = c) : b.flash = c.flash := by
  rw [← h, flash_quiet]

@[simp] theorem quiet_answer (b : Board) (p : Port) (ws : List Word) :
    (b.answer p ws).quiet = b.quiet := by
  unfold answer
  split <;> rfl

theorem quiet_takeFault (b : Board) : b.takeFault.2.quiet = b.quiet.takeFault.2 := by
  unfold takeFault
  simp only [fault_quiet]
  cases b.fault <;> rfl

/-! A read uses a fault up, and the board keeps what it holds. -/

@[simp] theorem flash_takeFault (b : Board) : b.takeFault.2.flash = b.flash := by
  unfold takeFault
  cases b.fault <;> rfl

@[simp] theorem buffer_takeFault (b : Board) : b.takeFault.2.buffer = b.buffer := by
  unfold takeFault
  cases b.fault <;> rfl

@[simp] theorem answers_takeFault (b : Board) : b.takeFault.2.answers = b.answers := by
  unfold takeFault
  cases b.fault <;> rfl

@[simp] theorem silent_takeFault (b : Board) : b.takeFault.2.silent = b.silent := by
  unfold takeFault
  cases b.fault <;> rfl

@[simp] theorem queue_takeFault (b : Board) (port : Port) :
    b.takeFault.2.queue port = b.queue port := by
  unfold takeFault
  cases b.fault <;> rfl

@[simp] theorem quiet_acknowledge (b : Board) (name : String) :
    (b.acknowledge name).quiet = b.quiet := quiet_answer b _ _

/-! ## Commands -/

/-- The words that answer a read: what the flash holds, with the fault of this read. -/
def readAnswer (b : Board) (n : Nat) : List Word :=
  match b.takeFault.1 with
  | some f => falsify f (b.flash.read b.address n)
  | none => b.flash.read b.address n

@[simp] theorem readAnswer_quiet (b : Board) (n : Nat) : b.quiet.readAnswer n = b.readAnswer n := by
  unfold readAnswer takeFault
  simp only [fault_quiet]
  cases b.fault <;> rfl

theorem answerRead_eq (b : Board) (n : Nat) :
    b.answerRead n = b.takeFault.2.answer firmwarePort (b.readAnswer n) := rfl

theorem queue_answer {b : Board} (hb : b.silent = false) (p q : Port) (ws : List Word) :
    (b.answer p ws).queue q = if p = q then b.queue q ++ [Word.encode ws] else b.queue q := by
  rw [answer, if_neg (by simp [hb]), queue_push]

/-- What a command does to the board does not depend on the traffic. -/
theorem quiet_obey (b : Board) (r : Received) : (b.obey r).quiet = (b.quiet.obey r).quiet := by
  unfold obey
  repeat' split
  all_goals try simp only [quiet_acknowledge]
  · rfl
  · rfl
  · rfl
  · rfl
  · rw [answerRead_eq, answerRead_eq, quiet_answer, quiet_answer, quiet_takeFault,
      quiet_takeFault, quiet_quiet]
  · rfl

section
variable {b : Board} {r : Received}

theorem quiet_obey_clear (h : r.name = Command.clearBuffers) :
    (b.obey r).quiet = { b.quiet with buffer := [] } := by
  rw [obey, if_pos h, quiet_acknowledge]
  rfl

theorem quiet_obey_seek (h : r.name = Command.setAddress) :
    (b.obey r).quiet = { b.quiet with address := r.second.getD 0 } := by
  rw [obey, if_neg (by rw [h]; decide), if_pos h, quiet_acknowledge]
  rfl

theorem quiet_obey_erase (h : r.name = Command.eraseSector) :
    (b.obey r).quiet = b.quiet.eraseSector := by
  rw [obey, if_neg (by rw [h]; decide), if_neg (by rw [h]; decide), if_pos h, quiet_acknowledge]
  rfl

theorem quiet_obey_commit (h : r.name = Command.commit) :
    (b.obey r).quiet = b.quiet.commit r.parameter.toNat := by
  rw [obey, if_neg (by rw [h]; decide), if_neg (by rw [h]; decide), if_neg (by rw [h]; decide),
    if_pos h, quiet_acknowledge]
  rfl

theorem obey_read (h : r.name = Command.readFlash) :
    b.obey r = b.answerRead r.parameter.toNat := by
  rw [obey, if_neg (by rw [h]; decide), if_neg (by rw [h]; decide), if_neg (by rw [h]; decide),
    if_neg (by rw [h]; decide), if_pos h]

theorem quiet_obey_read (h : r.name = Command.readFlash) :
    (b.obey r).quiet = b.quiet.takeFault.2 := by
  rw [obey_read h, answerRead_eq, quiet_answer, quiet_takeFault]

/-- Every command but a read changes the board and then acknowledges. -/
theorem obey_eq_acknowledge (h : r.name ≠ Command.readFlash) :
    ∃ c : Board, b.obey r = c.acknowledge r.name ∧ c.silent = b.silent ∧
      c.answers = b.answers ∧ c.queues = b.queues := by
  unfold obey
  rw [if_neg h]
  repeat' split
  all_goals exact ⟨_, rfl, rfl, rfl, rfl⟩

/-- Every command but a read is answered once, on the command port. -/
theorem queue_obey (hb : b.silent = false) (h : r.name ≠ Command.readFlash) (q : Port) :
    (b.obey r).queue q =
      if commandPort = q then
        b.queue q ++ [Word.encode (b.answers.getD r.name [Command.doneMarker])]
      else b.queue q := by
  obtain ⟨c, he, hs, ha, hq⟩ := obey_eq_acknowledge (b := b) h
  rw [he, acknowledge, queue_answer (hs.trans hb), ha, queue, queue, hq]

/-- A read is answered once, on the firmware port. -/
theorem queue_obey_read (hb : b.silent = false) (h : r.name = Command.readFlash) (q : Port) :
    (b.obey r).queue q =
      if firmwarePort = q then b.queue q ++ [Word.encode (b.readAnswer r.parameter.toNat)]
      else b.queue q := by
  rw [obey_read h, answerRead_eq, queue_answer ((silent_takeFault b).trans hb), queue_takeFault]

@[simp] theorem answers_obey : (b.obey r).answers = b.answers := by
  by_cases h : r.name = Command.readFlash
  · rw [← answers_quiet, quiet_obey_read h, answers_takeFault, answers_quiet]
  · obtain ⟨c, he, -, ha, -⟩ := obey_eq_acknowledge (b := b) h
    rw [he, ← answers_quiet, quiet_acknowledge, answers_quiet, ha]

@[simp] theorem silent_obey : (b.obey r).silent = b.silent := by
  by_cases h : r.name = Command.readFlash
  · rw [← silent_quiet, quiet_obey_read h, silent_takeFault, silent_quiet]
  · obtain ⟨c, he, hs, -, -⟩ := obey_eq_acknowledge (b := b) h
    rw [he, ← silent_quiet, quiet_acknowledge, silent_quiet, hs]

end

/-! ## Datagrams from the host -/

section
variable {c : Command} {data : Bytes}

theorem send_command (hc : c.frame = .ok data) (b : Board) :
    (b.send commandPort data).quiet =
        (obey { b with sent := b.sent.push (commandPort, data) } c.heard).quiet ∧
      (b.send commandPort data).queues =
        (obey { b with sent := b.sent.push (commandPort, data) } c.heard).queues := by
  rw [send, if_pos rfl, takeCommand, understand_frame hc]
  dsimp only
  generalize obey _ c.heard = b'
  exact ⟨rfl, rfl⟩

theorem quiet_send_command (hc : c.frame = .ok data) (b : Board) :
    (b.send commandPort data).quiet = (b.quiet.obey c.heard).quiet := by
  rw [(send_command hc b).1, quiet_obey]
  rfl

theorem answers_send_command (hc : c.frame = .ok data) (b : Board) :
    (b.send commandPort data).answers = b.answers := by
  rw [← answers_quiet, quiet_send_command hc, answers_quiet, answers_obey, answers_quiet]

theorem silent_send_command (hc : c.frame = .ok data) (b : Board) :
    (b.send commandPort data).silent = b.silent := by
  rw [← silent_quiet, quiet_send_command hc, silent_quiet, silent_obey, silent_quiet]

theorem queue_send_command (hc : c.frame = .ok data) {b : Board} (hb : b.silent = false)
    (hname : c.heard.name ≠ Command.readFlash) (q : Port) :
    (b.send commandPort data).queue q =
      if commandPort = q then
        b.queue q ++ [Word.encode (b.answers.getD c.heard.name [Command.doneMarker])]
      else b.queue q := by
  rw [queue, (send_command hc b).2]
  exact queue_obey (b := { b with sent := b.sent.push (commandPort, data) }) hb hname q

theorem queue_send_read (hc : c.frame = .ok data) {b : Board} (hb : b.silent = false)
    (hname : c.heard.name = Command.readFlash) (q : Port) :
    (b.send commandPort data).queue q =
      if firmwarePort = q then
        b.queue q ++ [Word.encode (b.quiet.readAnswer c.heard.parameter.toNat)]
      else b.queue q := by
  have h := queue_obey_read (b := { b with sent := b.sent.push (commandPort, data) }) hb hname q
  rw [← readAnswer_quiet] at h
  rw [queue, (send_command hc b).2]
  exact h

end

/-- The firmware port takes words for the write buffer. -/
theorem quiet_send_page (b : Board) (ws : List Word) :
    (b.send firmwarePort (Word.encode ws)).quiet = { b.quiet with buffer := b.buffer ++ ws } := by
  rw [send, if_neg (by decide), if_pos rfl, Word.decode_encode]
  rfl

/-- Only commands are answered. -/
theorem queue_send_of_ne {port : Port} (h : port ≠ commandPort) (b : Board) (data : Bytes)
    (q : Port) : (b.send port data).queue q = b.queue q := by
  rw [send, if_neg h]
  split <;> rfl

end Board

end Readout
