import Readout.Flash.Program
import Readout.Proofs.Bench.InStep
import Readout.Proofs.Board.Commit
/-!
# Flash primitives on the bench

Each primitive of the flash, run on a bench whose board acknowledges, does to the board what its
command says and nothing else.  The state between two primitives is `Waiting`: it names the board
without its traffic, so that a primitive is a function on boards, and the datagrams that wait on the
firmware port.  A page that is read is the first of these.  `AtDesk` is the state in which none
waits, so that what is read is the answer to the read.

* `seek_step`, `clear_step`, `erase_step`, `commitPage_step`, `readBack_step` are the primitives;
  `seek_marked` and `clear_marked` ask for the marker in the answer to their own command only;
* `programPage_waiting` is a whole page: what it leaves in flash, and its verdict on the page that
  is received; in `programPage_step` that is the page read back.
-/

namespace Readout

/-- The board acknowledges the commands of its flash: it speaks, and each of its answers holds the
marker in the part that reaches the host. -/
structure Board.Acknowledges (b : Board) : Prop where
  speaks : b.silent = false
  marker : ∀ name ∈ [Command.clearBuffers, Command.setAddress, Command.eraseSector, Command.commit],
    Command.containsDone (b.reply name) = true

theorem Board.Acknowledges.of_answers {b b' : Board} (h : b.Acknowledges)
    (hs : b'.silent = b.silent) (ha : b'.answers = b.answers) : b'.Acknowledges where
  speaks := hs.trans h.speaks
  marker name hname := by
    rw [Board.reply, ha]
    exact h.marker name hname

/-- Nothing hinders the calls of the host, the board is `c` but for its traffic, the datagrams `q`
wait on the firmware port, and the reported progress is `ps`. -/
structure Waiting (j : Journal Bench) (c : Board) (q : List Bytes) (ps : List (Nat × Nat)) :
    Prop where
  clear : j.link.Clear
  board : j.link.board.quiet = c
  pages : j.link.board.queue firmwarePort = q
  progress : j.progress = ps

/-- Nothing hinders the calls of the host, no page waits for it, the board is `c` but for its
traffic, and the reported progress is `ps`. -/
abbrev AtDesk (j : Journal Bench) (c : Board) (ps : List (Nat × Nat)) : Prop := Waiting j c [] ps

theorem Waiting.quiet {j : Journal Bench} {c : Board} {q : List Bytes} {ps : List (Nat × Nat)}
    (h : Waiting j c q ps) : c.quiet = c := by
  rw [← h.board, Board.quiet_quiet]

/-- A report of progress. -/
theorem Waiting.note {j : Journal Bench} {c : Board} {q : List Bytes} {ps : List (Nat × Nat)}
    (h : Waiting j c q ps) (done total : Nat) :
    Waiting ⟨j.link, j.events.push (.progress done total)⟩ c q (ps ++ [(done, total)]) where
  clear := h.clear
  board := h.board
  pages := h.pages
  progress := by
    rw [← h.progress]
    exact Journal.progress_push j.link j.link j.events (.progress done total)

namespace Flash

open Exchange

variable {j : Journal Bench} {c : Board} {q : List Bytes} {ps : List (Nat × Nat)}
  (limit : Option Duration)

/-- A read is none of the commands that are acknowledged. -/
theorem ne_read_of_acknowledged {name : String} (h : name ∈
    [Command.clearBuffers, Command.setAddress, Command.eraseSector, Command.commit]) :
    name ≠ Command.readFlash := by
  rintro rfl
  exact absurd h (by decide)

/-- A command whose answer holds the marker is carried out. -/
theorem execute_marked (h : Waiting j c q ps) (hc : c.silent = false) {cmd : Command} {data : Bytes}
    (hframe : cmd.frame = .ok data) (hname : cmd.heard.name ≠ Command.readFlash)
    (hmarker : Command.containsDone (c.reply cmd.heard.name) = true) :
    ∃ j', execute limit cmd j = (.ok (), j') ∧ Waiting j' (c.obey cmd.heard).quiet q ps := by
  obtain ⟨j₁, hcommand, hset, hboard, hprogress⟩ := command_clear h.clear hframe
  have hclear := h.clear.of_setting hset
  have hsilent := (Board.silent_of_quiet h.board).trans hc
  have hqueue := Board.queue_send_command hframe hsilent hname
  have hdone : ∃ d ∈ j₁.link.board.queue commandPort, completes d = true := by
    rw [hboard, hqueue, if_pos rfl]
    refine ⟨_, List.mem_append_right _ (List.mem_singleton.2 rfl), ?_⟩
    rw [completes, Board.decode_answer, ← hmarker, ← h.board]
    rfl
  obtain ⟨j₂, hwait, htraffic, hothers⟩ := awaitDone_waiting limit hclear hdone
  refine ⟨j₂, ?_, hclear.of_setting htraffic.setting, ?_, ?_,
    (htraffic.progress.trans hprogress).trans h.progress⟩
  · rw [execute, Host.bind_ok hcommand]
    exact hwait
  · rw [htraffic.board, hboard, Board.quiet_send_command hframe, h.board]
  · rw [hothers _ (by decide), hboard, hqueue, if_neg (by decide), h.pages]

/-- An acknowledged command is carried out. -/
theorem execute_step (h : Waiting j c q ps) (hc : c.Acknowledges) {cmd : Command} {data : Bytes}
    (hframe : cmd.frame = .ok data)
    (hname : cmd.heard.name ∈
      [Command.clearBuffers, Command.setAddress, Command.eraseSector, Command.commit]) :
    ∃ j', execute limit cmd j = (.ok (), j') ∧ Waiting j' (c.obey cmd.heard).quiet q ps :=
  execute_marked limit h hc.speaks hframe (ne_read_of_acknowledged hname) (hc.marker _ hname)

theorem clear_marked (h : Waiting j c q ps) (hc : c.silent = false)
    (hmarker : Command.containsDone (c.reply Command.clearBuffers) = true) :
    ∃ j', clear limit j = (.ok (), j') ∧ Waiting j' { c with buffer := [] } q ps := by
  have hheard : Command.heard { name := Command.clearBuffers } =
      { name := Command.clearBuffers, parameter := 0, second := none } := by decide
  obtain ⟨j', hrun, hj'⟩ := execute_marked limit h hc
    (rfl : Command.frame { name := Command.clearBuffers } = .ok _)
    (by rw [hheard]; decide) (by rw [hheard]; exact hmarker)
  rw [hheard, Board.quiet_obey_clear rfl, h.quiet] at hj'
  exact ⟨j', hrun, hj'⟩

theorem clear_step (h : Waiting j c q ps) (hc : c.Acknowledges) :
    ∃ j', clear limit j = (.ok (), j') ∧ Waiting j' { c with buffer := [] } q ps :=
  clear_marked limit h hc.speaks (hc.marker _ (by decide))

/-- The address is set to what the board hears, which is zero for the sentinel. -/
theorem seek_marked (h : Waiting j c q ps) (hc : c.silent = false)
    (hmarker : Command.containsDone (c.reply Command.setAddress) = true) (a : UInt32) :
    ∃ j', seek limit a j = (.ok (), j') ∧
      Waiting j' { c with address := if a = Command.absentWord then 0 else a } q ps := by
  obtain ⟨data, hframe⟩ := Command.exists_frame
    (c := { name := Command.setAddress, second := some a })
    (by decide : Command.isName Command.setAddress = true)
  have hname : Word.ascii (Word.ofAscii Command.setAddress) = Command.setAddress := by decide
  obtain ⟨j', hrun, hj'⟩ := execute_marked limit h hc hframe
    (by rw [Command.heard, hname]; exact (by decide : Command.setAddress ≠ Command.readFlash))
    (by rw [Command.heard, hname]; exact hmarker)
  have hheard : (Command.heard { name := Command.setAddress, second := some a }).second.getD 0 =
      if a = Command.absentWord then 0 else a := by
    by_cases ha : a = Command.absentWord <;> simp [Command.heard, Option.filter, ha]
  rw [Board.quiet_obey_seek hname, h.quiet, hheard] at hj'
  exact ⟨j', hrun, hj'⟩

theorem seek_step (h : Waiting j c q ps) (hc : c.Acknowledges) {a : UInt32}
    (ha : a ≠ Command.absentWord) :
    ∃ j', seek limit a j = (.ok (), j') ∧ Waiting j' { c with address := a } q ps := by
  have hseek := seek_marked limit h hc.speaks (hc.marker _ (by decide)) a
  rwa [if_neg ha] at hseek

theorem erase_step (h : Waiting j c q ps) (hc : c.Acknowledges) :
    ∃ j', erase limit j = (.ok (), j') ∧ Waiting j' c.eraseSector q ps := by
  obtain ⟨j', hrun, hj'⟩ := execute_step limit h hc
    (rfl : Command.frame { name := Command.eraseSector } = .ok _) (by decide)
  rw [Board.quiet_obey_erase (by decide), h.quiet] at hj'
  exact ⟨j', hrun, hj'⟩

theorem commitPage_step (h : Waiting j c q ps) (hc : c.Acknowledges) :
    ∃ j', commitPage limit j = (.ok (), j') ∧ Waiting j' (c.commit pageWords) q ps := by
  obtain ⟨j', hrun, hj'⟩ := execute_step limit h hc
    (rfl : Command.frame
      { name := Command.commit, parameter := some (UInt8.ofNat pageWords) } = .ok _) (by decide)
  rw [Board.quiet_obey_commit (by decide), h.quiet] at hj'
  exact ⟨j', hrun, hj'⟩

/-- The words of a page go to the write buffer. -/
theorem load_step (h : Waiting j c q ps) (page : List Word) :
    ∃ j', Host.send firmwarePort (Word.encode page) j = (.ok (Word.encode page).length, j') ∧
      Waiting j' { c with buffer := c.buffer ++ page } q ps := by
  obtain ⟨j', hrun, hset, hboard, hprogress⟩ := send_clear h.clear firmwarePort (Word.encode page)
  refine ⟨j', hrun, h.clear.of_setting hset, ?_, ?_, hprogress.trans h.progress⟩
  · rw [hboard, Board.quiet_send_page, h.board, ← h.board]
    rfl
  · rw [hboard, Board.queue_send_of_ne (by decide), h.pages]

end Flash

/-! ## Reading back -/

namespace Board

@[simp] theorem length_readAnswer (b : Board) (n : Nat) : (b.readAnswer n).length = n := by
  unfold readAnswer falsify
  cases b.takeFault.1 <;> simp

/-- The board after a page was committed at an address. -/
def withPage (c : Board) (a : UInt32) (page : List Word) : Board :=
  { c with address := a, flash := c.flash.commit a page, buffer := [] }

/-- Without a fault for the next read, a read takes the one at its address. -/
theorem takeFault_withPage {c : Board} (h : c.fault = none) (a : UInt32) (page : List Word) :
    (c.withPage a page).takeFault = (c.addressFaults[a]?,
      { c.withPage a page with addressFaults := c.addressFaults.erase a }) := by
  unfold takeFault withPage
  simp only [h]

theorem readAnswer_withPage {c : Board} (h : c.fault = none) (a : UInt32) (page : List Word)
    (n : Nat) : (c.withPage a page).readAnswer n =
      c.addressFaults[a]?.elim ((c.flash.commit a page).read a n)
        fun f => falsify f ((c.flash.commit a page).read a n) := by
  rw [readAnswer, takeFault_withPage h]
  cases c.addressFaults[a]? <;> rfl

end Board

namespace Flash

open Exchange

variable {j : Journal Bench} {c : Board} {q : List Bytes} {ps : List (Nat × Nat)}
  (limit : Option Duration)

/-- The words of a datagram that reach the host. -/
def shown (data : Bytes) : List Word := Word.decode (data.take maxDatagram)

/-- A read puts its answer behind the datagrams that wait, and takes the first of them all. -/
theorem readBack_waiting (h : Waiting j c q ps) (hc : c.silent = false) (count : Nat)
    {d : Bytes} {rest : List Bytes}
    (hq : q ++ [Word.encode (c.readAnswer (UInt8.ofNat count).toNat)] = d :: rest) :
    ∃ j', readBack limit count j = (.ok (d.take maxDatagram), j') ∧
      Waiting j' c.takeFault.2 rest ps := by
  obtain ⟨data, hframe⟩ := Command.frame_read (UInt8.ofNat count)
  have hheard := Command.heard_read (UInt8.ofNat count)
  obtain ⟨j₁, hcommand, hset, hboard, hprogress⟩ := command_clear h.clear hframe
  have hclear := h.clear.of_setting hset
  have hsilent := (Board.silent_of_quiet h.board).trans hc
  have hqueue := Board.queue_send_read hframe hsilent (by rw [hheard])
  rw [hheard, h.board] at hqueue
  have hpages : j₁.link.board.queue firmwarePort = d :: rest := by
    rw [hboard, hqueue, if_pos rfl, h.pages]
    exact hq
  obtain ⟨j₂, hreceive, htraffic, hqueue₂⟩ := tryReceive_waiting hclear hpages limit
  refine ⟨j₂, ?_, hclear.of_setting htraffic.setting, ?_, ?_,
    (htraffic.progress.trans hprogress).trans h.progress⟩
  · rw [readBack, Host.bind_ok hcommand, Host.receive_ok hreceive]
  · rw [htraffic.board, hboard, Board.quiet_send_command hframe, h.board, hheard,
      Board.quiet_obey_read rfl, h.quiet]
  · rw [hqueue₂, if_pos rfl]

/-- A page that a read answers reaches the host whole. -/
theorem take_readAnswer (c : Board) (n : UInt8) :
    (Word.encode (c.readAnswer n.toNat)).take maxDatagram =
      Word.encode (c.readAnswer n.toNat) := by
  have := n.toNat_lt
  rw [List.take_of_length_le]
  rw [Word.length_encode, Board.length_readAnswer, maxDatagram]
  omega

/-- A read is answered with as many words as its parameter says. -/
theorem readBack_step (h : AtDesk j c ps) (hc : c.silent = false) (count : Nat) :
    ∃ j', readBack limit count j =
        (.ok (Word.encode (c.readAnswer (UInt8.ofNat count).toNat)), j') ∧
      AtDesk j' c.takeFault.2 ps := by
  obtain ⟨j', hrun, hj'⟩ := readBack_waiting limit h hc count (List.nil_append _)
  rw [take_readAnswer] at hrun
  exact ⟨j', hrun, hj'⟩

/-! ## Pages -/

/-- How a run ends with the verdict on a page. -/
def verdict : Option Mismatch → Except Stop Unit
  | none => .ok ()
  | some found => .error (.error (.verifyMismatch found))

/-- A page is committed whatever the verdict is, and the verdict is on the page that waits first. -/
theorem programPage_waiting (h : Waiting j c q ps) (hc : c.Acknowledges) (hbuffer : c.buffer = [])
    {a : UInt32} (ha : a ≠ Command.absentWord) {page : List Word} (hpage : page.length = pageWords)
    {d : Bytes} {rest : List Bytes}
    (hq : q ++ [Word.encode ((c.withPage a page).readAnswer pageWords)] = d :: rest)
    (sector index : Nat) :
    ∃ j', programPage limit a sector index page j =
        (verdict (compare a sector index page (shown d)), j') ∧
      Waiting j' (c.withPage a page).takeFault.2 rest ps := by
  obtain ⟨j₁, hseek, h₁⟩ := seek_step limit h hc ha
  obtain ⟨j₂, hload, h₂⟩ := load_step h₁ page
  obtain ⟨j₃, hcommit, h₃⟩ := commitPage_step limit h₂ (hc.of_answers rfl rfl)
  have hwritten : Board.commit { c with address := a, buffer := c.buffer ++ page } pageWords =
      c.withPage a page := by
    rw [hbuffer, List.nil_append, ← hpage, Board.commit, List.take_length]
    rfl
  rw [hwritten] at h₃
  obtain ⟨j₄, hread, h₄⟩ := readBack_waiting limit h₃ hc.speaks pageWords hq
  refine ⟨j₄, ?_, h₄⟩
  rw [programPage, Host.bind_ok hseek, Host.bind_ok hload, Host.bind_ok hcommit,
    readPage_eq (Nat.le_refl _), Host.bind_ok hread, ← shown]
  cases compare a sector index page (shown d) <;> rfl

/-- A page is committed whatever the verdict on what is read back. -/
theorem programPage_step (h : AtDesk j c ps) (hc : c.Acknowledges) (hbuffer : c.buffer = [])
    {a : UInt32} (ha : a ≠ Command.absentWord) {page : List Word} (hpage : page.length = pageWords)
    (sector index : Nat) :
    ∃ j', programPage limit a sector index page j =
        (verdict (compare a sector index page ((c.withPage a page).readAnswer pageWords)), j') ∧
      AtDesk j' (c.withPage a page).takeFault.2 ps := by
  obtain ⟨j', hrun, hj'⟩ := programPage_waiting limit h hc hbuffer ha hpage
    (List.nil_append _) sector index
  have hshown : shown (Word.encode ((c.withPage a page).readAnswer pageWords)) =
      (c.withPage a page).readAnswer pageWords := by
    have htake := take_readAnswer (c.withPage a page) (UInt8.ofNat pageWords)
    rw [show (UInt8.ofNat pageWords).toNat = pageWords from rfl] at htake
    rw [shown, htake, Word.decode_encode]
  rw [hshown] at hrun
  exact ⟨j', hrun, hj'⟩

end Flash

/-! ## A bench -/

/-- A bench with an erased flash, and canned answers in place of the marker. -/
def answering (answers : Std.HashMap String (List Word)) : Journal Bench :=
  { link := { horizon := Duration.seconds 1, board := { answers } } }

theorem answering_inStep (answers : Std.HashMap String (List Word)) :
    (answering answers).link.InStep where
  wired := rfl
  sends := rfl
  receives := rfl
  idle := rfl
  speaks := rfl
  commands := by simp [answering, Board.queue]
  pages := by simp [answering, Board.queue]

theorem answering_acknowledges : (answering {}).link.board.Acknowledges where
  speaks := rfl
  marker name _ := by
    rw [Board.reply, answering, Std.HashMap.getD_empty]
    decide

end Readout
