import Readout.Proofs.Flash.HandedOver
import Readout.Proofs.Flash.Steps
/-!
# Dumps on the bench

A board that acknowledges what comes before a read answers every request, so that a dump gets all
its words.  The address of the next page is set after each full page, also after the last one.  If
the full pages end with the address space there is no such page, and the dump is refused when
everything is handed over.

* `Ready` is the bench between two steps of a dump, `Reads` what a run of steps hands over;
* `clear_ready`, `seek_ready`, `request_reads` are the steps, `dumpPages_reads` is the loop;
* `dump_outcome`: a dump below the top of the address space hands over what the flash holds;
* `dump_span` says which dumps are refused, and when; `dump_lastPage` is one of the last page.
-/

namespace Readout

namespace Board

/-- The board answers what a dump asks of it: it speaks, and its answers to the commands that come
before a read hold the marker in the part that reaches the host. -/
structure Readable (b : Board) : Prop where
  speaks : b.silent = false
  clears : Command.containsDone (b.reply Command.clearBuffers) = true
  seeks : Command.containsDone (b.reply Command.setAddress) = true

theorem Acknowledges.readable {b : Board} (h : b.Acknowledges) : b.Readable where
  speaks := h.speaks
  clears := h.marker _ (by decide)
  seeks := h.marker _ (by decide)

theorem Readable.of_answers {b b' : Board} (h : b.Readable) (hs : b'.silent = b.silent)
    (ha : b'.answers = b.answers) : b'.Readable := by
  have hreply : ∀ name, b'.reply name = b.reply name := by
    intro name
    rw [reply, reply, ha]
  constructor
  · exact hs.trans h.speaks
  · rw [hreply]
    exact h.clears
  · rw [hreply]
    exact h.seeks

/-- No fault is armed. -/
structure Unfaulted (b : Board) : Prop where
  fault : b.fault = none
  addressFaults : ∀ a : UInt32, b.addressFaults[a]? = none

theorem Unfaulted.of_faults {b b' : Board} (h : b.Unfaulted) (hf : b'.fault = b.fault)
    (ha : b'.addressFaults = b.addressFaults) : b'.Unfaulted where
  fault := hf.trans h.fault
  addressFaults a := by rw [ha, h.addressFaults a]

theorem Unfaulted.takeFault {b : Board} (h : b.Unfaulted) : b.takeFault.2.Unfaulted := by
  unfold Board.takeFault
  simp only [h.fault]
  constructor
  · rfl
  · intro a
    simp [Std.HashMap.getElem?_erase, h.addressFaults a]

theorem Unfaulted.readAnswer {b : Board} (h : b.Unfaulted) (n : Nat) :
    b.readAnswer n = b.flash.read b.address n := by
  unfold Board.readAnswer Board.takeFault
  simp only [h.fault, h.addressFaults b.address]

end Board

/-- A run of words is read in pieces. -/
theorem Nor.read_append (f : Nor) (start : UInt32) (n m : Nat) :
    f.read start (n + m) = f.read start n ++ f.read (Flash.wordAddress start n) m := by
  rw [read_eq, read_eq, read_eq, List.range_add, List.map_append, List.map_map]
  simp only [Flash.wordAddress_wordAddress]
  rfl

namespace Flash

variable (limit : Option Duration) {f : Nor} {sound : Prop} {j j' : Journal Bench}

/-! ## Steps of a dump -/

/-- The bench between two steps of a dump of the flash `f`: nothing hinders the host, the board
answers, and no page waits.  If the dump is sound, no fault is armed. -/
structure Ready (f : Nor) (sound : Prop) (j : Journal Bench) : Prop where
  clear : j.link.Clear
  answers : j.link.board.Readable
  pages : j.link.board.queue firmwarePort = []
  flash : j.link.board.flash = f
  unfaulted : sound → j.link.board.Unfaulted

namespace Ready

theorem desk (h : Ready f sound j) : AtDesk j j.link.board.quiet j.progress :=
  ⟨h.clear, rfl, h.pages, rfl⟩

/-- What a step leaves on the desk is a board that answers as before. -/
theorem of_desk {c : Board} {ps : List (Nat × Nat)} (h : Ready f sound j) (hdesk : AtDesk j' c ps)
    (hs : c.silent = j.link.board.silent) (ha : c.answers = j.link.board.answers)
    (hf : c.flash = j.link.board.flash) (hc : sound → c.Unfaulted) : Ready f sound j' := by
  obtain ⟨hclear, rfl, hpages, -⟩ := hdesk
  exact ⟨hclear, h.answers.of_answers hs ha, hpages, hf.trans h.flash,
    fun hsound => (hc hsound).of_faults rfl rfl⟩

end Ready

/-- The board points at a page, if the page fits. -/
def PointsAt (start : UInt32) (index : Nat) (j : Journal Bench) : Prop :=
  start.toNat + pageBytes * (index + 1) ≤ 2 ^ 32 →
    j.link.board.address = wordAddress start (pageWords * index)

/-- A run whose events hand nothing over. -/
theorem handed_of_only {α : Type} {m : Host Bench α} (hm : Only (fun e => e.bytes = []) m)
    {r : Except Stop α} (hrun : m j = (r, j')) :
    handed j'.events.toList = handed j.events.toList := by
  obtain ⟨new, hnew, hes, -⟩ := hm j
  rw [hrun] at hnew
  rw [hnew, handed_append, handed_eq_nil hes, List.append_nil]

theorem clear_ready (h : Ready f sound j) :
    ∃ j', clear limit j = (.ok (), j') ∧ Ready f sound j' ∧
      handed j'.events.toList = handed j.events.toList := by
  obtain ⟨j', hrun, hdesk⟩ := clear_marked limit h.desk h.answers.speaks h.answers.clears
  exact ⟨j', hrun, h.of_desk hdesk rfl rfl rfl fun hs => (h.unfaulted hs).of_faults rfl rfl,
    handed_of_only (only_clear.mono fun _ he => he.bytes) hrun⟩

/-- The address of a page is set. -/
theorem seek_ready (h : Ready f sound j) (start : UInt32) (index : Nat) :
    ∃ j', seek limit (wordAddress start (pageWords * index)) j = (.ok (), j') ∧
      Ready f sound j' ∧ PointsAt start index j' ∧
      handed j'.events.toList = handed j.events.toList := by
  obtain ⟨j', hrun, hdesk⟩ := seek_marked limit h.desk h.answers.speaks h.answers.seeks
    (wordAddress start (pageWords * index))
  have hpoints : PointsAt start index j' := by
    intro hfit
    rw [← Board.address_quiet, hdesk.board]
    exact if_neg (wordAddress_ne_absentWord hfit)
  exact ⟨j', hrun, h.of_desk hdesk rfl rfl rfl fun hs => (h.unfaulted hs).of_faults rfl rfl,
    hpoints, handed_of_only ((only_seek _).mono fun _ he => he.bytes) hrun⟩

/-- Between two journals the words of the flash from an address on are handed over. -/
structure Reads (f : Nor) (sound : Prop) (a : UInt32) (n : Nat) (j j' : Journal Bench) : Prop where
  ready : Ready f sound j'
  handed : ∃ ws : List Word, ws.length = n ∧ (sound → ws = f.read a n) ∧
    handed j'.events.toList = handed j.events.toList ++ Word.encode ws

namespace Reads

theorem refl (h : Ready f sound j) (a : UInt32) : Reads f sound a 0 j j :=
  ⟨h, [], rfl, fun _ => rfl, (List.append_nil _).symm⟩

/-- A step that hands nothing over goes before. -/
theorem after {a : UInt32} {n : Nat} {j₁ : Journal Bench} (h : Reads f sound a n j₁ j')
    (hj : Readout.handed j₁.events.toList = Readout.handed j.events.toList) :
    Reads f sound a n j j' :=
  ⟨h.ready, by rw [← hj]; exact h.handed⟩

theorem trans {a : UInt32} {n m : Nat} {j₁ : Journal Bench} (h : Reads f sound a n j j₁)
    (h' : Reads f sound (wordAddress a n) m j₁ j') : Reads f sound a (n + m) j j' := by
  obtain ⟨ws, hlen, hws, hhanded⟩ := h.handed
  obtain ⟨ws', hlen', hws', hhanded'⟩ := h'.handed
  refine ⟨h'.ready, ws ++ ws', ?_, ?_, ?_⟩
  · rw [List.length_append, hlen, hlen']
  · intro hs
    rw [hws hs, hws' hs, Nor.read_append]
  · rw [hhanded', hhanded, List.append_assoc, Word.encode_append]

end Reads

/-- What a read takes is not handed over yet. -/
theorem only_readBack (count : Nat) :
    Only (fun e => e.bytes = []) (readBack limit count : Host Bench Bytes) := by
  obtain ⟨frame, hframe⟩ := Command.frame_read (UInt8.ofNat count)
  rw [readBack, Exchange.command, hframe]
  apply Only.bind
  · apply (only_send commandPort frame).mono
    rintro e ⟨result, rfl⟩
    rfl
  · intro n
    apply (only_receive firmwarePort limit).mono
    rintro e ⟨result, rfl⟩
    rfl

/-- A request hands over as many words as it asks for. -/
theorem request_reads (h : Ready f sound j) {count : Nat} (hcount : count < 256) {a : UInt32}
    (ha : j.link.board.address = a) :
    ∃ j', request limit count j = (.ok count, j') ∧ Reads f sound a count j j' := by
  obtain ⟨j₁, hrun, hdesk⟩ := readBack_step limit h.desk h.answers.speaks count
  have hparameter : (UInt8.ofNat count).toNat = count := by
    rw [UInt8.toNat_ofNat']
    omega
  rw [hparameter, Board.readAnswer_quiet] at hrun
  have hready : Ready f sound j₁ := by
    refine h.of_desk hdesk (Board.silent_takeFault _) (Board.answers_takeFault _)
      (Board.flash_takeFault _) fun hs => ?_
    have hquiet : j.link.board.quiet.Unfaulted := (h.unfaulted hs).of_faults rfl rfl
    exact hquiet.takeFault
  have hlen : (Word.encode (j.link.board.readAnswer count)).length = 4 * count := by
    rw [Word.length_encode, Board.length_readAnswer]
  refine ⟨⟨j₁.link, j₁.events.push (.stored (Word.encode (j.link.board.readAnswer count)))⟩, ?_,
    ⟨hready.clear, hready.answers, hready.pages, hready.flash, hready.unfaulted⟩,
    j.link.board.readAnswer count, Board.length_readAnswer _ _, ?_, ?_⟩
  · have hwords : min ((Word.encode (j.link.board.readAnswer count)).length / 4) count = count := by
      rw [hlen]
      omega
    rw [request, Host.bind_ok hrun, handOver, hwords, Nat.mul_comm, ← hlen, List.take_length]
    exact Host.bind_ok (Host.note_apply _ _)
  · intro hs
    rw [(h.unfaulted hs).readAnswer, h.flash, ha]
  · rw [Array.toList_push, handed_append, handed_of_only (only_readBack limit count) hrun]
    simp [Event.bytes]

/-! ## Pages -/

variable {start : UInt32}

/-- How a run of full pages ends when it is answered.  Behind the last page there is an address, or
the pages end with the address space. -/
def pagesEnd (start : UInt32) (pages words : Nat) : Except Stop Nat :=
  if start.toNat + pageBytes * pages = 2 ^ 32 then
    .error (.error (.invalidParameter (.pagePastEnd pages start)))
  else .ok words

/-- Words that were handed over before count as well. -/
theorem bind_pagesEnd {m : Host Bench Nat} {pages words : Nat} (k : Nat)
    (h : m j = (pagesEnd start pages words, j')) :
    (m >>= fun rest => pure (k + rest)) j = (pagesEnd start pages (k + words), j') := by
  unfold pagesEnd at h ⊢
  split at h
  · rw [Host.bind_error h, if_pos ‹_›]
  · rw [Host.bind_ok h, if_neg ‹_›]
    rfl

/-- Full pages are handed over, and the board points behind the last of them. -/
theorem dumpPages_reads (n : Nat) : ∀ {i : Nat} {j : Journal Bench}, Ready f sound j →
    PointsAt start i j → start.toNat + pageBytes * i < 2 ^ 32 →
    start.toNat + pageBytes * (i + n) ≤ 2 ^ 32 →
    ∃ j', dumpPages limit start i n j = (pagesEnd start (i + n) (pageWords * n), j') ∧
      Reads f sound (wordAddress start (pageWords * i)) (pageWords * n) j j' ∧
      PointsAt start (i + n) j' := by
  induction n with
  | zero =>
    intro i j h hpoints hi hspan
    refine ⟨j, ?_, Reads.refl h _, hpoints⟩
    rw [pagesEnd, Nat.add_zero, if_neg (Nat.ne_of_lt hi)]
    rfl
  | succ n ih =>
    intro i j h hpoints hi hspan
    have hfit : start.toNat + pageBytes * (i + 1) ≤ 2 ^ 32 := span_mono (by omega) hspan
    have hindex : i + 1 + n = i + (n + 1) := by omega
    have hwords : pageWords * (n + 1) = pageWords + pageWords * n := by
      rw [Nat.mul_succ, Nat.add_comm]
    obtain ⟨j₁, hrequest, hread⟩ := request_reads limit h
      (by decide : pageWords < 256) (hpoints hfit)
    rw [dumpPages_succ, Host.bind_ok hrequest, dumpRest]
    rcases Nat.lt_or_eq_of_le hfit with hnext | htop
    · obtain ⟨j₂, hseek, hready, hpoints₂, hnone⟩ := seek_ready limit
        hread.ready start (i + 1)
      obtain ⟨j₃, hpages, hrest, hpoints₃⟩ := ih hready hpoints₂ hnext
        (by rw [hindex]; exact hspan)
      rw [hindex] at hpages hpoints₃
      refine ⟨j₃, ?_, ?_, hpoints₃⟩
      · rw [pageAddress_eq_ok hnext, Host.ofExcept_ok, pure_bind, hwords]
        exact bind_pagesEnd pageWords (by rw [Host.bind_ok hseek, hpages])
      · rw [Nat.mul_succ, ← wordAddress_wordAddress] at hrest
        rw [hwords]
        exact hread.trans (hrest.after hnone)
    · -- no page can follow, and there is no address behind this one
      obtain rfl : n = 0 := by
        simp only [pageBytes] at hspan htop
        omega
      refine ⟨j₁, ?_, hread, fun hbehind => ?_⟩
      · rw [pageAddress_eq_error (Nat.le_of_eq htop.symm), pagesEnd, if_pos htop]
        rfl
      · simp only [pageBytes] at hbehind htop
        omega

/-- A dump that fits is answered to its end. -/
theorem dump_reads (h : Ready f sound j) {words : Nat}
    (hspan : start.toNat + pageBytes * pageCount words ≤ 2 ^ 32) :
    ∃ j', dump limit start words j = (pagesEnd start (words / pageWords) words, j') ∧
      Reads f sound start words j j' := by
  obtain ⟨j₁, hclear, h₁, hnone₁⟩ := clear_ready limit h
  obtain ⟨j₂, hseek, h₂, hpoints₂, hnone₂⟩ := seek_ready limit h₁ start 0
  rw [Nat.mul_zero, wordAddress_zero] at hseek
  have hfull : start.toNat + pageBytes * (0 + words / pageWords) ≤ 2 ^ 32 := by
    simp only [pageCount, groups, pageBytes, pageWords] at hspan ⊢
    omega
  obtain ⟨j₃, hpages, hread, hpoints₃⟩ :=
    dumpPages_reads limit (words / pageWords) h₂ hpoints₂ start.toNat_lt hfull
  rw [Nat.zero_add] at hpages hpoints₃
  rw [Nat.mul_zero, wordAddress_zero] at hread
  have hbefore := (hread.after hnone₂).after hnone₁
  rw [dump_fits hspan, dumpParts, Host.bind_ok hclear, Host.bind_ok hseek]
  by_cases hrem : words % pageWords = 0
  · have hwords : pageWords * (words / pageWords) = words := by
      rw [Nat.mul_div_cancel' (Nat.dvd_of_mod_eq_zero hrem)]
    rw [hwords] at hpages hbefore
    simp only [hrem, if_true, bind_pure]
    exact ⟨j₃, hpages, hbefore⟩
  · -- the words that remain lie on a page behind the full ones, and there the board points
    have hlast : start.toNat + pageBytes * (words / pageWords + 1) ≤ 2 ^ 32 := by
      simp only [pageCount, groups, pageBytes, pageWords] at hspan hrem ⊢
      omega
    have hbelow : start.toNat + pageBytes * (words / pageWords) ≠ 2 ^ 32 := by
      simp only [pageBytes] at hlast ⊢
      omega
    obtain ⟨j₄, hrequest, hrest⟩ := request_reads limit hread.ready
      (Nat.lt_trans (Nat.mod_lt words (by decide : 0 < pageWords)) (by decide)) (hpoints₃ hlast)
    rw [pagesEnd, if_neg hbelow] at hpages ⊢
    refine ⟨j₄, ?_, ?_⟩
    · simp only [hrem, if_false]
      rw [Host.bind_ok hpages, Host.bind_ok hrequest, Host.pure_apply, Nat.div_add_mod]
    · have hall := hbefore.trans hrest
      rwa [Nat.div_add_mod] at hall

/-! ## Dumps -/

/-- A dump that fits makes all its requests, and as many words are handed over as it wants. -/
theorem dump_answered {j : Journal Bench} (hclear : j.link.Clear) (hanswers : j.link.board.Readable)
    (hqueue : j.link.board.queue firmwarePort = []) {words : Nat}
    (hspan : start.toNat + pageBytes * pageCount words ≤ 2 ^ 32) :
    ∃ j' new, dump limit start words j = (pagesEnd start (words / pageWords) words, j') ∧
      j'.events.toList = j.events.toList ++ new ∧ asked new = requests words ∧
      j'.link.board.flash = j.link.board.flash ∧
      ∃ ws : List Word, ws.length = words ∧ handed new = Word.encode ws ∧
        (j.link.board.Unfaulted → ws = j.link.board.flash.read start words) := by
  obtain ⟨j', hrun, hready, ws, hlen, hws, hhanded⟩ := dump_reads limit
    (⟨hclear, hanswers, hqueue, rfl, id⟩ : Ready j.link.board.flash j.link.board.Unfaulted j) hspan
  have hadds : Adds (dump limit start words : Host Bench Nat) _ := adds_dump hspan
  obtain ⟨new, hnew, hadded⟩ := hadds j
  rw [hrun] at hnew hadded
  have hall : (readbacks new).length = (requests words).length := by
    unfold pagesEnd at hadded
    split at hadded
    · obtain ⟨cause, hcause⟩ | hpast := hadded.fails _ rfl
      · cases cause <;> cases hcause
      · exact hpast.1
    · exact (hadded.value _ rfl).1
  rw [hnew, handed_append, List.append_cancel_left_eq] at hhanded
  exact ⟨j', new, hrun, hnew,
    hadded.requested.eq_of_length_le (by rw [← hall]; exact hadded.answered), hready.flash,
    ws, hlen, hhanded, hws⟩

/-- **A dump of a board.**  The board answers what a dump asks of it, no fault is armed, and no page
waits.  Below the top of the address space a dump hands over the words that the flash holds, with a
request for each full page and one for the words that remain, and it leaves the flash alone. -/
theorem dump_outcome {j : Journal Bench} (hclear : j.link.Clear) (hanswers : j.link.board.Readable)
    (hfaults : j.link.board.Unfaulted) (hqueue : j.link.board.queue firmwarePort = [])
    {words : Nat} (hspan : start.toNat + pageBytes * pageCount words < 2 ^ 32) :
    ∃ j' new, dump limit start words j = (.ok words, j') ∧
      j'.events.toList = j.events.toList ++ new ∧
      handed new = Word.encode
        ((List.range words).map fun i => j.link.board.flash.word (wordAddress start i)) ∧
      asked new = requests words ∧ j'.link.board.flash = j.link.board.flash := by
  obtain ⟨j', new, hrun, hnew, hasked, hflash, ws, -, hhanded, hws⟩ :=
    dump_answered limit hclear hanswers hqueue (Nat.le_of_lt hspan)
  have hbelow : start.toNat + pageBytes * (words / pageWords) ≠ 2 ^ 32 := by
    simp only [pageCount, groups, pageBytes, pageWords] at hspan ⊢
    omega
  rw [pagesEnd, if_neg hbelow] at hrun
  refine ⟨j', new, hrun, hnew, ?_, hasked, hflash⟩
  rw [hhanded, hws hfaults, Nor.read_eq]

theorem answering_unfaulted (answers : Std.HashMap String (List Word)) :
    (answering answers).link.board.Unfaulted where
  fault := rfl
  addressFaults _ := Std.HashMap.getElem?_empty

theorem dump_outcome_erased :
    ∃ j' new, dump none 0x100 65 (answering {}) = (.ok 65, j') ∧ j'.events.toList = new ∧
      handed new = Word.encode (List.replicate 65 erasedWord) ∧ asked new = [64, 1] := by
  have hstep := answering_inStep {}
  obtain ⟨j', new, hrun, hnew, hhanded, hasked, -⟩ := dump_outcome none
    hstep.toClear answering_acknowledges.readable (answering_unfaulted {}) hstep.pages
    (by decide : (0x100 : UInt32).toNat + pageBytes * pageCount 65 < 2 ^ 32)
  have herased : ∀ a, (answering {}).link.board.flash.word a = erasedWord :=
    fun a => Std.HashMap.getD_empty
  refine ⟨j', new, hrun, hnew, ?_, hasked⟩
  rw [hhanded, List.map_congr_left fun i _ => herased _, List.map_const', List.length_range]

/-- **Which dumps are refused.**  A dump whose pages do not fit is refused before anything is done.
One that fits is refused only if its full pages end with the address space, and then all of them
were read.  On a board that answers, a dump that fits hands over all its words, and it goes well
unless its full pages end with the address space. -/
theorem dump_span (start : UInt32) (words : Nat) :
    (2 ^ 32 < start.toNat + pageBytes * pageCount words → ∀ {σ : Type} [Link σ] (j : Journal σ),
      ∃ cause, dump limit start words j = (.error (.error (.invalidParameter cause)), j)) ∧
    (start.toNat + pageBytes * pageCount words ≤ 2 ^ 32 →
      (∀ {σ : Type} [Link σ] (j : Journal σ) (cause : InvalidParameter),
        (dump limit start words j).1 = .error (.error (.invalidParameter cause)) →
          start.toNat + pageBytes * (words / pageWords) = 2 ^ 32 ∧
            cause = .pagePastEnd (words / pageWords) start ∧
            ∃ new, (dump limit start words j).2.events.toList = j.events.toList ++ new ∧
              (readbacks new).length = words / pageWords) ∧
      ∀ j : Journal Bench, j.link.Clear → j.link.board.Readable →
        j.link.board.queue firmwarePort = [] →
          ∃ new, (dump limit start words j).2.events.toList = j.events.toList ++ new ∧
            (handed new).length = 4 * words ∧
            (dump limit start words j).1 = pagesEnd start (words / pageWords) words) := by
  refine ⟨fun h σ _ j => dump_misfit h j, fun hspan => ⟨fun {σ} _ j cause h => ?_,
    fun j hclear hanswers hqueue => ?_⟩⟩
  · obtain ⟨⟨htop, hcause⟩, hnew⟩ := dump_refused hspan h
    cases hcause
    exact ⟨htop, rfl, hnew⟩
  · obtain ⟨j', new, hrun, hnew, -, -, ws, hlen, hhanded, -⟩ :=
      dump_answered limit hclear hanswers hqueue hspan
    rw [hrun]
    exact ⟨new, hnew, by rw [hhanded, Word.length_encode, hlen], rfl⟩

/-- The last page of the address space can be read in part. -/
theorem dump_span_part : (dump none 0xFFFFFE00 65 (answering {})).1 = .ok 65 := by
  have hstep := answering_inStep {}
  obtain ⟨new, -, -, hends⟩ := ((dump_span none 0xFFFFFE00 65).2 (by decide)).2 (answering {})
    hstep.toClear answering_acknowledges.readable hstep.pages
  have hbelow : (0xFFFFFE00 : UInt32).toNat + pageBytes * (65 / pageWords) ≠ 2 ^ 32 := by decide
  rw [hends, pagesEnd, if_neg hbelow]

/-- The last page of the address space is refused when it is read: its request was made and its
bytes are handed over. -/
theorem dump_lastPage :
    (0xFFFFFF00 : UInt32).toNat + pageBytes * pageCount 64 ≤ 2 ^ 32 ∧
      ∃ j', dump none 0xFFFFFF00 64 (answering {}) =
          (.error (.error (.invalidParameter (.pagePastEnd 1 0xFFFFFF00))), j') ∧
        asked j'.events.toList = [64] ∧ (handed j'.events.toList).length = 256 := by
  have hstep := answering_inStep {}
  have hspan : (0xFFFFFF00 : UInt32).toNat + pageBytes * pageCount 64 ≤ 2 ^ 32 := by decide
  obtain ⟨j', new, hrun, hnew, hasked, -, ws, hlen, hhanded, -⟩ := dump_answered none
    hstep.toClear answering_acknowledges.readable hstep.pages hspan
  have hevents : j'.events.toList = new := hnew
  have htop : (0xFFFFFF00 : UInt32).toNat + pageBytes * (64 / pageWords) = 2 ^ 32 := by decide
  rw [pagesEnd, if_pos htop] at hrun
  refine ⟨hspan, j', hrun, by rw [hevents]; exact hasked, ?_⟩
  rw [hevents, hhanded, Word.length_encode, hlen]

end Flash

end Readout
