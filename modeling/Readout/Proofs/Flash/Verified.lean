import Readout.Proofs.Bench.Passing
import Readout.Proofs.Flash.Leftover
/-!
# What an operation that went well has written

An operation that goes well has sent everything that it had to send, whatever calls were set to fail
and however long it waited.  Its words lie over what was there.  They are verified if each page is
held against its own reading, and this is so if no page waited when the operation began.

* `Running` is the state between two primitives, `execute_ok`, `load_ok`, `readBack_ok` are the
  primitives when they go well;
* `programPages_ok` are pages; `of_write_ok` takes an operation apart, and `write_ok` puts together
  what it has written;
* `write_staleVerified`: with a page waiting, words are reported as written that are not there.
-/

namespace Readout

/-- The board is wired to the host, and it is `c` but for its traffic. -/
structure Running (j : Journal Bench) (c : Board) : Prop where
  wired : j.link.remote = false
  board : j.link.board.quiet = c

theorem Running.quiet {j : Journal Bench} {c : Board} (h : Running j c) : c.quiet = c := by
  rw [← h.board, Board.quiet_quiet]

namespace Flash

open Exchange

variable {limit : Option Duration} {j j' : Journal Bench} {c : Board} {start : UInt32}

/-! ## Primitives -/

/-- A command that went well was carried out, and it left no page. -/
theorem execute_ok (h : Running j c) {cmd : Command} {data : Bytes} (hframe : cmd.frame = .ok data)
    (hname : cmd.heard.name ≠ Command.readFlash) (hrun : execute limit cmd j = (.ok (), j')) :
    Running j' (c.obey cmd.heard).quiet ∧
      (c.silent = false → j.link.Unread → j'.link.Unread) := by
  obtain ⟨n, j₁, hcommand, hwait⟩ := Host.of_bind_ok hrun
  rw [command, hframe] at hcommand
  obtain ⟨hremote, hschedule, hboard⟩ := send_ok h.wired hcommand
  have hpasses := awaitDone_passes hwait
  refine ⟨⟨hpasses.remote.trans hremote, ?_⟩, fun hc hunread => ?_⟩
  · rw [hpasses.board, hboard, Board.quiet_send_command hframe, h.board]
  · refine hpasses.unread (by decide) ⟨?_, ?_⟩
    · rw [hboard, Board.queue_send_command hframe ((Board.silent_of_quiet h.board).trans hc) hname, if_neg (by decide)]
      exact hunread.pages
    · rw [hschedule]
      exact hunread.due

/-- Words that were sent are in the write buffer. -/
theorem load_ok (h : Running j c) {page : List Word} {n : Nat}
    (hrun : Host.send firmwarePort (Word.encode page) j = (.ok n, j')) :
    Running j' { c with buffer := c.buffer ++ page } ∧ (j.link.Unread → j'.link.Unread) := by
  obtain ⟨hremote, hschedule, hboard⟩ := send_ok h.wired hrun
  refine ⟨⟨hremote, ?_⟩, fun hunread => ⟨?_, ?_⟩⟩
  · rw [hboard, Board.quiet_send_page, ← h.board]
    rfl
  · rw [hboard, Board.queue_send_of_ne (by decide)]
    exact hunread.pages
  · rw [hschedule]
    exact hunread.due

/-- A read that went well took its own page, if none waited. -/
theorem readBack_ok (h : Running j c) {count : Nat} {data : Bytes}
    (hrun : readBack limit count j = (.ok data, j')) :
    Running j' c.takeFault.2 ∧
      (c.silent = false → j.link.Unread →
        data = Word.encode (c.readAnswer (UInt8.ofNat count).toNat) ∧ j'.link.Unread) := by
  obtain ⟨frame, hframe⟩ := Command.frame_read (UInt8.ofNat count)
  have hheard := Command.heard_read (UInt8.ofNat count)
  obtain ⟨n, j₁, hcommand, hreceive⟩ := Host.of_bind_ok hrun
  rw [command, hframe] at hcommand
  obtain ⟨hremote, hschedule, hboard⟩ := send_ok h.wired hcommand
  have hpasses := receive_passes hreceive
  refine ⟨⟨hpasses.remote.trans hremote, ?_⟩, fun hc hunread => ?_⟩
  · rw [hpasses.board, hboard, Board.quiet_send_command hframe, h.board, hheard,
      Board.quiet_obey_read rfl, h.quiet]
  · have hqueue := Board.queue_send_read hframe ((Board.silent_of_quiet h.board).trans hc) (by rw [hheard])
    have hpage : j₁.link.board.queue firmwarePort =
        [Word.encode (c.readAnswer (UInt8.ofNat count).toNat)] := by
      rw [hboard, hqueue, if_pos rfl, hunread.pages, hheard, h.board]
      rfl
    obtain ⟨hdata, hschedule₁, hrest⟩ := receive_ok hpage hreceive
    rw [take_readAnswer] at hdata
    refine ⟨hdata, hrest, ?_⟩
    rw [hschedule₁, hschedule]
    exact hunread.due

/-! ## Pages -/

/-- A page that went well is committed, and it is verified if none waited. -/
theorem programPage_ok (h : Running j c) (hbuffer : c.buffer = []) {a : UInt32}
    (ha : a ≠ Command.absentWord) {page : List Word} (hpage : page.length = pageWords)
    (hfit : a.toNat + 4 * pageWords ≤ 2 ^ 32) {s index : Nat}
    (hrun : programPage limit a s index page j = (.ok (), j')) :
    ∃ c', Running j' c' ∧ c'.buffer = [] ∧ c'.flash = c.flash.commit a page ∧
      (c.silent = false → c.Clean → j.link.Unread →
        c.flash.Accepts a page ∧ c'.silent = false ∧ c'.Clean ∧ j'.link.Unread) := by
  obtain ⟨⟨⟩, j₁, hseek, hrest⟩ := Host.of_bind_ok hrun
  obtain ⟨n, j₂, hload, hrest⟩ := Host.of_bind_ok hrest
  obtain ⟨⟨⟩, j₃, hcommit, hrest⟩ := Host.of_bind_ok hrest
  obtain ⟨data, j₄, hread, hverdict⟩ := Host.of_bind_ok hrest
  have hheard := Command.heard_seek ha
  have hname : Command.setAddress ≠ Command.readFlash := by decide
  obtain ⟨h₁, hunread₁⟩ := execute_ok h (Command.frame_seek ha) (by rw [hheard]; exact hname) hseek
  rw [hheard, Board.quiet_obey_seek rfl, h.quiet] at h₁
  obtain ⟨h₂, hunread₂⟩ := load_ok h₁ hload
  obtain ⟨h₃, hunread₃⟩ := execute_ok h₂
    (rfl : Command.frame
      { name := Command.commit, parameter := some (UInt8.ofNat pageWords) } = .ok _) (by decide)
    hcommit
  have hwritten : Board.commit { c with address := a, buffer := c.buffer ++ page } pageWords =
      c.withPage a page := by
    rw [hbuffer, List.nil_append, ← hpage, Board.commit, List.take_length]
    rfl
  rw [Board.quiet_obey_commit (by decide), h₂.quiet] at h₃
  have h₃' : Running j₃ (c.withPage a page) := hwritten ▸ h₃
  obtain ⟨h₄, hpages⟩ := readBack_ok h₃' hread
  -- the verdict leaves the journal alone
  have hend : compare a s index page (Word.decode data) = none ∧ j' = j₄ := by
    dsimp only at hverdict
    cases hcompare : compare a s index page (Word.decode data) with
    | none =>
      rw [hcompare] at hverdict
      cases hverdict
      exact ⟨rfl, rfl⟩
    | some found =>
      rw [hcompare] at hverdict
      cases hverdict
  obtain ⟨hnone, rfl⟩ := hend
  refine ⟨_, h₄, Board.buffer_takeFault _, Board.flash_takeFault _, fun hc hclean hunread => ?_⟩
  obtain ⟨hdata, hunread₄⟩ := hpages hc (hunread₃ hc (hunread₂ (hunread₁ hc hunread)))
  refine ⟨?_, (Board.silent_takeFault _).trans hc, hclean.withPage a page, hunread₄⟩
  rw [compare_eq_none, hdata, Word.decode_encode, hclean.readAnswer,
    show (UInt8.ofNat pageWords).toNat = page.length from hpage.symm] at hnone
  exact (Nor.read_commit_eq_iff c.flash a page (by rw [hpage]; exact hfit)).1 hnone

/-- Pages that went well are committed one after the other, and all are verified if none waited. -/
theorem programPages_ok (pages : List (List Word)) :
    ∀ (index : Nat) (j : Journal Bench) (c : Board), Running j c → c.buffer = [] →
      (∀ page ∈ pages, page.length = pageWords) →
      start.toNat + pageBytes * (index + pages.length) ≤ 2 ^ 32 →
      programPages limit start index pages j = (.ok (), j') →
      j'.link.board.flash = c.flash.commit (wordAddress start (pageWords * index)) pages.flatten ∧
        (c.silent = false → c.Clean → j.link.Unread →
          c.flash.Accepts (wordAddress start (pageWords * index)) pages.flatten) := by
  induction pages with
  | nil =>
    intro index j c h _ _ _ hrun
    cases hrun
    exact ⟨Board.flash_of_quiet h.board, fun _ _ _ i hi => absurd hi (Nat.not_lt_zero i)⟩
  | cons page pages ih =>
    intro index j c h hbuffer hlen hspan hrun
    have hpage := hlen page List.mem_cons_self
    have hspan₁ : start.toNat + pageBytes * (index + 1) ≤ 2 ^ 32 := span_mono (by simp) hspan
    have hnext := wordAddress_next start index hpage
    have hfit := pages_fit hlen hspan
    rw [programPages_cons limit hspan₁] at hrun
    obtain ⟨⟨⟩, j₁, hfirst, hrest⟩ := Host.of_bind_ok hrun
    obtain ⟨c₁, h₁, hbuffer₁, hflash, hverified⟩ := programPage_ok h hbuffer
      (wordAddress_ne_absentWord hspan₁) hpage (page_fits hspan₁) hfirst
    obtain ⟨hall, haccepts⟩ := ih (index + 1) j₁ c₁ h₁ hbuffer₁
      (fun p hp => hlen p (List.mem_cons_of_mem _ hp))
      (by rw [Nat.add_right_comm]; exact hspan) hrest
    rw [hnext, hflash] at hall haccepts
    refine ⟨?_, fun hc hclean hunread => ?_⟩
    · rw [hall, List.flatten_cons, Nor.commit_append]
    · obtain ⟨hhere, hc₁, hclean₁, hunread₁⟩ := hverified hc hclean hunread
      rw [List.flatten_cons]
      exact Nor.accepts_commit_append _ _ _ _ hfit hhere (haccepts hc₁ hclean₁ hunread₁)

/-! ## Operations -/

/-- An operation that went well was accepted, and all of its parts went well. -/
theorem of_write_ok {words : List Word} {erasing : Bool} {n : Nat}
    (hrun : write limit words start erasing j = (.ok n, j')) :
    start.toNat + pageBytes * pageCount words.length ≤ 2 ^ 32 ∧
      n = pageCount words.length * pageWords ∧
      ∃ j₁ j₂ j₃, clear limit j = (.ok (), j₁) ∧ seek limit start j₁ = (.ok (), j₂) ∧
        (if erasing then erase limit else pure () : Host Bench Unit) j₂ = (.ok (), j₃) ∧
        programPages limit start 0 (pagesOf (pageCount words.length) words) j₃ = (.ok (), j') := by
  rw [write_eq] at hrun
  split at hrun
  · cases hrun
  · obtain ⟨⟨⟩, j₀, hcheck, hparts⟩ := Host.of_bind_ok hrun
    cases hspan : checkSpan start (pageCount words.length) with
    | error e =>
      rw [hspan] at hcheck
      cases hcheck
    | ok u =>
      rw [hspan] at hcheck
      cases hcheck
      obtain ⟨⟨⟩, j₁, hclear, hparts⟩ := Host.of_bind_ok hparts
      obtain ⟨⟨⟩, j₂, hseek, hparts⟩ := Host.of_bind_ok hparts
      obtain ⟨⟨⟩, j₃, herase, hparts⟩ := Host.of_bind_ok hparts
      obtain ⟨⟨⟩, j₄, hpages, hend⟩ := Host.of_bind_ok hparts
      cases hend
      exact ⟨(checkSpan_eq_ok_iff (pageCount_pos _)).1 hspan, rfl, j₁, j₂, j₃, hclear, hseek,
        herase, hpages⟩

/-- What goes before the pages of an operation, if it went well. -/
theorem opening_ok {erasing : Bool} {j₁ j₂ j₃ : Journal Bench} (h : Running j c)
    (hstart : start ≠ Command.absentWord) (hclear : clear limit j = (.ok (), j₁))
    (hseek : seek limit start j₁ = (.ok (), j₂))
    (herase : (if erasing then erase limit else pure () : Host Bench Unit) j₂ = (.ok (), j₃)) :
    ∃ c', Running j₃ c' ∧ c'.buffer = [] ∧ c'.flash = prepared c.flash start erasing ∧
      c'.silent = c.silent ∧ c'.fault = c.fault ∧ c'.addressFaults = c.addressFaults ∧
      (c.silent = false → j.link.Unread → j₃.link.Unread) := by
  have hheard := Command.heard_seek hstart
  have hname : Command.setAddress ≠ Command.readFlash := by decide
  obtain ⟨h₁, hunread₁⟩ := execute_ok h
    (rfl : Command.frame { name := Command.clearBuffers } = .ok _) (by decide) hclear
  rw [Board.quiet_obey_clear (by decide), h.quiet] at h₁
  obtain ⟨h₂, hunread₂⟩ := execute_ok h₁ (Command.frame_seek hstart)
    (by rw [hheard]; exact hname) hseek
  rw [hheard, Board.quiet_obey_seek rfl, h₁.quiet] at h₂
  cases erasing with
  | false =>
    cases herase
    exact ⟨_, h₂, rfl, rfl, rfl, rfl, rfl, fun hc hunread => hunread₂ hc (hunread₁ hc hunread)⟩
  | true =>
    obtain ⟨h₃, hunread₃⟩ := execute_ok h₂
      (rfl : Command.frame { name := Command.eraseSector } = .ok _) (by decide) herase
    rw [Board.quiet_obey_erase (by decide), h₂.quiet] at h₃
    exact ⟨_, h₃, rfl, rfl, rfl, rfl, rfl,
      fun hc hunread => hunread₃ hc (hunread₂ hc (hunread₁ hc hunread))⟩

/-- **What an operation that went well has written.**  In every state, whatever calls are set to
fail: its words lie over what was there, and nothing else has changed.  If the board speaks, no fault
is armed, and no page waited or was due when the operation began, then its words are what the flash
holds. -/
theorem write_ok {words : List Word} {erasing : Bool} {n : Nat} (hwired : j.link.remote = false)
    (hrun : write limit words start erasing j = (.ok n, j')) :
    let old := before j.link.board.flash start erasing
    n = pageCount words.length * pageWords ∧
      j'.link.board.flash.Holds old start n
        (fun i => old (wordAddress start i) &&& padded words i) ∧
      (j.link.board.silent = false → j.link.board.fault = none →
        (∀ a : UInt32, j.link.board.addressFaults[a]? = none) → j.link.Unread →
        ∀ i < n, j'.link.board.flash.word (wordAddress start i) = padded words i) := by
  intro old
  obtain ⟨hspan, rfl, j₁, j₂, j₃, hclear, hseek, herase, hpages⟩ := of_write_ok hrun
  have hstart := start_ne_absentWord (pageCount_pos _) hspan
  obtain ⟨c, h₃, hbuffer, hflash, hsilent, hfault, hfaults, hunread⟩ :=
    opening_ok ⟨hwired, rfl⟩ hstart hclear hseek herase
  obtain ⟨hall, haccepts⟩ := programPages_ok _ 0 j₃ c h₃ hbuffer
    (fun page hpage => length_of_mem_pagesOf hpage)
    (by rw [length_pagesOf, Nat.zero_add]; exact hspan) hpages
  rw [Board.flash_quiet] at hflash
  rw [Nat.mul_zero, wordAddress_zero, pagesOf_eq, flatten_pages, hflash] at hall haccepts
  have hholds := Nor.holds_commit (prepared j.link.board.flash start erasing) start
    (padded words) (pageWords * pageCount words.length)
    (by simp only [pageBytes] at hspan; simp only [pageWords]; omega)
  rw [← hall, word_prepared] at hholds
  refine ⟨rfl, by rw [Nat.mul_comm]; exact hholds, fun hspeaks hnone hnones hquiet i hi => ?_⟩
  have hclean : c.Clean := ⟨hbuffer, hfault.trans hnone, fun a => by rw [hfaults]; exact hnones a⟩
  have hfits := (Nor.accepts_map_range ..).1
    (haccepts (hsilent.trans hspeaks) hclean (hunread hspeaks hquiet))
  rw [Nat.mul_comm] at hi
  rw [hholds.1 i hi, ← word_prepared]
  exact hfits i hi

theorem write_ok_erased :
    ∃ j', write (some (Duration.seconds 5)) [7] 0x10000 true (answering {}) = (.ok 64, j') ∧
      j'.link.board.flash.word 0x10000 = 7 := by
  have hstep := answering_inStep {}
  have hnone : ∀ a : UInt32, (answering {}).link.board.addressFaults[a]? = none :=
    fun a => Std.HashMap.getElem?_empty
  obtain ⟨j', hrun, -⟩ := write_erased (some (Duration.seconds 5)) hstep.toClear
    answering_acknowledges rfl hnone hstep.pages
    (by decide : (0x10000 : UInt32).toNat % sectorBytes +
      pageBytes * pageCount [(7 : Word)].length ≤ sectorBytes)
  have hunread : (answering {}).link.Unread := ⟨hstep.pages, fun d hd => by cases hd⟩
  obtain ⟨-, -, hverified⟩ := write_ok rfl hrun
  exact ⟨j', hrun, hverified rfl rfl hnone hunread 0 (by decide)⟩

/-- A flash that holds 7 at one address and 0 at another. -/
def stocked : Nor := ⟨(({} : Std.HashMap UInt32 Word).insert 0 7).insert 0x10000 0⟩

theorem word_stocked (a : UInt32) :
    stocked.word a = if 0x10000 = a then 0 else if 0 = a then 7 else erasedWord := by
  simp only [stocked, Nor.word, Std.HashMap.getD_insert, Std.HashMap.getD_empty, beq_iff_eq]

/-- The page of a dump that failed is taken for the page of the operation after it: the operation
goes well, although its word is not in the flash. -/
theorem write_staleVerified :
    ∃ j₁ j₂, dump (some (Duration.seconds 5)) 0 64 (cutAtPage stocked) =
        (.error (.error (.transport "link down")), j₁) ∧
      j₁.link.board.silent = false ∧ j₁.link.board.fault = none ∧
      (∀ a : UInt32, j₁.link.board.addressFaults[a]? = none) ∧
      write (some (Duration.seconds 5)) [7] 0x10000 false j₁ = (.ok 64, j₂) ∧
      j₂.link.board.flash.word 0x10000 ≠ padded [7] 0 := by
  obtain ⟨j₁, c, hdump, h, hc, hfault, hfaults, hflash⟩ := dump_cut (some (Duration.seconds 5))
    (cutAtPage_cut stocked) (answering_acknowledges.of_answers rfl rfl) rfl
    (fun a => Std.HashMap.getElem?_empty) (by decide : (0 : UInt32).toNat + pageBytes ≤ 2 ^ 32)
  obtain ⟨j₂, hwrite, hafter⟩ := write_page (some (Duration.seconds 5)) h hc hfault hfaults
    (by decide : [(7 : Word)].length ≤ pageWords)
    (by decide : (0x10000 : UInt32).toNat + pageBytes ≤ 2 ^ 32) false
  have hread : stocked.read 0 pageWords = pageAt [7] 0 := by
    rw [Nor.read_eq, pageAt, List.map_inj_left]
    simp only [word_stocked]
    decide
  have hcompare : compare 0x10000 0 0 (pageAt [7] 0)
      (shown (Word.encode (stocked.read 0 pageWords))) = none := by
    rw [compare_eq_none, shown_encode (Nor.length_read ..), hread]
  have hword : j₂.link.board.flash.word 0x10000 = stocked.word 0x10000 &&& padded [7] 0 := by
    rw [hafter, hflash]
    exact (Nor.holds_commit stocked 0x10000 (fun i => padded [7] (pageWords * 0 + i)) pageWords
      (by decide)).1 0 (by decide)
  rw [hcompare] at hwrite
  have hboard := h.board
  subst hboard
  refine ⟨j₁, j₂, hdump, hc.speaks, hfault, hfaults, hwrite, ?_⟩
  rw [hword, word_stocked]
  decide

end Flash

end Readout
