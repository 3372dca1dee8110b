import Readout.Flash.Dump
import Readout.Proofs.Flash.Write
/-!
# Operations that find pages waiting

A read that is cut short leaves its page on the firmware port, and nothing takes it away.  The next
operation receives it in place of the page that it has written, and each of its reads leaves a page
in turn.  Whatever else an operation leaves behind does not matter to the next one: it clears the
buffer and sets its own addresses, and any marker that waits acknowledges as well as its own.

* `programPages_leftover`: programming goes well exactly if the pages are what waits, as far as that
  goes, and then their own readings;
* `write_leftover` says so of a whole operation on an erased sector;
* `dump_cut`: how a page comes to be left, and `write_afterCut`: the operation after it fails.
-/

namespace Readout

namespace Flash

variable (limit : Option Duration) {ps : List (Nat × Nat)} {q : List Bytes} {start : UInt32}

/-! ## Pages -/

/-- A page reaches the host whole. -/
theorem shown_encode {page : List Word} (h : page.length = pageWords) :
    shown (Word.encode page) = page := by
  rw [shown, List.take_of_length_le, Word.decode_encode]
  rw [Word.length_encode, h]
  decide

/-- A page that the flash accepts is read back as it is, behind what waits. -/
theorem programPage_leftover {j : Journal Bench} {c : Board} (h : Waiting j c q ps)
    (hc : c.Acknowledges) (hclean : c.Clean) {index : Nat} {page : List Word}
    (hpage : page.length = pageWords) (hspan : start.toNat + pageBytes * (index + 1) ≤ 2 ^ 32)
    {a : UInt32} (ha : a = wordAddress start (pageWords * index)) (haccepts : c.flash.Accepts a page)
    {d : Bytes} {rest : List Bytes} (hq : q ++ [Word.encode page] = d :: rest) :
    ∃ j' c', programPage limit a (sector a - sector start) index page j =
        (verdict (compare a (sector a - sector start) index page (shown d)), j') ∧
      Waiting j' c' rest ps ∧ c'.Acknowledges ∧ c'.Clean ∧
      c'.flash = c.flash.commit a page := by
  have hne : a ≠ Command.absentWord := ha ▸ wordAddress_ne_absentWord hspan
  have hfit : a.toNat + 4 * page.length ≤ 2 ^ 32 := by
    rw [ha, hpage]
    exact page_fits hspan
  have hread : (c.withPage a page).readAnswer pageWords = page := by
    have hback := (Nor.read_commit_eq_iff c.flash a page hfit).2 haccepts
    rw [hclean.readAnswer, ← hpage, hback]
  have hafter := Board.takeFault_withPage hclean.fault a page
  obtain ⟨j', hrun, hj'⟩ := programPage_waiting limit h hc hclean.buffer hne hpage
    (by rw [hread, hq]) (sector a - sector start) index
  exact ⟨j', _, hrun, hj', hc.of_answers (by rw [hafter]; rfl) (by rw [hafter]; rfl),
    hclean.withPage a page, by rw [hafter]; rfl⟩

/-- One page of the operation is held against the first page that waits, the others against those
behind it. -/
theorem prefix_waiting {page : List Word} {pages : List (List Word)} {d : Bytes} {rest : List Bytes}
    (hpage : page.length = pageWords) (hq : q ++ [Word.encode page] = d :: rest) :
    page :: pages <+: q.map shown ++ page :: pages ↔
      shown d = page ∧ pages <+: rest.map shown ++ pages := by
  have hmap : q.map shown ++ [page] = shown d :: rest.map shown := by
    have hshown := congrArg (List.map shown) hq
    rw [List.map_append, List.map_singleton, shown_encode hpage] at hshown
    exact hshown
  have happend : q.map shown ++ page :: pages = shown d :: (rest.map shown ++ pages) := by
    rw [← List.singleton_append, ← List.append_assoc, hmap, List.cons_append]
  rw [happend, List.cons_prefix_cons, eq_comm]

/-- **Programming pages that the flash accepts, with pages waiting.**  Each page is held against the
page that comes in next: first those that wait, then the readings of this operation. -/
theorem programPages_leftover (pages : List (List Word)) :
    ∀ (index : Nat) (q : List Bytes) (j : Journal Bench) (c : Board), Waiting j c q ps →
      c.Acknowledges → c.Clean → (∀ page ∈ pages, page.length = pageWords) →
      start.toNat + pageBytes * (index + pages.length) ≤ 2 ^ 32 →
      c.flash.Accepts (wordAddress start (pageWords * index)) pages.flatten →
      ∃ r j', programPages limit start index pages j = (r, j') ∧
        (pages <+: q.map shown ++ pages ∧ r = .ok () ∧ j'.link.board.flash =
            c.flash.commit (wordAddress start (pageWords * index)) pages.flatten ∨
          ¬ pages <+: q.map shown ++ pages ∧
            ∃ found, r = .error (.error (.verifyMismatch found))) := by
  induction pages with
  | nil =>
    intro index q j c h _ _ _ _ _
    exact ⟨.ok (), j, rfl, .inl ⟨List.nil_prefix, rfl, Board.flash_of_quiet h.board⟩⟩
  | cons page pages ih =>
    intro index q j c h hc hclean hlen hspan haccepts
    have hpage := hlen page List.mem_cons_self
    have hspan₁ : start.toNat + pageBytes * (index + 1) ≤ 2 ^ 32 := span_mono (by simp) hspan
    have hnext := wordAddress_next start index hpage
    have hfit := pages_fit hlen hspan
    rw [List.flatten_cons, Nor.accepts_append] at haccepts
    obtain ⟨d, rest, hq⟩ : ∃ d rest, q ++ [Word.encode page] = d :: rest :=
      List.exists_cons_of_ne_nil (by simp)
    obtain ⟨j₁, c₁, hrun, h₁, hc₁, hclean₁, hflash⟩ :=
      programPage_leftover limit h hc hclean hpage hspan₁ rfl haccepts.1 hq
    cases hverdict : compare (wordAddress start (pageWords * index))
        (sector (wordAddress start (pageWords * index)) - sector start) index page (shown d) with
    | none =>
      have hd : shown d = page := compare_eq_none.1 hverdict
      rw [hverdict] at hrun
      have hrest : c₁.flash.Accepts (wordAddress start (pageWords * (index + 1))) pages.flatten := by
        rw [hflash, hnext]
        exact (Nor.accepts_commit_beyond _ _ _ _ (Nat.le_refl _) hfit).2 haccepts.2
      obtain ⟨r, j₂, hpages, hout⟩ := ih (index + 1) rest j₁ c₁ h₁ hc₁ hclean₁
        (fun p hp => hlen p (List.mem_cons_of_mem _ hp))
        (by rw [Nat.add_right_comm]; exact hspan) hrest
      refine ⟨r, j₂, ?_, ?_⟩
      · rw [programPages_cons limit hspan₁, Host.bind_ok hrun]
        exact hpages
      · rw [prefix_waiting hpage hq, List.flatten_cons, Nor.commit_append, ← hnext, ← hflash]
        simpa only [hd, true_and] using hout
    | some found =>
      have hd : shown d ≠ page := by
        intro he
        rw [compare_eq_none.2 he] at hverdict
        cases hverdict
      rw [hverdict] at hrun
      refine ⟨_, j₁, ?_, .inr ⟨?_, found, rfl⟩⟩
      · rw [programPages_cons limit hspan₁, Host.bind_error hrun]
      · rw [prefix_waiting hpage hq]
        exact fun hprefix => hd hprefix.1

/-! ## Operations -/

/-- **An operation on its own sector, whatever was left behind.**  The sector of `start` is erased
and holds all pages of the operation.  Neither the markers that wait, nor the words in the write
buffer, nor the address of the board matter; the pages that wait on the firmware port do.  The
operation succeeds exactly if its pages are what comes in: first the pages that wait, then its
own.  An operation on the topmost sector is one like any other here, though boards are specified for
those below it only. -/
theorem write_leftover {j : Journal Bench} (hclear : j.link.Clear)
    (hboard : j.link.board.Acknowledges) (hfault : j.link.board.fault = none)
    (hfaults : ∀ a : UInt32, j.link.board.addressFaults[a]? = none) {words : List Word}
    (hsector : start.toNat % sectorBytes + pageBytes * pageCount words.length ≤ sectorBytes) :
    let n := pageCount words.length
    let pages := pagesOf n words
    let waiting := (j.link.board.queue firmwarePort).map shown
    ∃ result j', write limit words start true j = (result, j') ∧
      (pages <+: waiting ++ pages → result = .ok (n * pageWords) ∧
        j'.link.board.flash.Holds (before j.link.board.flash start true) start (pageWords * n)
          (padded words)) ∧
      (¬ pages <+: waiting ++ pages →
        ∃ found, result = .error (.error (.verifyMismatch found))) := by
  intro n pages waiting
  obtain ⟨hwords, hspan⟩ := bounds_of_within hsector
  obtain ⟨j₁, c₁, h₁, hc₁, hclean₁, hflash, hwrite⟩ := write_opens limit ⟨hclear, rfl, rfl, rfl⟩
    (hboard.of_answers rfl rfl) hfault hfaults hwords hspan true
  rw [Board.flash_quiet] at hflash
  have haccepts : c₁.flash.Accepts (wordAddress start (pageWords * 0))
      (pagesOf (pageCount words.length) words).flatten := by
    rw [Nat.mul_zero, wordAddress_zero, pagesOf_eq, flatten_pages, Nor.accepts_map_range, hflash,
      word_prepared]
    exact fits_erased hsector
  obtain ⟨r, j₂, hpages, hout⟩ := programPages_leftover limit pages 0 _ j₁ c₁ h₁ hc₁ hclean₁
    (fun page hpage => length_of_mem_pagesOf hpage)
    (by rw [length_pagesOf, Nat.zero_add]; exact hspan) haccepts
  refine ⟨_, j₂, hwrite hpages, fun hprefix => ?_, fun hprefix => ?_⟩
  · obtain ⟨-, rfl, hafter⟩ := hout.resolve_right fun h => h.1 hprefix
    refine ⟨rfl, ?_⟩
    have hholds := (Programmed.verified haccepts).outcome hspan
    rw [← hafter, hflash, word_prepared] at hholds
    obtain ⟨-, -, hholds⟩ | ⟨p, -, -, -, hr, -⟩ := hholds
    · exact hholds
    · cases hr
  · obtain ⟨-, found, rfl⟩ := hout.resolve_left fun h => hprefix h.1
    exact ⟨found, rfl⟩

/-- A board that an operation left with markers that wait, a filled buffer and another address. -/
def untidy : Journal Bench :=
  { link :=
      { horizon := Duration.seconds 60
        board :=
          { address := 0x500
            buffer := [1, 2]
            queues := ({} : Std.HashMap Port (List Bytes)).insert commandPort
              [Word.encode [Command.doneMarker], Word.encode [Command.doneMarker]] } } }

theorem write_leftover_untidy :
    untidy.link.board.queue firmwarePort = [] ∧
      ∃ j', write (some (Duration.seconds 5)) [9] 0x100 true untidy = (.ok 64, j') := by
  have hnone : untidy.link.board.queue firmwarePort = [] := by
    rw [Board.queue, untidy, Std.HashMap.getD_insert, if_neg (by decide), Std.HashMap.getD_empty]
  obtain ⟨result, j', hrun, hprefix, -⟩ := write_leftover (some (Duration.seconds 5))
    (⟨rfl, rfl, rfl⟩ : untidy.link.Clear) (answering_acknowledges.of_answers rfl rfl) rfl
    (fun a => Std.HashMap.getElem?_empty)
    (by decide : (0x100 : UInt32).toNat % sectorBytes + pageBytes * pageCount [(9 : Word)].length ≤
      sectorBytes)
  rw [hnone, List.map_nil, List.nil_append] at hprefix
  obtain ⟨rfl, -⟩ := hprefix List.prefix_rfl
  exact ⟨hnone, j', hrun⟩

/-! ## How a page comes to be left -/

/-- The receiving of datagrams is set to fail after `n` more calls; nothing waits for the host, and
the board is `c` but for its traffic. -/
structure Cut (j : Journal Bench) (c : Board) (n : Nat) (message : String) : Prop where
  wired : j.link.remote = false
  sends : j.link.sendFailure = none
  receives : j.link.receiveFailure = some ⟨n, message⟩
  board : j.link.board.quiet = c
  commands : j.link.board.queue commandPort = []
  pages : j.link.board.queue firmwarePort = []

variable {j : Journal Bench} {c : Board} {n : Nat} {message : String}

/-- A call that is not yet the one to fail takes what waits. -/
theorem tryReceive_cut (h : j.link.receiveFailure = some ⟨n + 1, message⟩) {port : Port}
    {data : Bytes} {rest : List Bytes} (hq : j.link.board.queue port = data :: rest)
    (limit : Option Duration) :
    ∃ j', Host.tryReceive port limit j = (.ok (.ok (data.take maxDatagram)), j') ∧
      j'.link = { j.link with
        receiveFailure := some ⟨n, message⟩
        board := { j.link.board with queues := j.link.board.queues.insert port rest } } := by
  have hreceive : Link.receive port limit j.link = (Reply.done data,
      { j.link with
        receiveFailure := some ⟨n, message⟩
        board := { j.link.board with queues := j.link.board.queues.insert port rest } }) := by
    show Bench.receiveCall port limit j.link = _
    unfold Bench.receiveCall Bench.wait
    simp only [h, Bench.Failure.step, Bench.popOn, Board.pop_cons hq, Option.map_some]
  rw [Host.tryReceive_apply, hreceive]
  exact ⟨_, rfl, rfl⟩

/-- The call that is set to fail takes nothing. -/
theorem receive_cut (h : j.link.receiveFailure = some ⟨0, message⟩) (port : Port)
    (limit : Option Duration) :
    ∃ j', Host.receive port limit j = (.error (.error (.transport message)), j') ∧
      j'.link = { j.link with receiveFailure := none } := by
  have hreceive : Link.receive port limit j.link =
      (Reply.failed (.transport message), { j.link with receiveFailure := none }) := by
    show Bench.receiveCall port limit j.link = _
    unfold Bench.receiveCall
    simp only [h, Bench.Failure.step]
  rw [Host.receive_apply, hreceive]
  exact ⟨_, rfl, rfl⟩

/-- A command before the cut is carried out and acknowledged. -/
theorem execute_cut (h : Cut j c (n + 1) message) (hc : c.Acknowledges) {cmd : Command}
    {data : Bytes} (hframe : cmd.frame = .ok data)
    (hname : cmd.heard.name ∈
      [Command.clearBuffers, Command.setAddress, Command.eraseSector, Command.commit]) :
    ∃ j', Exchange.execute limit cmd j = (.ok (), j') ∧
      Cut j' (c.obey cmd.heard).quiet n message := by
  obtain ⟨j₁, hcommand, hset, hboard, -⟩ := Exchange.command_wired h.wired h.sends hframe
  have hsilent := (Board.silent_of_quiet h.board).trans hc.speaks
  have hqueue := Board.queue_send_command hframe hsilent (ne_read_of_acknowledged hname)
  have hanswer : j₁.link.board.queue commandPort =
      [Word.encode (c.answers.getD cmd.heard.name [Command.doneMarker])] := by
    rw [hboard, hqueue, if_pos rfl, h.commands, ← h.board]
    rfl
  have hdone : Command.containsDone (Word.decode ((Word.encode
      (c.answers.getD cmd.heard.name [Command.doneMarker])).take maxDatagram)) = true := by
    rw [Board.decode_answer]
    exact hc.marker _ hname
  have hreceives : j₁.link.receiveFailure = some ⟨n + 1, message⟩ :=
    (congrArg Bench.receiveFailure hset).trans h.receives
  obtain ⟨p, hp⟩ : ∃ p, Link.patience j₁.link = p + 1 := ⟨_, Bench.patience_eq j₁.link⟩
  obtain ⟨j₂, hreceive, hlink⟩ := tryReceive_cut hreceives hanswer
    ((limit.filter (· ≠ 0)).map Exchange.slice)
  refine ⟨j₂, ?_, ?_⟩
  · rw [Exchange.execute, Host.bind_ok hcommand, Exchange.awaitDone_apply, hp, Exchange.awaitFrom,
      Host.bind_ok hreceive]
    simp only [hdone, if_true, Host.pure_apply]
  constructor <;> rw [hlink]
  · exact (congrArg Bench.remote hset).trans h.wired
  · exact (congrArg Bench.sendFailure hset).trans h.sends
  · show j₁.link.board.quiet = _
    rw [hboard, Board.quiet_send_command hframe, h.board]
  · rw [Board.queue_setQueue, if_pos rfl]
  · rw [Board.queue_setQueue, if_neg (by decide), hboard, hqueue, if_neg (by decide), h.pages]

/-- A read that is cut leaves its page. -/
theorem readBack_cut (h : Cut j c 0 message) (hc : c.silent = false) (count : Nat) :
    ∃ j', readBack limit count j = (.error (.error (.transport message)), j') ∧
      Waiting j' c.takeFault.2 [Word.encode (c.readAnswer (UInt8.ofNat count).toNat)]
        j'.progress := by
  obtain ⟨data, hframe⟩ := Command.frame_read (UInt8.ofNat count)
  have hheard := Command.heard_read (UInt8.ofNat count)
  obtain ⟨j₁, hcommand, hset, hboard, -⟩ := Exchange.command_wired h.wired h.sends hframe
  have hsilent := (Board.silent_of_quiet h.board).trans hc
  have hqueue := Board.queue_send_read hframe hsilent (by rw [hheard])
  rw [hheard, h.board] at hqueue
  have hreceives : j₁.link.receiveFailure = some ⟨0, message⟩ :=
    (congrArg Bench.receiveFailure hset).trans h.receives
  obtain ⟨j₂, hreceive, hlink⟩ := receive_cut hreceives firmwarePort limit
  refine ⟨j₂, ?_, ?_, ?_, ?_, rfl⟩
  · rw [readBack, Host.bind_ok hcommand]
    exact hreceive
  · rw [hlink]
    exact ⟨(congrArg Bench.remote hset).trans h.wired,
      (congrArg Bench.sendFailure hset).trans h.sends, rfl⟩
  · rw [hlink]
    show j₁.link.board.quiet = _
    rw [hboard, Board.quiet_send_command hframe, h.board, hheard, Board.quiet_obey_read rfl,
      ← h.board, Board.quiet_quiet]
  · rw [hlink]
    show j₁.link.board.queue firmwarePort = _
    rw [hboard, hqueue, if_pos rfl, h.pages]
    rfl

/-- A dump that is cut at its first page leaves that page, and nothing else that matters. -/
theorem dump_cut (h : Cut j c 2 message) (hc : c.Acknowledges) (hfault : c.fault = none)
    (hfaults : ∀ a : UInt32, c.addressFaults[a]? = none)
    (hspan : start.toNat + pageBytes ≤ 2 ^ 32) :
    ∃ j' c', dump limit start pageWords j = (.error (.error (.transport message)), j') ∧
      Waiting j' c' [Word.encode (c.flash.read start pageWords)] j'.progress ∧ c'.Acknowledges ∧
      c'.fault = none ∧ (∀ a : UInt32, c'.addressFaults[a]? = none) ∧ c'.flash = c.flash := by
  have hquiet : c.quiet = c := by rw [← h.board, Board.quiet_quiet]
  have hstart : start ≠ Command.absentWord := by
    rintro rfl
    exact absurd hspan (by decide)
  obtain ⟨j₁, hclear, h₁⟩ := execute_cut limit h hc
    (rfl : Command.frame { name := Command.clearBuffers } = .ok _) (by decide)
  rw [Board.quiet_obey_clear (by decide), hquiet] at h₁
  obtain ⟨j₂, hseek, h₂⟩ := execute_cut limit h₁ (hc.of_answers rfl rfl)
    (Command.frame_seek hstart)
    (by rw [Command.heard_seek hstart]; exact List.mem_cons_of_mem _ List.mem_cons_self)
  have hboard : ({ c with buffer := [] } : Board).quiet = { c with buffer := [] } := by
    rw [← hquiet]
    rfl
  rw [Command.heard_seek hstart, Board.quiet_obey_seek rfl, hboard] at h₂
  have hsought : Cut j₂ { c with buffer := [], address := start } 0 message := h₂
  obtain ⟨j₃, hread, h₃⟩ := readBack_cut limit hsought hc.speaks pageWords
  -- without faults the page is what the flash holds, and none of them is used up
  have htake : Board.takeFault { c with buffer := [], address := start } =
      (none, { c with
        buffer := [], address := start, addressFaults := c.addressFaults.erase start }) := by
    unfold Board.takeFault
    simp only [hfault, hfaults start]
  have hanswer : Board.readAnswer { c with buffer := [], address := start } pageWords =
      c.flash.read start pageWords := by
    rw [Board.readAnswer, htake]
  have hcount : (UInt8.ofNat pageWords).toNat = pageWords := rfl
  rw [hcount, hanswer, htake] at h₃
  refine ⟨j₃, _, ?_, h₃, hc.of_answers rfl rfl, hfault, fun a => ?_, rfl⟩
  · have hcheck : checkSpan start (groups pageWords pageWords) = .ok () :=
      checkSpan_eq_ok (by decide) hspan
    rw [dump, hcheck, Host.ofExcept_ok, Host.bind_ok (Host.pure_apply _ _), clear,
      Host.bind_ok hclear, seek, Host.bind_ok hseek]
    refine Host.bind_error ?_
    show dumpPages limit start 0 (0 + 1) j₂ = _
    rw [dumpPages, readPage_eq (Nat.le_refl _), Host.bind_error hread]
  · rw [Std.HashMap.getElem?_erase, hfaults a]
    split <;> rfl

/-- An operation of one page is held against the page that waits first. -/
theorem write_page {d : Bytes} {rest : List Bytes} (h : Waiting j c (d :: rest) ps)
    (hc : c.Acknowledges) (hfault : c.fault = none)
    (hfaults : ∀ a : UInt32, c.addressFaults[a]? = none) {words : List Word}
    (hwords : words.length ≤ pageWords) (hspan : start.toNat + pageBytes ≤ 2 ^ 32)
    (erasing : Bool) :
    ∃ j', write limit words start erasing j =
        ((fun _ => pageWords) <$> verdict (compare start 0 0 (pageAt words 0) (shown d)), j') ∧
      j'.link.board.flash = (prepared c.flash start erasing).commit start (pageAt words 0) := by
  have hcount : pageCount words.length = 1 := by
    simp only [pageWords] at hwords
    simp only [pageCount, groups, pageWords]
    omega
  have hpages : pagesOf 1 words = [pageAt words 0] := by
    rw [pagesOf_eq]
    rfl
  have hzero : wordAddress start (pageWords * 0) = start := wordAddress_zero start
  have hpast : start.toNat + pageBytes * (0 + 1) ≤ 2 ^ 32 := by
    rw [Nat.zero_add, Nat.mul_one]
    exact hspan
  have hne := start_ne_absentWord Nat.one_pos hpast
  have hfew : words.length ≤ 16384 := Nat.le_trans hwords (by decide)
  obtain ⟨j₁, c₁, h₁, hc₁, hclean₁, hflash, hwrite⟩ := write_opens limit h hc hfault hfaults
    hfew (by rw [hcount]; exact hpast) erasing
  obtain ⟨j₂, hrun, h₂⟩ := programPage_waiting limit h₁ hc₁ hclean₁.buffer hne
    (length_pageAt words 0) (List.cons_append ..) 0 0
  have hafter : (c₁.withPage start (pageAt words 0)).takeFault.2.flash =
      (prepared c.flash start erasing).commit start (pageAt words 0) := by
    rw [Board.takeFault_withPage hclean₁.fault, ← hflash]
    rfl
  rw [hcount, hpages] at hwrite
  refine ⟨j₂, ?_, ?_⟩
  · have hall : programPages limit start 0 [pageAt words 0] j₁ =
        (verdict (compare start 0 0 (pageAt words 0) (shown d)), j₂) := by
      rw [programPages_cons limit hpast, hzero, Nat.sub_self, Host.bind_apply, hrun]
      cases compare start 0 0 (pageAt words 0) (shown d) <;> rfl
    rw [hwrite hall, Nat.one_mul]
  · exact (Board.flash_of_quiet h₂.board).trans hafter

/-- A bench on which the host does not receive the first page that it reads. -/
def cutAtPage (flash : Nor) : Journal Bench :=
  { link :=
      { horizon := Duration.seconds 60
        board := { flash }
        receiveFailure := some ⟨2, "link down"⟩ } }

theorem cutAtPage_cut (flash : Nor) : Cut (cutAtPage flash) { flash } 2 "link down" where
  wired := rfl
  sends := rfl
  receives := rfl
  board := rfl
  commands := by simp [cutAtPage, Board.queue]
  pages := by simp [cutAtPage, Board.queue]

/-- The dump fails, and so does the operation after it, although nothing hinders it any more. -/
theorem write_afterCut :
    ∃ j₁ j₂ found, dump (some (Duration.seconds 5)) 0 64 (cutAtPage {}) =
        (.error (.error (.transport "link down")), j₁) ∧
      j₁.link.Clear ∧ j₁.link.board.Acknowledges ∧ j₁.link.board.fault = none ∧
      (∀ a : UInt32, j₁.link.board.addressFaults[a]? = none) ∧
      write (some (Duration.seconds 5)) [9] 0 true j₁ =
        (.error (.error (.verifyMismatch found)), j₂) := by
  obtain ⟨j₁, c, hdump, h, hc, hfault, hfaults, hflash⟩ := dump_cut (some (Duration.seconds 5))
    (cutAtPage_cut {}) (answering_acknowledges.of_answers rfl rfl) rfl
    (fun a => Std.HashMap.getElem?_empty) (by decide : (0 : UInt32).toNat + pageBytes ≤ 2 ^ 32)
  obtain ⟨j₂, hwrite, -⟩ := write_page (some (Duration.seconds 5)) h hc hfault hfaults
    (by decide : [(9 : Word)].length ≤ pageWords)
    (by decide : (0 : UInt32).toNat + pageBytes ≤ 2 ^ 32) true
  have hne : shown (Word.encode (Nor.read {} 0 pageWords)) ≠ pageAt [9] 0 := by
    rw [shown_encode (Nor.length_read ..)]
    intro he
    rw [Nor.read_eq, pageAt, List.map_inj_left] at he
    have hfirst := he 0 (by decide)
    rw [Nor.word, Std.HashMap.getD_empty] at hfirst
    exact absurd hfirst (by decide)
  cases hverdict : compare 0 0 0 (pageAt [9] 0) (shown (Word.encode (Nor.read {} 0 pageWords))) with
  | none => exact absurd (compare_eq_none.1 hverdict) hne
  | some found =>
    rw [hverdict] at hwrite
    have hboard := h.board
    subst hboard
    exact ⟨j₁, j₂, found, hdump, h.clear, hc.of_answers rfl rfl, hfault, hfaults, hwrite⟩

end Flash

end Readout
