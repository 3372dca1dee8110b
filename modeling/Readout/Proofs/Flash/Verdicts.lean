import Readout.Proofs.Flash.HandedOver
import Readout.Proofs.Flash.Image
import Readout.Proofs.Flash.Order
/-!
# Verdicts

A page that was written is read back, whatever the link does meanwhile, and what is read back is
held against it.  The first page that differs ends the operation with a report, and nothing else
does.

* `Mismatch.Reports` is a report that is true, `compare_reports` that the verdict on a page is one;
* `Judging` is how the run of a page ends, `Verdicts` what is said of a run of pages;
* `adds_programPages` and `adds_writeImagePages` are the runs of the two operations;
* `write_verdicts` is what holds of both, on every link.
-/

namespace Readout

/-! ## Reports -/

/-- A mismatch reports page `k` of an operation from `start` on: the words `sent` were written, and
`got` was read back. -/
structure Mismatch.Reports (found : Mismatch) (start : UInt32) (k : Nat) (sent got : List Word) :
    Prop where
  page : found.page = k
  address : found.address.toNat = start.toNat + Flash.pageBytes * k
  sector : found.sector = Flash.sector found.address - Flash.sector start
  written : found.written = Flash.pageWords
  read : found.read = got.length
  listed : got.length = Flash.pageWords → ∀ i w r,
    (i, w, r) ∈ found.differing ↔ sent[i]? = some w ∧ got[i]? = some r ∧ w ≠ r
  increasing : found.differing.Pairwise fun p q => p.1 < q.1
  shown : got.length = Flash.pageWords → found.differing ≠ []
  unlisted : got.length ≠ Flash.pageWords → found.differing = []

/-- The datagram that an event sends to the firmware port. -/
def Event.load? : Event → Option Bytes
  | sent port data _ => if port = firmwarePort then some data else none
  | _ => none

/-- The datagrams that a history sends to the firmware port, in order. -/
def loads (es : List Event) : List Bytes := es.filterMap Event.load?

@[simp] theorem loads_append (es es' : List Event) : loads (es ++ es') = loads es ++ loads es' :=
  List.filterMap_append

/-- An event sends nothing to the firmware port and takes nothing from it. -/
structure Event.Aside (e : Event) : Prop where
  load : e.load? = none
  page : e.page? = none

theorem loads_aside {es : List Event} (h : ∀ e ∈ es, e.Aside) : loads es = [] :=
  List.filterMap_eq_nil_iff.2 fun e he => (h e he).load

theorem readbacks_aside {es : List Event} (h : ∀ e ∈ es, e.Aside) : readbacks es = [] :=
  List.filterMap_eq_nil_iff.2 fun e he => (h e he).page

/-- What is read back stands among what is read back before and after. -/
theorem readbacks_split (before after : List Event) (limit : Option Duration) (data : Bytes) :
    readbacks (before ++ .received firmwarePort limit (.ok data) :: after) =
      readbacks before ++ data :: readbacks after := by
  simp [Event.page?]

/-- An event of a history in two parts is in one of them. -/
theorem append_eq_split {es es' before after : List Event} {e : Event}
    (h : es ++ es' = before ++ e :: after) :
    (∃ rest, es = before ++ e :: rest ∧ after = rest ++ es') ∨
      ∃ rest, before = es ++ rest ∧ es' = rest ++ e :: after := by
  obtain ⟨rest, hbefore, hes'⟩ | ⟨rest, hes, hrest⟩ := List.append_eq_append_iff.1 h
  · exact .inr ⟨rest, hbefore, hes'⟩
  · cases rest with
    | nil => exact .inr ⟨[], by simpa using hes.symm, hrest.symm⟩
    | cons x rest =>
      obtain ⟨rfl, hafter⟩ := List.cons.inj hrest
      exact .inl ⟨rest, hes, hafter⟩

namespace Flash

/-- The verdict on a page that is read back otherwise is a true report. -/
theorem compare_reports {start : UInt32} {k : Nat}
    (hspan : start.toNat + pageBytes * (k + 1) ≤ 2 ^ 32) {sent got : List Word}
    (hsent : sent.length = pageWords) {found : Mismatch}
    (h : compare (wordAddress start (pageWords * k))
      (sector (wordAddress start (pageWords * k)) - sector start) k sent got = some found) :
    found.Reports start k sent got := by
  rw [compare] at h
  split at h
  · cases h
  rename_i hne
  cases h
  rw [hsent]
  have haddress : (wordAddress start (pageWords * k)).toNat = start.toNat + pageBytes * k := by
    rw [toNat_wordAddress (page_lt hspan)]
    simp only [pageWords, pageBytes]
    omega
  refine ⟨rfl, haddress, rfl, rfl, rfl, ?listed, ?increasing, ?shown, ?unlisted⟩
  case listed =>
    intro hgot i w r
    simp only [if_pos hgot]
    rw [← mem_differences (k := 0), Nat.zero_add]
  case increasing =>
    dsimp only
    split
    · exact pairwise_differences _ _ _
    · exact List.Pairwise.nil
  case shown =>
    intro hgot hnil
    simp only [if_pos hgot] at hnil
    exact hne (differences_eq_nil (hgot.trans hsent.symm) hnil)
  case unlisted =>
    intro hgot
    exact if_neg hgot

variable {σ : Type} [Link σ] {limit : Option Duration}

theorem only_exchange {c : Command} (hname : Command.isName c.name = true) :
    Only Event.Aside (Exchange.execute limit c : Host σ Unit) := by
  obtain ⟨data, hframe⟩ := Command.exists_frame hname
  apply Only.mono (only_execute hframe)
  intro e he
  cases he with
  | sent result => exact ⟨rfl, rfl⟩
  | received limit result => cases result <;> exact ⟨rfl, rfl⟩

/-! ## The run of a page -/

/-- How a run goes that ends with a verdict, if it comes to one.  The verdict depends on the one
datagram that is read back; `ls` is what was sent to the firmware port before. -/
inductive Judging (ls : List Bytes) (judged : Bytes → Except Stop Unit) :
    Except Stop Unit → List Event → Prop
  | judged {before : List Event} (limit : Option Duration) (data : Bytes)
      (hloads : loads before = ls) (hpages : readbacks before = []) :
      Judging ls judged (judged data) (before ++ [.received firmwarePort limit (.ok data)])
  | cut {e : Stop} {es : List Event} (hpages : readbacks es = [])
      (he : OfLink (.error e : Except Stop Unit)) : Judging ls judged (.error e) es

/-- What comes before, without being read back. -/
theorem Judging.after {ls : List Bytes} {judged : Bytes → Except Stop Unit}
    {r : Except Stop Unit} {es : List Event} (h : Judging ls judged r es) (pre : List Event)
    (hpre : readbacks pre = []) : Judging (loads pre ++ ls) judged r (pre ++ es) := by
  have hnone : ∀ {es'}, readbacks es' = [] → readbacks (pre ++ es') = [] := by
    intro es' h
    rw [readbacks_append, hpre, h, List.append_nil]
  cases h with
  | judged limit data hloads hpages =>
    rw [← List.append_assoc]
    apply Judging.judged limit data
    · rw [loads_append, hloads]
    · exact hnone hpages
  | cut hpages he => exact .cut (hnone hpages) he

omit [Link σ] in
/-- What goes before the verdict and keeps away from the firmware port. -/
theorem adds_judging {α : Type} {ls : List Bytes} {judged : Bytes → Except Stop Unit}
    {m : Host σ α} {f : α → Host σ Unit} (hm : Only Event.Aside m)
    (hf : ∀ a, Adds (f a) (Judging ls judged)) : Adds (m >>= f) (Judging ls judged) := by
  apply Adds.bind hm hf
  · intro a r es es' hes h
    have hafter := h.after es (readbacks_aside hes.1)
    rwa [loads_aside hes.1] at hafter
  · intro e es hes
    exact .cut (readbacks_aside hes.1) hes.2.of_error

theorem adds_judge (a : UInt32) (s index : Nat) (page : List Word) :
    Adds (Host.receive firmwarePort limit >>= judge a s index page : Host σ Unit)
      (Judging [] fun data => verdict (compare a s index page (Word.decode data))) := by
  apply Adds.bind
    (Q := fun data r es => r = verdict (compare a s index page (Word.decode data)) ∧ es = [])
    (adds_receive firmwarePort limit)
  · intro data
    rw [judge]
    cases compare a s index page (Word.decode data) with
    | none => exact Adds.pure ⟨rfl, rfl⟩
    | some found => exact Adds.fail ⟨rfl, rfl⟩
  · rintro data r es es' ⟨⟩ ⟨rfl, rfl⟩
    exact @Judging.judged [] _ [] limit data rfl rfl
  · rintro e es ⟨⟩
    · exact .cut rfl (OfLink.refused _)
    · exact .cut rfl OfLink.never

/-- A page is sent to the firmware port once, and then judged. -/
theorem adds_programPage (a : UInt32) (s index : Nat) (page : List Word) :
    Adds (programPage limit a s index page : Host σ Unit)
      (Judging [Word.encode page] fun data =>
        verdict (compare a s index page (Word.decode data))) := by
  have hread : Adds (readBack limit pageWords >>= judge a s index page : Host σ Unit)
      (Judging [] fun data => verdict (compare a s index page (Word.decode data))) := by
    obtain ⟨frame, hframe⟩ := Command.frame_read (UInt8.ofNat pageWords)
    have hasked : Only Event.Aside (Host.send commandPort frame : Host σ Nat) := by
      apply (only_send commandPort frame).mono
      rintro e ⟨result, rfl⟩
      exact ⟨rfl, rfl⟩
    rw [readBack, Exchange.command, hframe, bind_assoc]
    exact adds_judging hasked fun _ => adds_judge a s index page
  have hseek : Command.isName Command.setAddress = true := by decide
  have hcommit : Command.isName Command.commit = true := by decide
  apply adds_judging (only_exchange hseek)
  intro _
  apply Adds.bind (adds_send firmwarePort (Word.encode page)) fun _ =>
    adds_judging (only_exchange hcommit) fun _ => hread
  · rintro n r es es' ⟨⟩ h
    exact h.after [.sent firmwarePort (Word.encode page) (.ok n)] rfl
  · rintro e es ⟨⟩
    · exact .cut rfl (OfLink.refused _)
    · exact .cut rfl OfLink.never

/-! ## Runs of pages -/

/-- What is said of a run of the pages from number `i` on, `n` of them, that hold the given words.
A datagram that is read back is read back for the page that was sent last.  The first one that
differs from its page is the last event, and it is reported; nothing else is reported. -/
structure Verdicts {α : Type} (start : UInt32) (words : List Word) (i n : Nat) (r : Except Stop α)
    (es : List Event) : Prop where
  each : ∀ before limit data after,
    es = before ++ .received firmwarePort limit (.ok data) :: after →
      (loads before).getLast? = some (Word.encode (pageAt words (i + (readbacks before).length))) ∧
      (Word.decode data ≠ pageAt words (i + (readbacks before).length) →
        after = [] ∧ ∃ found, r = .error (.error (.verifyMismatch found)) ∧
          found.Reports start (i + (readbacks before).length)
            (pageAt words (i + (readbacks before).length)) (Word.decode data))
  only : ∀ found, r = .error (.error (.verifyMismatch found)) → ∃ before limit data,
    es = before ++ [.received firmwarePort limit (.ok data)] ∧
      Word.decode data ≠ pageAt words (i + (readbacks before).length)
  all : r.isOk = true → (readbacks es).length = n

namespace Verdicts

variable {α β : Type} {start : UInt32} {words : List Word} {i n m : Nat} {es es' : List Event}

/-- Events among which nothing is read back. -/
theorem of_unread {r : Except Stop α} (hes : readbacks es = []) (hr : OfLink r)
    (hn : r.isOk = true → n = 0) : Verdicts start words i n r es where
  each before limit data after heq := by
    rw [heq, readbacks_split] at hes
    exact absurd hes (by simp)
  only found h := by
    subst h
    obtain ⟨cause, hcause⟩ := hr
    cases cause <;> cases hcause
  all h := by rw [hes, hn h]; rfl

/-- An operation that is refused before anything is sent. -/
theorem of_refused {e : Error} (he : ∀ found, e ≠ .verifyMismatch found) :
    Verdicts start words i n (.error (.error e) : Except Stop α) [] where
  each before limit data after heq := by cases before <;> cases heq
  only found h := by
    cases h
    exact absurd rfl (he found)
  all h := by cases h

/-- The run of one page. -/
theorem of_judging {k : Nat} (hspan : start.toNat + pageBytes * (k + 1) ≤ 2 ^ 32)
    {r : Except Stop Unit}
    (h : Judging [Word.encode (pageAt words k)] (fun data => verdict
      (compare (wordAddress start (pageWords * k))
        (sector (wordAddress start (pageWords * k)) - sector start) k (pageAt words k)
        (Word.decode data))) r es) : Verdicts start words k 1 r es := by
  cases h with
  | cut hpages he =>
    apply of_unread hpages he
    intro h
    cases h
  | @judged before limit data hloads hpages =>
    constructor
    case each =>
      intro before' limit' data' after heq
      obtain ⟨rest, hbefore, -⟩ | ⟨rest, rfl, hlast⟩ := append_eq_split heq
      · rw [hbefore, readbacks_split] at hpages
        exact absurd hpages (by simp)
      · cases rest with
        | cons x rest => simp at hlast
        | nil =>
          cases hlast
          rw [List.append_nil, hloads, hpages]
          refine ⟨rfl, ?_⟩
          intro hne
          refine ⟨rfl, ?_⟩
          cases hcompare : compare (wordAddress start (pageWords * k))
              (sector (wordAddress start (pageWords * k)) - sector start) k (pageAt words k)
              (Word.decode data) with
          | none => exact absurd (compare_eq_none.1 hcompare) hne
          | some found => exact ⟨found, rfl, compare_reports hspan (length_pageAt words k) hcompare⟩
    case only =>
      intro found hfound
      refine ⟨before, limit, data, rfl, ?_⟩
      intro hsame
      rw [hpages] at hsame
      have hnone : Word.decode data = pageAt words k := hsame
      rw [compare_eq_none.2 hnone] at hfound
      cases hfound
    case all =>
      intro _
      rw [readbacks_split, hpages]
      rfl

/-- A run that went well goes on with the pages that follow. -/
theorem append {a : α} {r : Except Stop β}
    (h : Verdicts start words i n (.ok a : Except Stop α) es)
    (h' : Verdicts start words (i + n) m r es') : Verdicts start words i (n + m) r (es ++ es') := by
  have hn := h.all rfl
  have hindex : ∀ rest, i + (readbacks (es ++ rest)).length = i + n + (readbacks rest).length := by
    intro rest
    rw [readbacks_append, List.length_append, hn, Nat.add_assoc]
  constructor
  case each =>
    intro before limit data after heq
    obtain ⟨rest, hes, rfl⟩ | ⟨rest, rfl, hes'⟩ := append_eq_split heq
    · -- a difference would have ended the first pages
      obtain ⟨hload, hdiffers⟩ := h.each before limit data rest hes
      refine ⟨hload, ?_⟩
      intro hne
      obtain ⟨-, found, hr, -⟩ := hdiffers hne
      cases hr
    · obtain ⟨hload, hdiffers⟩ := h'.each rest limit data after hes'
      rw [hindex, loads_append, List.getLast?_append, hload]
      exact ⟨rfl, hdiffers⟩
  case only =>
    intro found hfound
    obtain ⟨rest, limit, data, rfl, hne⟩ := h'.only found hfound
    exact ⟨es ++ rest, limit, data, (List.append_assoc _ _ _).symm, by rwa [hindex]⟩
  case all =>
    intro hr
    rw [readbacks_append, List.length_append, hn, h'.all hr]

/-- Of a run that failed the pages that would have followed do not matter. -/
theorem extend {e : Stop} (h : Verdicts start words i n (.error e : Except Stop α) es) (m : Nat) :
    Verdicts start words i (n + m) (.error e : Except Stop β) es where
  each before limit data after heq := by
    obtain ⟨hload, hdiffers⟩ := h.each before limit data after heq
    refine ⟨hload, fun hne => ?_⟩
    obtain ⟨hafter, found, hr, hreports⟩ := hdiffers hne
    cases hr
    exact ⟨hafter, found, rfl, hreports⟩
  only found hr := by
    cases hr
    exact h.only found rfl
  all hr := by cases hr

end Verdicts

section
variable {α β : Type} {start : UInt32} {words : List Word} {i n m : Nat}

omit [Link σ]

theorem adds_verdicts {p : Host σ α} {f : α → Host σ β} (hp : Adds p (Verdicts start words i n))
    (hf : ∀ a, Adds (f a) (Verdicts start words (i + n) m)) :
    Adds (p >>= f) (Verdicts start words i (n + m)) := by
  apply Adds.bind hp hf
  · intro a r es es' h h'
    exact h.append h'
  · intro e es h
    exact h.extend m

/-- What goes before the pages and keeps away from the firmware port. -/
theorem adds_verdicts_after {p : Host σ α} {f : α → Host σ β} (hp : Only Event.Aside p)
    (hf : ∀ a, Adds (f a) (Verdicts start words i n)) :
    Adds (p >>= f) (Verdicts start words i n) := by
  have hbefore : Adds p (Verdicts start words i 0) := by
    apply Adds.mono hp
    intro r es h
    exact .of_unread (readbacks_aside h.1) h.2 fun _ => rfl
  have hall := adds_verdicts hbefore hf
  rwa [Nat.zero_add] at hall

end

/-! ## Operations -/

variable {start : UInt32}

/-- A page is programmed in the sector that its address says. -/
theorem adds_page {k : Nat} (hspan : start.toNat + pageBytes * (k + 1) ≤ 2 ^ 32)
    (words : List Word) {s : Nat}
    (hs : s = sector (wordAddress start (pageWords * k)) - sector start) :
    Adds (programPage limit (wordAddress start (pageWords * k)) s k (pageAt words k) : Host σ Unit)
      (Verdicts start words k 1) := by
  subst hs
  apply (adds_programPage _ _ k (pageAt words k)).mono
  intro r es h
  exact .of_judging hspan h

theorem adds_programPages (words : List Word) (n : Nat) :
    ∀ i, start.toNat + pageBytes * (i + n) ≤ 2 ^ 32 →
      Adds (programPages limit start i ((List.range n).map fun k => pageAt words (i + k)) :
        Host σ Unit) (Verdicts start words i n) := by
  induction n with
  | zero =>
    intro i _
    exact Adds.pure (.of_unread rfl (OfLink.value ()) fun _ => rfl)
  | succ n ih =>
    intro i hspan
    have hspan₁ : start.toNat + pageBytes * (i + 1) ≤ 2 ^ 32 := span_mono (by omega) hspan
    have hnext : i + 1 + n = i + (n + 1) := Nat.add_right_comm i 1 n
    have hrest := ih (i + 1) (by rw [hnext]; exact hspan)
    rw [map_range_from (pageAt words), programPages, page_starts hspan₁, Host.ofExcept_ok,
      pure_bind, Nat.add_comm n]
    exact adds_verdicts (adds_page hspan₁ words rfl) fun _ => hrest

/-- The round of an image page works out the sector that the address says. -/
theorem adds_imageRound (hstart : start.toNat % sectorBytes = 0) {k last : Nat}
    (hlast : k % 256 ≠ 0 → last = k / 256)
    (hspan : start.toNat + pageBytes * (k + 1) ≤ 2 ^ 32) (total : Nat) (words : List Word) :
    Adds (imageRound limit start (wordAddress start (pageWords * k)) total k last
      (pageAt words k) : Host σ Unit) (Verdicts start words k 1) := by
  have hseek : Command.isName Command.setAddress = true := by decide
  have hopen : Only Event.Aside (openPage limit (wordAddress start (pageWords * k)) :
      Host σ Unit) := by
    apply Only.bind (only_exchange hseek)
    intro _
    exact Only.ite (only_exchange (by decide)) (Only.pure ())
  have hnote : Adds (Host.note (.progress (k + 1) total) : Host σ Unit)
      (Verdicts start words (k + 1) 0) :=
    Adds.note (.of_unread rfl (OfLink.value ()) fun _ => rfl)
  apply adds_verdicts_after hopen
  intro _
  apply adds_verdicts (adds_page hspan words ?_) fun _ => hnote
  rw [current_eq hstart hlast (page_lt hspan), sector_page hstart (page_lt hspan),
    Nat.add_sub_cancel_left]

theorem adds_writeImagePages (hstart : start.toNat % sectorBytes = 0) (image : Bytes)
    (total n : Nat) :
    ∀ i last, (i % 256 ≠ 0 → last = i / 256) → start.toNat + pageBytes * (i + n) ≤ 2 ^ 32 →
      Adds (writeImagePages limit start total i last n (image.drop (pageBytes * i)) : Host σ Unit)
        (Verdicts start (imageWords image) i n) := by
  induction n with
  | zero =>
    intro i last _ _
    exact Adds.pure (.of_unread rfl (OfLink.value ()) fun _ => rfl)
  | succ n ih =>
    intro i last hlast hspan
    have hspan₁ : start.toNat + pageBytes * (i + 1) ≤ 2 ^ 32 := span_mono (by omega) hspan
    have hnext : i + 1 + n = i + (n + 1) := Nat.add_right_comm i 1 n
    have hrest := ih (i + 1) (i / 256) (by omega) (by rw [hnext]; exact hspan)
    rw [writeImagePages_succ, page_starts hspan₁, Host.ofExcept_ok, pure_bind, imagePage_drop,
      List.drop_drop, Nat.add_comm n, current_eq hstart hlast (page_lt hspan₁)]
    exact adds_verdicts (adds_imageRound hstart hlast hspan₁ total (imageWords image))
      fun _ => hrest

theorem adds_write (words : List Word) (start : UInt32) (erasing : Bool) :
    Adds (write limit words start erasing : Host σ Nat)
      (Verdicts start words 0 (pageCount words.length)) := by
  rw [write_eq]
  split
  · exact Adds.fail (.of_refused fun found h => by cases h)
  rw [checkSpan_eq, Nat.max_eq_right (pageCount_pos _)]
  split
  · rename_i hspan
    have hpages : Adds (programPages limit start 0
        ((List.range (pageCount words.length)).map fun k => pageAt words (0 + k)) : Host σ Unit)
        (Verdicts start words 0 (pageCount words.length)) :=
      adds_programPages words _ 0 (by rw [Nat.zero_add]; exact hspan)
    simp only [Nat.zero_add] at hpages
    rw [← pagesOf_eq] at hpages
    have hseek : Command.isName Command.setAddress = true := by decide
    rw [Host.ofExcept_ok, pure_bind]
    apply adds_verdicts_after (only_exchange (by decide))
    intro _
    apply adds_verdicts_after (only_exchange hseek)
    intro _
    apply adds_verdicts_after (Only.ite (only_exchange (by decide)) (Only.pure ()))
    intro _
    apply adds_verdicts (m := 0) hpages
    intro _
    exact Adds.pure (.of_unread rfl (OfLink.value _) fun _ => rfl)
  · exact Adds.fail (.of_refused fun found h => by cases h)

theorem adds_writeImage (image : Bytes) (map : FirmwareMap) (start : UInt32) :
    Adds (writeImage limit image map start : Host σ Nat)
      (Verdicts start (imageWords image) 0 map.pages) := by
  rw [writeImage_eq]
  split
  · exact Adds.fail (.of_refused fun found h => by cases h)
  rename_i hstart
  rw [checkSpan_eq, Nat.max_eq_right map.pages_pos]
  split
  · rename_i hspan
    have hpages : Adds (writeImagePages limit start map.pages 0 0 map.pages
        (image.drop (pageBytes * 0)) : Host σ Unit)
        (Verdicts start (imageWords image) 0 map.pages) :=
      adds_writeImagePages (Decidable.not_not.1 hstart) image map.pages map.pages 0 0
        (fun h => absurd rfl h) (by rw [Nat.zero_add]; exact hspan)
    have hnote : Only Event.Aside (Host.note (.progress 0 map.pages) : Host σ Unit) :=
      .note ⟨rfl, rfl⟩
    rw [Host.ofExcept_ok, pure_bind]
    apply adds_verdicts_after (only_exchange (by decide))
    intro _
    apply adds_verdicts_after hnote
    intro _
    apply adds_verdicts (m := 0) hpages
    intro _
    exact Adds.pure (.of_unread rfl (OfLink.value _) fun _ => rfl)
  · exact Adds.fail (.of_refused fun found h => by cases h)

/-- **Every difference is found, and nothing else is reported.**  On every link, a datagram that an
operation reads back is read back for the page that it sent last.  The first one with other words
than its page is the last event, and the operation ends with a report of it.  The report shows where
the page is and, if as many words came back, all the words that differ.  An operation that goes well
has read back all its pages. -/
theorem write_verdicts (limit : Option Duration) (j : Journal σ) :
    (∀ words start erasing, ∃ new,
      (write limit words start erasing j).2.events.toList = j.events.toList ++ new ∧
        Verdicts start words 0 (pageCount words.length) (write limit words start erasing j).1 new) ∧
    ∀ image map start, ∃ new,
      (writeImage limit image map start j).2.events.toList = j.events.toList ++ new ∧
        Verdicts start (imageWords image) 0 map.pages (writeImage limit image map start j).1 new :=
  ⟨fun words start erasing => adds_write words start erasing j,
    fun image map start => adds_writeImage image map start j⟩

end Flash

end Readout
