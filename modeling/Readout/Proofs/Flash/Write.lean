import Readout.Proofs.Flash.Pages
import Readout.Proofs.Flash.Parts
import Readout.Proofs.Flash.Steps
/-!
# Programming words on the bench

Without faults, programming a run of words over a flash depends on the flash alone: a word is held
if it only clears bits of what is there.  The first page with a word that is not held is reported,
and it is the last one written.

* `Programmed` is how the pages of an operation end, `programPages_clean` that they end so;
* `write_outcome` says the same of the words of a whole operation, erasing included.
-/

namespace Readout

/-- The write buffer is empty and no fault is armed. -/
structure Board.Clean (b : Board) : Prop where
  buffer : b.buffer = []
  fault : b.fault = none
  addressFaults : ∀ a : UInt32, b.addressFaults[a]? = none

/-- Without a fault a page reads as the flash holds it, and none is left behind. -/
theorem Board.Clean.readAnswer {c : Board} (h : c.Clean) (a : UInt32) (page : List Word) (n : Nat) :
    (c.withPage a page).readAnswer n = (c.flash.commit a page).read a n := by
  rw [readAnswer_withPage h.fault, h.addressFaults a, Option.elim_none]

theorem Board.Clean.withPage {c : Board} (h : c.Clean) (a : UInt32) (page : List Word) :
    (c.withPage a page).takeFault.2.Clean := by
  rw [takeFault_withPage h.fault]
  refine ⟨rfl, h.fault, fun b => ?_⟩
  rw [Std.HashMap.getElem?_erase, h.addressFaults b]
  split <;> rfl

namespace Flash

variable (limit : Option Duration) {ps : List (Nat × Nat)} {start : UInt32}

/-- The report on a page that does not read back as written. -/
def pageMismatch (start : UInt32) (index : Nat) (page read : List Word) : Mismatch :=
  { sector := sector (wordAddress start (pageWords * index)) - sector start
    page := index
    address := wordAddress start (pageWords * index)
    written := pageWords
    read := pageWords
    differing := differences 0 page read }

/-- Without faults a page is verified exactly if the flash accepts it. -/
theorem programPage_clean {j : Journal Bench} {c : Board} (h : AtDesk j c ps)
    (hc : c.Acknowledges) (hclean : c.Clean) {index : Nat} {page : List Word}
    (hpage : page.length = pageWords) (hspan : start.toNat + pageBytes * (index + 1) ≤ 2 ^ 32)
    {a : UInt32} (ha : a = wordAddress start (pageWords * index)) :
    ∃ r j' c', programPage limit a (sector a - sector start) index page j = (r, j') ∧
      AtDesk j' c' ps ∧ c'.Acknowledges ∧ c'.Clean ∧ c'.flash = c.flash.commit a page ∧
      (c.flash.Accepts a page ∧ r = .ok () ∨
        ¬ c.flash.Accepts a page ∧ r = .error (.error (.verifyMismatch
          (pageMismatch start index page
            (List.zipWith (· &&& ·) (c.flash.read a pageWords) page))))) := by
  have hne : a ≠ Command.absentWord := ha ▸ wordAddress_ne_absentWord hspan
  obtain ⟨j', hrun, hj'⟩ := programPage_step limit h hc hclean.buffer hne hpage
    (sector a - sector start) index
  have hfit : a.toNat + 4 * page.length ≤ 2 ^ 32 := by
    rw [ha, hpage]
    exact page_fits hspan
  rw [hclean.readAnswer] at hrun
  have hafter := Board.takeFault_withPage hclean.fault a page
  refine ⟨_, j', _, hrun, hj', hc.of_answers (by rw [hafter]; rfl) (by rw [hafter]; rfl),
    hclean.withPage a page, by rw [hafter]; rfl, ?_⟩
  have hiff := Nor.read_commit_eq_iff c.flash a page hfit
  have hread := Nor.read_commit c.flash a page hfit
  rw [hpage] at hiff hread
  by_cases haccepts : c.flash.Accepts a page
  · exact .inl ⟨haccepts, by rw [compare, if_pos (hiff.2 haccepts)]; rfl⟩
  · refine .inr ⟨haccepts, ?_⟩
    rw [compare, if_neg fun he => haccepts (hiff.1 he), hread]
    simp [verdict, pageMismatch, hpage, ha]

/-- A word of the run is held if it is written over what is there. -/
def Fits (old : UInt32 → Word) (words : List Word) (start : UInt32) (i : Nat) : Prop :=
  old (wordAddress start i) &&& padded words i = padded words i

instance (old : UInt32 → Word) (words : List Word) (start : UInt32) (i : Nat) :
    Decidable (Fits old words start i) := inferInstanceAs (Decidable (_ = _))

/-- The report on page `p` of a run: what is read back are the words over what was there. -/
def refusal (old : UInt32 → Word) (words : List Word) (start : UInt32) (p : Nat) : Mismatch :=
  { sector := sector (wordAddress start (pageWords * p)) - sector start
    page := p
    address := wordAddress start (pageWords * p)
    written := pageWords
    read := pageWords
    differing := ((List.range pageWords).filter fun i =>
        ¬ Fits old words start (pageWords * p + i)).map fun i =>
      (i, padded words (pageWords * p + i),
        old (wordAddress start (pageWords * p + i)) &&& padded words (pageWords * p + i)) }

/-- How programming pages from number `index` on ends, and the flash it leaves: every page is
verified, or the first page that the flash does not accept is reported and is the last one
written. -/
inductive Programmed (f : Nor) (start : UInt32) (index : Nat) (pages : List (List Word)) :
    Except Stop Unit → Nor → Prop
  | verified (haccepts : f.Accepts (wordAddress start (pageWords * index)) pages.flatten) :
    Programmed f start index pages (.ok ())
      (f.commit (wordAddress start (pageWords * index)) pages.flatten)
  | refused {done : List (List Word)} {page : List Word} {rest : List (List Word)}
      (hpages : pages = done ++ page :: rest)
      (hdone : f.Accepts (wordAddress start (pageWords * index)) done.flatten)
      (hpage : ¬ f.Accepts (wordAddress start (pageWords * (index + done.length))) page) :
    Programmed f start index pages
      (.error (.error (.verifyMismatch (pageMismatch start (index + done.length) page
        (List.zipWith (· &&& ·)
          (f.read (wordAddress start (pageWords * (index + done.length))) pageWords) page)))))
      (f.commit (wordAddress start (pageWords * index)) (done.flatten ++ page))

/-- A page that is accepted goes before pages that were programmed after it. -/
theorem Programmed.cons {f f' : Nor} {index : Nat} {page : List Word} {rest : List (List Word)}
    {r : Except Stop Unit} (hlen : ∀ q ∈ page :: rest, q.length = pageWords)
    (hspan : start.toNat + pageBytes * (index + (page :: rest).length) ≤ 2 ^ 32)
    (haccepts : f.Accepts (wordAddress start (pageWords * index)) page)
    (h : Programmed (f.commit (wordAddress start (pageWords * index)) page) start (index + 1) rest
      r f') : Programmed f start index (page :: rest) r f' := by
  have hfit := pages_fit hlen hspan
  have hnext := wordAddress_next start index (hlen page List.mem_cons_self)
  rcases h with hrest | ⟨rfl, hdone, hlast⟩
  · rw [hnext] at hrest ⊢
    rw [← Nor.commit_append, ← List.flatten_cons]
    refine .verified ?_
    rw [List.flatten_cons]
    exact Nor.accepts_commit_append _ _ _ _ hfit haccepts hrest
  · rename_i done last rest
    have hindex : index + 1 + done.length = index + (page :: done).length := by
      rw [List.length_cons, Nat.add_right_comm, Nat.add_assoc]
    have hwhere : wordAddress start (pageWords * (index + (page :: done).length)) =
        wordAddress (wordAddress start (pageWords * index))
          (page.length + done.flatten.length) := by
      rw [wordAddress_page, ← List.length_append, ← List.flatten_cons,
        length_flatten_pages fun q hq => hlen q (List.mem_append_left (last :: rest) hq)]
    have hlastLen : last.length = pageWords :=
      hlen last (List.mem_cons_of_mem _ (List.mem_append_right _ List.mem_cons_self))
    rw [List.flatten_append, List.flatten_cons, List.length_append, List.length_append] at hfit
    rw [hindex, hwhere] at hlast ⊢
    rw [hnext] at hdone ⊢
    rw [Nor.read_commit_beyond _ _ _ (Nat.le_add_right _ _) (by omega), ← Nor.commit_append,
      ← List.append_assoc, ← List.flatten_cons, ← hwhere]
    refine .refused rfl ?_ ?_
    · rw [List.flatten_cons]
      exact Nor.accepts_commit_append _ _ _ _ (by omega) haccepts hdone
    · rw [hwhere]
      exact fun h => hlast
        ((Nor.accepts_commit_beyond _ _ _ _ (Nat.le_add_right _ _) (by omega)).2 h)

/-- The first of the pages that are programmed has its address. -/
theorem programPages_cons {index : Nat} (hspan : start.toNat + pageBytes * (index + 1) ≤ 2 ^ 32)
    (page : List Word) (rest : List (List Word)) (j : Journal Bench) :
    programPages limit start index (page :: rest) j =
      (programPage limit (wordAddress start (pageWords * index))
        (sector (wordAddress start (pageWords * index)) - sector start) index page >>= fun _ =>
          programPages limit start (index + 1) rest : Host Bench Unit) j := by
  rw [programPages, page_starts hspan, Host.ofExcept_ok, Host.bind_ok (Host.pure_apply _ _)]

/-- Without faults, programming ends as the flash accepts the pages. -/
theorem programPages_clean (pages : List (List Word)) :
    ∀ (index : Nat) (j : Journal Bench) (c : Board), AtDesk j c ps → c.Acknowledges → c.Clean →
      (∀ page ∈ pages, page.length = pageWords) →
      start.toNat + pageBytes * (index + pages.length) ≤ 2 ^ 32 →
      ∃ r j' c', programPages limit start index pages j = (r, j') ∧ AtDesk j' c' ps ∧
        Programmed c.flash start index pages r c'.flash := by
  induction pages with
  | nil =>
    intro index j c h _ _ _ _
    exact ⟨.ok (), j, c, rfl, h, .verified fun i hi => absurd hi (Nat.not_lt_zero i)⟩
  | cons page rest ih =>
    intro index j c h hc hclean hlen hspan
    have hspan₁ : start.toNat + pageBytes * (index + 1) ≤ 2 ^ 32 :=
      span_mono (by simp) hspan
    obtain ⟨r, j₁, c₁, hrun, h₁, hc₁, hclean₁, hflash, ⟨hacc, rfl⟩ | ⟨hacc, rfl⟩⟩ :=
      programPage_clean limit h hc hclean (hlen page List.mem_cons_self) hspan₁ rfl
    · obtain ⟨r, j₂, c₂, hrest, h₂, hout⟩ := ih (index + 1) j₁ c₁ h₁ hc₁ hclean₁
        (fun q hq => hlen q (List.mem_cons_of_mem _ hq))
        (by rw [Nat.add_right_comm]; exact hspan)
      refine ⟨r, j₂, c₂, ?_, h₂, Programmed.cons hlen hspan hacc (hflash ▸ hout)⟩
      rw [programPages_cons limit hspan₁, Host.bind_ok hrun]
      exact hrest
    · have hend : Programmed c.flash start index (page :: rest) _ _ :=
        .refused (List.nil_append _).symm (fun i hi => absurd hi (Nat.not_lt_zero i)) hacc
      refine ⟨_, j₁, c₁, ?_, h₁, hflash ▸ hend⟩
      rw [programPages_cons limit hspan₁, Host.bind_error hrun]
      rfl

/-! ## The words of an operation -/

/-- How a run of `n` words ended: all of `words` fits and is held, or some of it does not, and the
first page with such a word is the last one written. -/
theorem Programmed.outcome {f f' : Nor} {words : List Word} {n : Nat} {r : Except Stop Unit}
    (hspan : start.toNat + pageBytes * n ≤ 2 ^ 32)
    (h : Programmed f start 0 (pagesOf n words) r f') :
    (∀ i < pageWords * n, Fits f.word words start i) ∧ r = .ok () ∧
        f'.Holds f.word start (pageWords * n) (padded words) ∨
      ∃ p < n, (∀ i < pageWords * p, Fits f.word words start i) ∧
        (∃ i < pageWords, ¬ Fits f.word words start (pageWords * p + i)) ∧
        r = .error (.error (.verifyMismatch (refusal f.word words start p))) ∧
        f'.Holds f.word start (pageWords * (p + 1))
          fun i => f.word (wordAddress start i) &&& padded words i := by
  have hzero : wordAddress start (pageWords * 0) = start := wordAddress_zero start
  have hfit : ∀ p ≤ n, start.toNat + 4 * (pageWords * p) ≤ 2 ^ 32 := by
    intro p hp
    refine Nat.le_trans (Nat.add_le_add_left ?_ _) hspan
    rw [← Nat.mul_assoc]
    exact Nat.mul_le_mul_left _ hp
  rcases h with haccepts | ⟨hsplit, hdone, hpage⟩
  · rw [hzero, pagesOf_eq, flatten_pages] at haccepts ⊢
    have hfits := (Nor.accepts_map_range ..).1 haccepts
    exact .inl ⟨hfits, rfl, (Nor.holds_commit _ _ _ _ (hfit n (Nat.le_refl _))).congr hfits⟩
  · rename_i done page rest
    obtain ⟨hp, rfl, hflat⟩ := pagesOf_split hsplit
    rw [hzero, hflat] at hdone
    rw [hzero, hflat, map_padded_append_pageAt, Nat.zero_add]
    rw [Nat.zero_add, pageAt, Nor.accepts_map_range] at hpage
    simp only [wordAddress_wordAddress] at hpage
    refine .inr ⟨done.length, hp, (Nor.accepts_map_range ..).1 hdone, ?_, ?_,
      Nor.holds_commit _ _ _ _ (hfit _ hp)⟩
    · obtain ⟨i, hi⟩ := Classical.not_forall.1 hpage
      exact ⟨i, Classical.not_imp.1 hi⟩
    · rw [pageMismatch, refusal, Nor.read_eq, pageAt, List.zipWith_map, List.zipWith_self,
        differences_map]
      simp only [wordAddress_wordAddress, Nat.zero_add, Fits, ne_eq, eq_comm]

/-! ## The whole operation -/

/-- The flash that the words of an operation are written over. -/
def prepared (f : Nor) (start : UInt32) (erasing : Bool) : Nor :=
  if erasing then f.eraseSector start else f

/-- What an address holds before the words of an operation are written. -/
def before (f : Nor) (start : UInt32) (erasing : Bool) (a : UInt32) : Word :=
  if erasing = true ∧ sector a = sector start then erasedWord else f.word a

theorem word_prepared (f : Nor) (start : UInt32) (erasing : Bool) :
    (prepared f start erasing).word = before f start erasing := by
  funext a
  cases erasing <;> simp [prepared, before, Nor.word_eraseSector]

/-- An operation clears the buffer, sets its address and erases if wanted; then it programs its
pages.  What waits on the firmware port still waits then. -/
theorem write_opens {j : Journal Bench} {c : Board} {q : List Bytes} (h : Waiting j c q ps)
    (hc : c.Acknowledges) (hfault : c.fault = none)
    (hfaults : ∀ a : UInt32, c.addressFaults[a]? = none)
    {words : List Word} (hwords : words.length ≤ 16384)
    (hspan : start.toNat + pageBytes * pageCount words.length ≤ 2 ^ 32) (erasing : Bool) :
    ∃ j' c', Waiting j' c' q ps ∧ c'.Acknowledges ∧ c'.Clean ∧
      c'.flash = prepared c.flash start erasing ∧
      ∀ {r j''}, programPages limit start 0 (pagesOf (pageCount words.length) words) j' = (r, j'') →
        write limit words start erasing j =
          ((fun _ => pageCount words.length * pageWords) <$> r, j'') := by
  have hstart := start_ne_absentWord (pageCount_pos _) hspan
  obtain ⟨j₁, hclear, h₁⟩ := clear_step limit h hc
  obtain ⟨j₂, hseek, h₂⟩ := seek_step limit h₁ (hc.of_answers rfl rfl) hstart
  have herase : ∃ j₃ c₃, (if erasing then erase limit else pure () : Host Bench Unit) j₂ =
      (.ok (), j₃) ∧ Waiting j₃ c₃ q ps ∧ c₃.Acknowledges ∧ c₃.Clean ∧
        c₃.flash = prepared c.flash start erasing := by
    cases erasing with
    | false => exact ⟨j₂, _, rfl, h₂, hc.of_answers rfl rfl, ⟨rfl, hfault, hfaults⟩, rfl⟩
    | true =>
      obtain ⟨j₃, hrun, h₃⟩ := erase_step limit h₂ (hc.of_answers rfl rfl)
      exact ⟨j₃, _, hrun, h₃, hc.of_answers rfl rfl, ⟨rfl, hfault, hfaults⟩, rfl⟩
  obtain ⟨j₃, c₃, herase, h₃, hc₃, hclean₃, hflash⟩ := herase
  refine ⟨j₃, c₃, h₃, hc₃, hclean₃, hflash, fun {r j''} hpages => ?_⟩
  rw [write_eq, if_neg (by rw [sectorBytes]; omega), checkSpan_eq_ok (pageCount_pos _) hspan]
  rw [Host.ofExcept_ok, Host.bind_ok (Host.pure_apply _ _), writeParts, Host.bind_ok hclear,
    Host.bind_ok hseek, Host.bind_ok herase, Host.bind_apply, hpages]
  cases r <;> rfl

/-- The pages of an operation are whole. -/
theorem length_of_mem_pagesOf {n : Nat} {words page : List Word} (h : page ∈ pagesOf n words) :
    page.length = pageWords := by
  rw [pagesOf_eq] at h
  obtain ⟨k, -, rfl⟩ := List.mem_map.1 h
  exact length_pageAt words k

@[simp] theorem length_pagesOf (n : Nat) (words : List Word) : (pagesOf n words).length = n := by
  rw [pagesOf_eq, List.length_map, List.length_range]

/-- An operation that finds no page waiting programs its pages as the flash accepts them. -/
theorem write_steps {j : Journal Bench} {c : Board} (h : AtDesk j c ps) (hc : c.Acknowledges)
    (hfault : c.fault = none) (hfaults : ∀ a : UInt32, c.addressFaults[a]? = none)
    {words : List Word} (hwords : words.length ≤ 16384)
    (hspan : start.toNat + pageBytes * pageCount words.length ≤ 2 ^ 32) (erasing : Bool) :
    ∃ r j' c', write limit words start erasing j =
        ((fun _ => pageCount words.length * pageWords) <$> r, j') ∧ AtDesk j' c' ps ∧
      Programmed (prepared c.flash start erasing) start 0
        (pagesOf (pageCount words.length) words) r c'.flash := by
  obtain ⟨j₁, c₁, h₁, hc₁, hclean₁, hflash, hwrite⟩ :=
    write_opens limit h hc hfault hfaults hwords hspan erasing
  obtain ⟨r, j₂, c₂, hpages, h₂, hend⟩ := programPages_clean limit
    (pagesOf (pageCount words.length) words) 0 j₁ c₁ h₁ hc₁ hclean₁
    (fun page hpage => length_of_mem_pagesOf hpage)
    (by rw [length_pagesOf, Nat.zero_add]; exact hspan)
  exact ⟨r, j₂, c₂, hwrite hpages, h₂, hflash ▸ hend⟩

/-- The words of a run within the sector of its start. -/
theorem sector_wordAddress_of_within {i : Nat}
    (h : start.toNat % sectorBytes + 4 * i < sectorBytes) :
    sector (wordAddress start i) = sector start := by
  have hstart := start.toNat_lt
  simp only [sectorBytes] at h
  rw [sector, sector, toNat_wordAddress (by omega), sectorBytes]
  omega

/-- An erased sector accepts all words that lie in it. -/
theorem fits_of_within {f : Nor} {words : List Word} {i : Nat}
    (h : start.toNat % sectorBytes + 4 * i < sectorBytes) :
    Fits (before f start true) words start i := by
  rw [Fits, before, if_pos ⟨rfl, sector_wordAddress_of_within h⟩, erasedWord_and]

/-- The pages of an operation within one sector. -/
theorem bounds_of_within {words : List Word}
    (hsector : start.toNat % sectorBytes + pageBytes * pageCount words.length ≤ sectorBytes) :
    words.length ≤ 16384 ∧ start.toNat + pageBytes * pageCount words.length ≤ 2 ^ 32 := by
  have hstart := start.toNat_lt
  simp only [pageBytes, sectorBytes] at hsector ⊢
  refine ⟨?_, by omega⟩
  simp only [pageCount, groups, pageWords] at hsector
  omega

/-- The words of an operation that lie within one sector fit over the erased sector. -/
theorem fits_erased {f : Nor} {words : List Word}
    (hsector : start.toNat % sectorBytes + pageBytes * pageCount words.length ≤ sectorBytes) :
    ∀ i < pageWords * pageCount words.length, Fits (before f start true) words start i := by
  intro i hi
  refine fits_of_within ?_
  simp only [pageBytes, pageWords] at hi hsector
  omega

/-- An erased sector takes whatever words lie in it. -/
theorem write_erased {j : Journal Bench} (hclear : j.link.Clear)
    (hboard : j.link.board.Acknowledges) (hfault : j.link.board.fault = none)
    (hfaults : ∀ a : UInt32, j.link.board.addressFaults[a]? = none)
    (hqueue : j.link.board.queue firmwarePort = []) {words : List Word}
    (hsector : start.toNat % sectorBytes + pageBytes * pageCount words.length ≤ sectorBytes) :
    ∃ j', write limit words start true j = (.ok (pageCount words.length * pageWords), j') ∧
      j'.link.board.flash.Holds (before j.link.board.flash start true) start
        (pageWords * pageCount words.length) (padded words) := by
  obtain ⟨hwords, hspan⟩ := bounds_of_within hsector
  obtain ⟨r, j', c', hrun, hdesk, hprogrammed⟩ := write_steps limit ⟨hclear, rfl, hqueue, rfl⟩
    (hboard.of_answers rfl rfl) hfault hfaults hwords hspan true
  have hflash := Board.flash_of_quiet hdesk.board
  have houtcome := hprogrammed.outcome hspan
  rw [Board.flash_quiet, word_prepared] at houtcome
  obtain ⟨-, rfl, hholds⟩ | ⟨p, hp, -, ⟨i, hi, hmiss⟩, -⟩ := houtcome
  · exact ⟨j', hrun, hflash ▸ hholds⟩
  · refine absurd (fits_erased hsector _ ?_) hmiss
    have hpage := Nat.mul_le_mul_left pageWords (Nat.succ_le_of_lt hp)
    rw [Nat.mul_succ] at hpage
    omega

/-- **Programming words, without faults.**  `old` is what the addresses hold before the words are
written, `n` the number of words with their padding.  The operation succeeds exactly if every word
fits over what is there; then the run holds the words and nothing else has changed.  Otherwise the
first page with a word that does not fit is reported with all its differences; that page and the
ones before it are written, and nothing after it. -/
theorem write_outcome {j : Journal Bench} (hclear : j.link.Clear)
    (hboard : j.link.board.Acknowledges) (hfault : j.link.board.fault = none)
    (hfaults : ∀ a : UInt32, j.link.board.addressFaults[a]? = none)
    (hqueue : j.link.board.queue firmwarePort = []) {words : List Word}
    (hwords : words.length ≤ 16384)
    (hspan : start.toNat + pageBytes * pageCount words.length ≤ 0xFFFF0000) (erasing : Bool) :
    let old := before j.link.board.flash start erasing
    let n := pageCount words.length * pageWords
    ∃ result j', write limit words start erasing j = (result, j') ∧
      (result = .ok n ↔ ∀ i < n, Fits old words start i) ∧
      ((∀ i < n, Fits old words start i) →
        j'.link.board.flash.Holds old start n (padded words)) ∧
      (¬ (∀ i < n, Fits old words start i) → ∃ p < pageCount words.length,
        (∀ i < pageWords * p, Fits old words start i) ∧
        (∃ i < pageWords, ¬ Fits old words start (pageWords * p + i)) ∧
        result = .error (.error (.verifyMismatch (refusal old words start p))) ∧
        j'.link.board.flash.Holds old start (pageWords * (p + 1))
          fun i => old (wordAddress start i) &&& padded words i) := by
  intro old n
  have hdesk : AtDesk j j.link.board.quiet j.progress := ⟨hclear, rfl, hqueue, rfl⟩
  have hspan' : start.toNat + pageBytes * pageCount words.length ≤ 2 ^ 32 :=
    Nat.le_trans hspan (by decide)
  obtain ⟨r, j', c', hrun, hdesk', hend⟩ := write_steps limit hdesk
    (hboard.of_answers rfl rfl) hfault hfaults hwords hspan' erasing
  have hflash : j'.link.board.flash = c'.flash := by rw [← hdesk'.board, Board.flash_quiet]
  have hout := hend.outcome hspan'
  rw [Board.flash_quiet, word_prepared] at hout
  rw [Nat.mul_comm] at hout
  refine ⟨_, j', hrun, ?_⟩
  rw [hflash]
  obtain ⟨hfits, rfl, hholds⟩ | ⟨p, hp, hbefore, ⟨i, hi, hmiss⟩, rfl, hholds⟩ := hout
  · exact ⟨⟨fun _ => hfits, fun _ => rfl⟩, fun _ => hholds, fun h => absurd hfits h⟩
  · have hnot : ¬ ∀ i < n, Fits old words start i := by
      intro h
      refine hmiss (h _ ?_)
      show pageWords * p + i < pageCount words.length * pageWords
      have := Nat.mul_le_mul_right pageWords (Nat.succ_le_of_lt hp)
      rw [Nat.succ_mul, Nat.mul_comm p] at this
      omega
    exact ⟨⟨fun h => (by cases h), fun h => absurd h hnot⟩, fun h => absurd h hnot,
      fun _ => ⟨p, hp, hbefore, ⟨i, hi, hmiss⟩, rfl, hholds⟩⟩

theorem fits_answering (answers : Std.HashMap String (List Word)) (words : List Word)
    (start : UInt32) (erasing : Bool) (i : Nat) :
    Fits (before (answering answers).link.board.flash start erasing) words start i := by
  have herased : ∀ a, before (answering answers).link.board.flash start erasing a = erasedWord := by
    intro a
    rw [before]
    split
    · rfl
    · exact Std.HashMap.getD_empty
  rw [Fits, herased, erasedWord_and]

theorem write_outcome_erased :
    ∃ j', write none [1, 2] 0x100 false (answering {}) = (.ok 64, j') ∧
      j'.link.board.flash.word 0x104 = 2 := by
  have hstep := answering_inStep {}
  obtain ⟨result, j', hrun, hiff, hholds, -⟩ := write_outcome none hstep.toClear
    answering_acknowledges rfl (fun a => Std.HashMap.getElem?_empty) hstep.pages
    (by decide : [(1 : Word), 2].length ≤ 16384)
    (by decide : (0x100 : UInt32).toNat + pageBytes * pageCount 2 ≤ 0xFFFF0000) false
  have hfits := fits_answering {} [1, 2] 0x100 false
  obtain rfl := hiff.2 fun i _ => hfits i
  exact ⟨j', hrun, (hholds fun i _ => hfits i).1 1 (by decide)⟩

/-- The answers of a board whose first answer holds the marker, but past the longest datagram. -/
def lateMarker : Std.HashMap String (List Word) :=
  ({} : Std.HashMap String (List Word)).insert Command.clearBuffers
    (List.replicate (maxDatagram / 4) 0 ++ [Command.doneMarker])

theorem lateMarker_contains (name : String) :
    Command.containsDone
      ((answering lateMarker).link.board.answers.getD name [Command.doneMarker]) = true := by
  rw [answering, lateMarker, Std.HashMap.getD_insert]
  split
  · rw [Command.containsDone, List.any_append]
    exact Bool.or_eq_true_iff.2 (.inr (by decide))
  · rw [Std.HashMap.getD_empty]
    decide

/-- A marker past the longest datagram is waited for in vain. -/
theorem clear_lateMarker :
    ∃ j', clear (some (Duration.milliseconds 1)) (answering lateMarker) =
      (.error (.error .timeout), j') := by
  have hreply : Command.containsDone
      ((answering lateMarker).link.board.reply Command.clearBuffers) = false := by
    rw [Board.reply, answering, lateMarker, Std.HashMap.getD_insert_self,
      List.take_left' List.length_replicate, Command.containsDone, List.any_replicate]
    decide
  have hname : Word.ascii (Word.ofAscii Command.clearBuffers) = Command.clearBuffers := by decide
  obtain ⟨r, j', hrun, hsettled, -, hlate⟩ := Exchange.execute_inStep
    (by decide : Duration.milliseconds 1 ≠ 0) (answering_inStep lateMarker)
    (rfl : Command.frame { name := Command.clearBuffers } = .ok _)
    (by rw [Command.heard, hname]; decide)
  rw [Command.heard, hname] at hlate
  have htimeout : r = .error (.error .timeout) := by
    refine (hlate hreply).resolve_right fun hnever => ?_
    have hfar : ¬ Duration.seconds 1 < 0 + Duration.milliseconds 1 +
        Exchange.slice (Duration.milliseconds 1) := by decide
    exact hfar (hsettled.ends hnever)
  exact ⟨j', htimeout ▸ hrun⟩

/-- The operation ends in a timeout then, though every answer holds the marker and every word
fits. -/
theorem write_lateMarker :
    (answering lateMarker).link.InStep ∧
      (∀ name ∈ [Command.clearBuffers, Command.setAddress, Command.eraseSector, Command.commit],
        Command.containsDone
          ((answering lateMarker).link.board.answers.getD name [Command.doneMarker]) = true) ∧
      (answering lateMarker).link.board.fault = none ∧
      (∀ a : UInt32, (answering lateMarker).link.board.addressFaults[a]? = none) ∧
      (∀ i < 64, Fits (before (answering lateMarker).link.board.flash 0 true) [7] 0 i) ∧
      (write (some (Duration.milliseconds 1)) [7] 0 true (answering lateMarker)).1 =
        .error (.error .timeout) := by
  refine ⟨answering_inStep lateMarker, fun name _ => lateMarker_contains name, rfl,
    fun a => Std.HashMap.getElem?_empty, fun i _ => fits_answering _ _ _ _ i, ?_⟩
  obtain ⟨j', hclear⟩ := clear_lateMarker
  rw [write_eq, if_neg (by decide), checkSpan_eq_ok (pageCount_pos _) (by decide),
    Host.ofExcept_ok, Host.bind_ok (Host.pure_apply _ _), writeParts, Host.bind_error hclear]

end Flash

end Readout
