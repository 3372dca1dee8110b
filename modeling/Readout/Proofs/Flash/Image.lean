import Readout.Proofs.Flash.ImageWords
import Readout.Proofs.Flash.Parts
import Readout.Proofs.Flash.Verify
/-!
# Programming images on the bench

An image is programmed from a sector boundary on.  Before page `k` is written, the pages before it
hold their words, the sectors up to the one of page `k` are erased, and nothing else has changed;
this is `Filled`.  A round of the loop opens the sector of its page if it is a new one, and fills
the page.

* `open_step` and `page_step` are the two parts of a round, `round_step` is a round;
* `Rounds` is how the rounds of an operation end, `writeImagePages_run` that they end so;
* `writeImage_outcome` is the operation: its result, what is in flash then, and what was reported.
-/

namespace Readout.Flash

variable (limit : Option Duration) {ps : List (Nat × Nat)} {start : UInt32}

/-! ## Sectors -/

/-- The number of sectors that pages from a sector boundary on reach into. -/
def sectorCount (pages : Nat) : Nat := groups (sectorBytes / pageBytes) pages

/-- The first address of a sector, counted from the one of `start`. -/
def sectorAddress (start : UInt32) (s : Nat) : UInt32 :=
  UInt32.ofNat (start.toNat + sectorBytes * s)

theorem sectorCount_succ (i : Nat) : sectorCount (i + 1) = i / 256 + 1 := by
  simp only [sectorCount, groups, sectorBytes, pageBytes]
  omega

theorem sectorCount_of_aligned {i : Nat} (h : i % 256 = 0) : sectorCount i = i / 256 := by
  simp only [sectorCount, groups, sectorBytes, pageBytes]
  omega

theorem sectorCount_of_unaligned {i : Nat} (h : i % 256 ≠ 0) : sectorCount i = i / 256 + 1 := by
  simp only [sectorCount, groups, sectorBytes, pageBytes]
  omega

section
variable {i : Nat} (hstart : start.toNat % sectorBytes = 0)
include hstart

theorem sector_wordAddress (hfit : start.toNat + 4 * i < 2 ^ 32) :
    sector (wordAddress start i) = sector start + i / 16384 := by
  rw [sector, toNat_wordAddress hfit, sector]
  simp only [sectorBytes] at hstart ⊢
  omega

theorem sector_page (hfit : start.toNat + 4 * (pageWords * i) < 2 ^ 32) :
    sector (wordAddress start (pageWords * i)) = sector start + i / 256 := by
  rw [sector_wordAddress hstart hfit]
  simp only [pageWords]
  omega

theorem base_sector (hfit : start.toNat + 4 * (pageWords * i) < 2 ^ 32) :
    UInt32.ofNat (sector (wordAddress start (pageWords * i)) * sectorBytes) =
      sectorAddress start (i / 256) := by
  rw [sector_page hstart hfit, sectorAddress, sector]
  congr 1
  simp only [sectorBytes] at hstart ⊢
  omega

theorem page_aligned_iff (hfit : start.toNat + 4 * (pageWords * i) < 2 ^ 32) :
    (wordAddress start (pageWords * i)).toNat % sectorBytes = 0 ↔ i % 256 = 0 := by
  rw [toNat_wordAddress hfit]
  simp only [sectorBytes, pageWords] at hstart ⊢
  omega

/-- The sector number that a round works out, given the one of the round before. -/
theorem current_eq {last : Nat} (hlast : i % 256 ≠ 0 → last = i / 256)
    (hfit : start.toNat + 4 * (pageWords * i) < 2 ^ 32) :
    (if (wordAddress start (pageWords * i)).toNat % sectorBytes = 0
      then ((wordAddress start (pageWords * i)).toNat - start.toNat) / sectorBytes else last) =
      i / 256 := by
  by_cases hi : i % 256 = 0
  · rw [if_pos ((page_aligned_iff hstart hfit).2 hi), toNat_wordAddress hfit]
    simp only [sectorBytes, pageWords]
    omega
  · rw [if_neg fun h => hi ((page_aligned_iff hstart hfit).1 h)]
    exact hlast hi

end

/-- What an address holds once sectors from the one of `start` on are erased. -/
def cleared (f : Nor) (start : UInt32) (sectors : Nat) (a : UInt32) : Word :=
  if sector start ≤ sector a ∧ sector a < sector start + sectors then erasedWord else f.word a

/-- Erasing the next sector leaves what was written before. -/
theorem holds_eraseSector {f f₀ : Nor} {g : Nat → Word} {i : Nat}
    (hstart : start.toNat % sectorBytes = 0) (hi : i % 256 = 0)
    (hfit : start.toNat + 4 * (pageWords * i) < 2 ^ 32)
    (h : f.Holds (cleared f₀ start (i / 256)) start (pageWords * i) g) :
    (f.eraseSector (wordAddress start (pageWords * i))).Holds (cleared f₀ start (i / 256 + 1)) start
      (pageWords * i) g := by
  have hsector := sector_page hstart hfit
  refine ⟨fun k hk => ?_, fun a ha => ?_⟩
  · have hbefore : sector (wordAddress start k) ≠ sector (wordAddress start (pageWords * i)) := by
      rw [hsector, sector_wordAddress hstart (by omega)]
      simp only [pageWords] at hk
      omega
    rw [Nor.word_eraseSector, if_neg hbefore, h.1 k hk]
  · rw [Nor.word_eraseSector, hsector, h.2 a ha, cleared, cleared]
    by_cases he : sector a = sector start + i / 256
    · rw [if_pos he, if_pos (by omega)]
    · rw [if_neg he]
      congr 1
      simp only [eq_iff_iff]
      omega

/-! ## Rounds -/

/-- The board after the first `i` pages of an image with its words `g` were written and `sectors`
sectors erased, when it was `c₀` before; the faults of the pages to come are still armed. -/
structure Filled (c₀ : Board) (start : UInt32) (g : Nat → Word) (i sectors : Nat) (c : Board) :
    Prop where
  answers : c.answers = c₀.answers
  silent : c.silent = c₀.silent
  buffer : c.buffer = []
  fault : c.fault = none
  faults : ∀ k, i ≤ k → start.toNat + 4 * (pageWords * k) < 2 ^ 32 →
    c.addressFaults[wordAddress start (pageWords * k)]? =
      c₀.addressFaults[wordAddress start (pageWords * k)]?
  flash : c.flash.Holds (cleared c₀.flash start sectors) start (pageWords * i) g
  erased : c.erased.toList =
    c₀.erased.toList ++ (List.range sectors).map (sectorAddress start)

variable {c₀ c : Board} {g : Nat → Word} {i : Nat} {j : Journal Bench}

/-- The part of a round before its page: the address is set, and a new sector erased. -/
theorem open_step (hstart : start.toNat % sectorBytes = 0)
    (hspan : start.toNat + pageBytes * (i + 1) ≤ 2 ^ 32) (hc₀ : c₀.Acknowledges)
    (h : AtDesk j c ps) (hf : Filled c₀ start g i (sectorCount i) c) :
    ∃ j' c', openPage limit (wordAddress start (pageWords * i)) j = (.ok (), j') ∧
      AtDesk j' c' ps ∧ Filled c₀ start g i (sectorCount (i + 1)) c' := by
  have hfit := page_lt hspan
  have hc : c.Acknowledges := hc₀.of_answers hf.silent hf.answers
  obtain ⟨j₁, hseek, h₁⟩ := seek_step limit h hc (wordAddress_ne_absentWord hspan)
  by_cases hi : i % 256 = 0
  · obtain ⟨j₂, herase, h₂⟩ := erase_step limit h₁ (hc.of_answers rfl rfl)
    rw [sectorCount_of_aligned hi] at hf
    refine ⟨j₂, _, ?_, h₂, { hf with flash := ?_, erased := ?_ }⟩
    · rw [openPage, Host.bind_ok hseek, if_pos ((page_aligned_iff hstart hfit).2 hi), herase]
    · rw [sectorCount_succ]
      exact holds_eraseSector hstart hi hfit hf.flash
    · rw [sectorCount_succ, List.range_succ, List.map_append, ← List.append_assoc, ← hf.erased,
        List.map_singleton, ← base_sector hstart hfit]
      exact Array.toList_push
  · rw [sectorCount_of_unaligned hi, ← sectorCount_succ] at hf
    refine ⟨j₁, _, ?_, h₁, { hf with }⟩
    rw [openPage, Host.bind_ok hseek, if_neg fun he => hi ((page_aligned_iff hstart hfit).1 he)]
    rfl

/-- The fault that shows when page `k` of an operation is read back, if there is one. -/
def shownFault? (b : Board) (start : UInt32) (k : Nat) : Option Fault :=
  b.addressFaults[wordAddress start (pageWords * k)]?.filter fun f => f.Shows

/-- The report on page `k` of an image that was read back with a fault. -/
def faultMismatch (words : List Word) (start : UInt32) (k : Nat) (f : Fault) : Mismatch :=
  { sector := k / 256
    page := k
    address := wordAddress start (pageWords * k)
    written := pageWords
    read := pageWords
    differing := [(f.word, padded words (pageWords * k + f.word),
      padded words (pageWords * k + f.word) ^^^ f.mask)] }

/-- What is read back of a page, with the fault that is armed for it, is judged by that fault. -/
theorem compare_shown (b : Board) (start : UInt32) (words : List Word) (i : Nat) :
    compare (wordAddress start (pageWords * i)) (i / 256) i (pageAt words i)
      (b.addressFaults[wordAddress start (pageWords * i)]?.elim (pageAt words i)
        fun f => Board.falsify f (pageAt words i)) =
      (shownFault? b start i).map (faultMismatch words start i) := by
  rw [shownFault?]
  cases b.addressFaults[wordAddress start (pageWords * i)]? with
  | none => rw [Option.elim_none, compare, if_pos rfl]; rfl
  | some f =>
    rw [Option.elim_some, compare_falsify, Option.filter_some]
    by_cases hshows : f.Shows
    · simp only [hshows, if_true, decide_true]; rfl
    · simp only [hshows, if_false, decide_false]; rfl

/-- The words of a page are erased once its sector is. -/
theorem cleared_page (f : Nor) (hstart : start.toNat % sectorBytes = 0)
    (hspan : start.toNat + pageBytes * (i + 1) ≤ 2 ^ 32) {t : Nat} (ht : t < pageWords) :
    cleared f start (sectorCount (i + 1)) (wordAddress start (pageWords * i + t)) = erasedWord := by
  have hend := page_end hspan
  have hsector : (pageWords * i + t) / 16384 = i / 256 := by
    simp only [pageWords] at ht ⊢
    omega
  rw [cleared, sector_wordAddress hstart (by omega), hsector, sectorCount_succ,
    if_pos ⟨Nat.le_add_right _ _, Nat.add_lt_add_left (Nat.lt_succ_self _) _⟩]

/-- A page that is written in an erased sector reads as it was written. -/
theorem Filled.read_page (words : List Word)
    (hf : Filled c₀ start g i (sectorCount (i + 1)) c) (hstart : start.toNat % sectorBytes = 0)
    (hspan : start.toNat + pageBytes * (i + 1) ≤ 2 ^ 32) :
    (c.flash.commit (wordAddress start (pageWords * i)) (pageAt words i)).read
      (wordAddress start (pageWords * i)) pageWords = pageAt words i := by
  have hpage := length_pageAt words i
  have hend := page_end hspan
  have hfits := page_fits hspan
  have haccepts : c.flash.Accepts (wordAddress start (pageWords * i)) (pageAt words i) := by
    rw [pageAt, Nor.accepts_map_range]
    intro t ht
    rw [wordAddress_wordAddress, hf.flash.beyond (Nat.le_add_right _ _) (by omega),
      cleared_page _ hstart hspan ht, erasedWord_and]
  have hsame := (Nor.read_commit_eq_iff c.flash _ (pageAt words i) (by rwa [hpage])).2 haccepts
  rwa [hpage] at hsame

/-- The page of a round is written whatever is read back, and the fault that shows is reported. -/
theorem page_step {words : List Word} (hstart : start.toNat % sectorBytes = 0)
    (hspan : start.toNat + pageBytes * (i + 1) ≤ 2 ^ 32) (hc₀ : c₀.Acknowledges)
    (h : AtDesk j c ps) (hf : Filled c₀ start (padded words) i (sectorCount (i + 1)) c) :
    ∃ j' c', programPage limit (wordAddress start (pageWords * i)) (i / 256) i (pageAt words i) j =
        (verdict ((shownFault? c₀ start i).map (faultMismatch words start i)), j') ∧
      AtDesk j' c' ps ∧ Filled c₀ start (padded words) (i + 1) (sectorCount (i + 1)) c' := by
  have hpage := length_pageAt words i
  have hread := hf.read_page words hstart hspan
  have hheld : (c.flash.commit (wordAddress start (pageWords * i)) (pageAt words i)).Holds
      (cleared c₀.flash start (sectorCount (i + 1))) start (pageWords * (i + 1)) (padded words) :=
    hf.flash.commit (page_end hspan) fun _ ht => cleared_page _ hstart hspan ht
  have hverdict := compare_shown c₀ start words i
  -- from here on the page is any page: its words must not be computed
  generalize pageAt words i = page at *
  obtain ⟨j', hrun, hj'⟩ := programPage_step limit h (hc₀.of_answers hf.silent hf.answers)
    hf.buffer (wordAddress_ne_absentWord hspan) hpage (i / 256) i
  rw [Board.readAnswer_withPage hf.fault, hf.faults i (Nat.le_refl _) (page_lt hspan), hread,
    hverdict] at hrun
  rw [Board.takeFault_withPage hf.fault] at hj'
  refine ⟨j', _, hrun, hj', ?_, ?_, rfl, ?_, fun k hk hkfit => ?_, hheld, ?_⟩
  · exact hf.answers
  · exact hf.silent
  · exact hf.fault
  · have hne : wordAddress start (pageWords * i) ≠ wordAddress start (pageWords * k) := by
      rw [Ne, wordAddress_inj (page_lt hspan) hkfit]
      simp only [pageWords]
      omega
    rw [Std.HashMap.getElem?_erase, if_neg (by simpa using hne)]
    exact hf.faults k (by omega) hkfit
  · exact hf.erased

/-- A round opens its page, programs it, and reports it if it is verified. -/
theorem round_step {words : List Word} (total : Nat) {last : Nat}
    (hstart : start.toNat % sectorBytes = 0) (hspan : start.toNat + pageBytes * (i + 1) ≤ 2 ^ 32)
    (hc₀ : c₀.Acknowledges) (hlast : i % 256 ≠ 0 → last = i / 256) (h : AtDesk j c ps)
    (hf : Filled c₀ start (padded words) i (sectorCount i) c) :
    ∃ j' c', imageRound limit start (wordAddress start (pageWords * i)) total i last
        (pageAt words i) j =
          (verdict ((shownFault? c₀ start i).map (faultMismatch words start i)), j') ∧
      AtDesk j' c' (ps ++ (if shownFault? c₀ start i = none then [(i + 1, total)] else [])) ∧
      Filled c₀ start (padded words) (i + 1) (sectorCount (i + 1)) c' := by
  obtain ⟨j₁, c₁, hopen, h₁, hf₁⟩ := open_step limit hstart hspan hc₀ h hf
  obtain ⟨j₂, c₂, hpage, h₂, hf₂⟩ := page_step limit hstart hspan hc₀ h₁ hf₁
  rw [imageRound, Host.bind_ok hopen, current_eq hstart hlast (page_lt hspan)]
  cases hshown : shownFault? c₀ start i with
  | none =>
    rw [hshown] at hpage
    rw [Host.bind_ok hpage, if_pos rfl]
    exact ⟨_, c₂, rfl, h₂.note (i + 1) total, hf₂⟩
  | some f =>
    rw [hshown] at hpage
    rw [Host.bind_error hpage, if_neg (by simp), List.append_nil]
    exact ⟨j₂, c₂, rfl, h₂, hf₂⟩

/-! ## The whole image -/

/-- The reports of the rounds of `n` pages from number `i` of `total` on. -/
def reports (total i n : Nat) : List (Nat × Nat) := (List.range n).map fun k => (i + k + 1, total)

theorem reports_succ (total i n : Nat) :
    reports total i (n + 1) = (i + 1, total) :: reports total (i + 1) n := by
  rw [reports, List.range_succ_eq_map, List.map_cons, List.map_map]
  congr 1
  refine List.map_congr_left fun k _ => ?_
  show (i + (k + 1) + 1, total) = (i + 1 + k + 1, total)
  rw [Nat.add_right_comm i 1 k, Nat.add_assoc i k 1]

/-- How the rounds of `pages` pages from number `i` on end: with the number of pages that are
written then, and with the reports made. -/
inductive Rounds (b : Board) (words : List Word) (start : UInt32) (total i pages : Nat) :
    Except Stop Unit → Nat → List (Nat × Nat) → Prop
  | verified (hall : ∀ k, i ≤ k → k < i + pages → shownFault? b start k = none) :
    Rounds b words start total i pages (.ok ()) (i + pages) (reports total i pages)
  | refused {n : Nat} {f : Fault} (hn : n < pages)
      (hbefore : ∀ k, i ≤ k → k < i + n → shownFault? b start k = none)
      (hfault : shownFault? b start (i + n) = some f) :
    Rounds b words start total i pages
      (.error (.error (.verifyMismatch (faultMismatch words start (i + n) f)))) (i + n + 1)
      (reports total i n)

/-- A verified page goes before the rounds after it. -/
theorem Rounds.cons {b : Board} {words : List Word} {total pages k : Nat} {r : Except Stop Unit}
    {rs : List (Nat × Nat)} (hpage : shownFault? b start i = none)
    (h : Rounds b words start total (i + 1) pages r k rs) :
    Rounds b words start total i (pages + 1) r k ((i + 1, total) :: rs) := by
  have hall : ∀ {n}, (∀ k, i + 1 ≤ k → k < i + 1 + n → shownFault? b start k = none) →
      ∀ k, i ≤ k → k < i + (n + 1) → shownFault? b start k = none := by
    intro n hrest k hk hkn
    rcases Nat.eq_or_lt_of_le hk with rfl | hlt
    · exact hpage
    · exact hrest k hlt (by omega)
  rcases h with hrest | ⟨hn, hbefore, hfault⟩
  · rw [← reports_succ, show i + 1 + pages = i + (pages + 1) by omega]
    exact .verified (hall hrest)
  · rename_i n f
    rw [show i + 1 + n = i + (n + 1) by omega] at hfault ⊢
    rw [← reports_succ]
    exact .refused (Nat.succ_lt_succ hn) (hall hbefore) hfault

theorem writeImagePages_run (image : Bytes) (total pages : Nat)
    (hstart : start.toNat % sectorBytes = 0) (hc₀ : c₀.Acknowledges) :
    ∀ (i last : Nat) (j : Journal Bench) (c : Board) (ps : List (Nat × Nat)),
      start.toNat + pageBytes * (i + pages) ≤ 2 ^ 32 → (i % 256 ≠ 0 → last = i / 256) →
      AtDesk j c ps →
      Filled c₀ start (padded (imageWords image)) i (sectorCount i) c →
      ∃ r k rs j' c', writeImagePages limit start total i last pages
          (image.drop (pageBytes * i)) j = (r, j') ∧
        Rounds c₀ (imageWords image) start total i pages r k rs ∧ AtDesk j' c' (ps ++ rs) ∧
        Filled c₀ start (padded (imageWords image)) k (sectorCount k) c' := by
  induction pages with
  | zero =>
    intro i last j c ps _ _ h hf
    refine ⟨.ok (), i, [], j, c, rfl, ?_, by rwa [List.append_nil], hf⟩
    exact .verified fun k hk hlt => absurd hlt (by omega)
  | succ pages ih =>
    intro i last j c ps hspan hlast h hf
    have hspan₁ : start.toNat + pageBytes * (i + 1) ≤ 2 ^ 32 := span_mono (by omega) hspan
    obtain ⟨j₁, c₁, hround, h₁, hf₁⟩ := round_step limit total hstart hspan₁ hc₀
      hlast h hf
    rw [writeImagePages_succ, page_starts hspan₁, Host.ofExcept_ok,
      Host.bind_ok (Host.pure_apply _ _), imagePage_drop]
    cases hshown : shownFault? c₀ start i with
    | none =>
      rw [hshown] at hround h₁
      rw [if_pos rfl] at h₁
      have hnext : i + 1 + pages = i + (pages + 1) := Nat.add_right_comm i 1 pages
      obtain ⟨r, k, rs, j₂, c₂, hrest, hrounds, h₂, hf₂⟩ := ih (i + 1) (i / 256) j₁ c₁ _
        (by rw [hnext]; exact hspan) (by omega) h₁ hf₁
      refine ⟨r, k, (i + 1, total) :: rs, j₂, c₂, ?_, hrounds.cons hshown, ?_, hf₂⟩
      · rw [Host.bind_ok hround, current_eq hstart hlast (page_lt hspan₁), List.drop_drop]
        exact hrest
      · rwa [List.append_assoc] at h₂
    | some f =>
      rw [hshown] at hround h₁
      rw [if_neg (by simp)] at h₁
      refine ⟨_, i + 1, [], j₁, c₁, Host.bind_error hround, ?_, h₁, hf₁⟩
      exact .refused (n := 0) (Nat.succ_pos pages) (fun k hk hlt => absurd hlt (by omega)) hshown

/-- A board is another one with the first `pages` pages of an image written from `start` on and as
many sectors erased: the pages hold the bytes of the image, and erased bytes past its end; the rest
of the sectors is erased; everything else is as it was. -/
structure Flashed (b b' : Board) (image : Bytes) (start : UInt32) (pages sectors : Nat) : Prop where
  bytes : ∀ o < pageBytes * pages,
    imageByte (b'.flash.word (wordAddress start (o / 4))) (o % 4) = image.getD o 0xFF
  rest : ∀ a : UInt32, start.toNat ≤ a.toNat → a.toNat < start.toNat + sectorBytes * sectors →
    (∀ i < pageWords * pages, a ≠ wordAddress start i) → b'.flash.word a = erasedWord
  outside : ∀ a : UInt32, a.toNat < start.toNat ∨ start.toNat + sectorBytes * sectors ≤ a.toNat →
    b'.flash.word a = b.flash.word a
  erased : b'.erased.toList = b.erased.toList ++ (List.range sectors).map (sectorAddress start)

theorem Filled.flashed {image : Bytes} {k : Nat} (hstart : start.toNat % sectorBytes = 0)
    (hspan : start.toNat + pageBytes * k ≤ 2 ^ 32)
    (hf : Filled c₀ start (padded (imageWords image)) k (sectorCount k) c) :
    Flashed c₀ c image start k (sectorCount k) where
  bytes o ho := by
    have hword : o / 4 < pageWords * k := by
      simp only [pageBytes, pageWords] at ho ⊢
      omega
    rw [hf.flash.1 _ hword, byte_imageWords]
  rest a hlow hhigh hrun := by
    rw [hf.flash.2 a hrun, cleared, if_pos]
    simp only [sector, sectorBytes] at hstart hlow hhigh ⊢
    omega
  outside a ha := by
    have hout : ¬ (sector start ≤ sector a ∧ sector a < sector start + sectorCount k) := by
      simp only [sector, sectorBytes] at hstart ha ⊢
      omega
    rw [hf.flash.2 a, cleared, if_neg hout]
    rintro i hi rfl
    have hfit : start.toNat + 4 * i < 2 ^ 32 := by
      refine Nat.lt_of_lt_of_le (Nat.add_lt_add_left ?_ _) hspan
      simp only [pageBytes, pageWords] at hi ⊢
      omega
    have hcount : i / 16384 < sectorCount k := by
      simp only [sectorCount, groups, sectorBytes, pageBytes, pageWords] at hi ⊢
      omega
    rw [sector_wordAddress hstart hfit] at hout
    exact hout ⟨Nat.le_add_right _ _, Nat.add_lt_add_left hcount _⟩
  erased := hf.erased

/-- Before the first page nothing is written and no sector erased. -/
theorem Filled.none {b : Board} (hfault : b.fault = none) (start : UInt32) (g : Nat → Word) :
    Filled b start g 0 (sectorCount 0) { b.quiet with buffer := [] } where
  answers := rfl
  silent := rfl
  buffer := rfl
  fault := hfault
  faults _ _ _ := rfl
  flash := by
    refine ⟨fun i hi => absurd hi (Nat.not_lt_zero i), fun a _ => ?_⟩
    rw [cleared, if_neg (by simp only [sectorCount, groups, sectorBytes, pageBytes]; omega)]
    rfl
  erased := by
    rw [show sectorCount 0 = 0 from rfl, List.range_zero, List.map_nil, List.append_nil]
    rfl

/-- An operation clears the buffer, reports that nothing is done yet and goes its rounds. -/
theorem writeImage_steps {j : Journal Bench} (hclear : j.link.Clear)
    (hboard : j.link.board.Acknowledges) (hfault : j.link.board.fault = none)
    (hqueue : j.link.board.queue firmwarePort = []) (image : Bytes) (map : FirmwareMap)
    (hstart : start.toNat % sectorBytes = 0)
    (hspan : start.toNat + pageBytes * map.pages ≤ 2 ^ 32) :
    ∃ r k rs j' c', writeImage limit image map start j = ((fun _ => map.pages) <$> r, j') ∧
      Rounds j.link.board (imageWords image) start map.pages 0 map.pages r k rs ∧
      AtDesk j' c' (j.progress ++ (0, map.pages) :: rs) ∧
      Filled j.link.board start (padded (imageWords image)) k (sectorCount k) c' := by
  have hdesk : AtDesk j j.link.board.quiet j.progress := ⟨hclear, rfl, hqueue, rfl⟩
  obtain ⟨j₁, hrun₁, h₁⟩ := clear_step limit hdesk (hboard.of_answers rfl rfl)
  obtain ⟨r, k, rs, j₂, c₂, hrun₂, hrounds, h₂, hf₂⟩ := writeImagePages_run limit image map.pages
    map.pages hstart hboard 0 0 _ _ _ (by rw [Nat.zero_add]; exact hspan)
    (fun h => absurd rfl h) (h₁.note 0 map.pages)
    (.none hfault start (padded (imageWords image)))
  have hrounds₂ : writeImagePages limit start map.pages 0 0 map.pages image
      ⟨j₁.link, j₁.events.push (.progress 0 map.pages)⟩ = (r, j₂) := hrun₂
  rw [List.append_assoc, List.singleton_append] at h₂
  refine ⟨r, k, rs, j₂, c₂, ?_, hrounds, h₂, hf₂⟩
  rw [writeImage_eq, if_neg (fun h => h hstart), checkSpan_eq_ok map.pages_pos hspan,
    Host.ofExcept_ok, Host.bind_ok (Host.pure_apply _ _), imageParts, Host.bind_ok hrun₁,
    Host.bind_ok (Host.note_apply _ _), Host.bind_apply, hrounds₂]
  cases r <;> rfl

theorem Flashed.of_quiet {b b' : Board} {image : Bytes} {pages sectors : Nat}
    (h : Flashed b b'.quiet image start pages sectors) : Flashed b b' image start pages sectors :=
  ⟨h.bytes, h.rest, h.outside, h.erased⟩

/-- The sectors of the pages of a firmware map. -/
theorem sectorCount_pages (map : FirmwareMap) :
    sectorCount map.pages = map.last.toNat / sectorBytes + 1 := by
  rw [FirmwareMap.pages, sectorCount_succ, Nat.div_div_eq_div_mul]
  rfl

theorem cons_reports (total n : Nat) :
    (0, total) :: reports total 0 n = (List.range (n + 1)).map fun d => (d, total) := by
  rw [List.range_succ_eq_map, List.map_cons, List.map_map, reports]
  simp [Function.comp_def]

/-- **Programming an image.**  Without a fault that shows, the image is programmed, its sectors are
erased one after the other, and a report goes before the first page and after every page.  With such
faults, the first one ends the operation with a report on its page: the pages up to that one are
written, the sectors up to the one of that page erased, and nothing else has changed. -/
theorem writeImage_outcome {j : Journal Bench} (hclear : j.link.Clear)
    (hboard : j.link.board.Acknowledges) (hfault : j.link.board.fault = none)
    (hqueue : j.link.board.queue firmwarePort = []) (image : Bytes) (map : FirmwareMap)
    (hstart : start.toNat % sectorBytes = 0)
    (hspan : start.toNat + pageBytes * map.pages ≤ 0xFFFF0000) :
    ∃ result j', writeImage limit image map start j = (result, j') ∧
      ((∀ k < map.pages, shownFault? j.link.board start k = none) →
        result = .ok (map.last.toNat / pageBytes + 1) ∧
        Flashed j.link.board j'.link.board image start map.pages
          (map.last.toNat / sectorBytes + 1) ∧
        j'.progress = j.progress ++ (List.range (map.pages + 1)).map fun d => (d, map.pages)) ∧
      ∀ k < map.pages, ∀ f, shownFault? j.link.board start k = some f →
        (∀ i < k, shownFault? j.link.board start i = none) →
        result = .error (.error (.verifyMismatch
          (faultMismatch (imageWords image) start k f))) ∧
        Flashed j.link.board j'.link.board image start (k + 1) (k / 256 + 1) ∧
        j'.progress = j.progress ++ (List.range (k + 1)).map fun d => (d, map.pages) := by
  have hspan' : start.toNat + pageBytes * map.pages ≤ 2 ^ 32 := Nat.le_trans hspan (by decide)
  obtain ⟨r, k, rs, j', c', hrun, hrounds, hdesk, hfilled⟩ :=
    writeImage_steps limit hclear hboard hfault hqueue image map hstart hspan'
  have hprogress := hdesk.progress
  have hflashed : start.toNat + pageBytes * k ≤ 2 ^ 32 →
      Flashed j.link.board j'.link.board image start k (sectorCount k) :=
    fun hfit => .of_quiet (hdesk.board ▸ hfilled.flashed hstart hfit)
  refine ⟨_, j', hrun, ?_⟩
  rcases hrounds with hall | ⟨hn, hbefore, hshown⟩
  · rw [Nat.zero_add, sectorCount_pages] at hflashed
    rw [cons_reports] at hprogress
    refine ⟨fun _ => ⟨rfl, hflashed hspan', hprogress⟩, fun m hm f hf _ => ?_⟩
    rw [hall m (Nat.zero_le m) (by omega)] at hf
    cases hf
  · rename_i n f
    simp only [Nat.zero_add, Nat.zero_le, true_implies] at *
    rw [cons_reports] at hprogress
    refine ⟨fun hall => ?_, fun m hm f' hf hfirst => ?_⟩
    · rw [hall n hn] at hshown
      cases hshown
    · obtain rfl : m = n := by
        rcases Nat.lt_trichotomy m n with hlt | rfl | hgt
        · rw [hbefore m hlt] at hf
          cases hf
        · rfl
        · rw [hfirst n hgt] at hshown
          cases hshown
      obtain rfl : f' = f := Option.some.inj (hf.symm.trans hshown)
      rw [sectorCount_succ] at hflashed
      exact ⟨rfl, hflashed (span_mono hm hspan'), hprogress⟩

theorem writeImage_outcome_erased :
    ∃ j', writeImage none [1, 2, 3, 4, 5] ⟨0, 300⟩ 0x10000 (answering {}) = (.ok 2, j') ∧
      imageByte (j'.link.board.flash.word 0x10004) 0 = 5 ∧
      j'.link.board.erased.toList = [0x10000] ∧ j'.progress = [(0, 2), (1, 2), (2, 2)] := by
  have hstep := answering_inStep {}
  have hnone : ∀ k, shownFault? (answering {}).link.board 0x10000 k = none := by
    intro k
    rw [shownFault?, answering, Std.HashMap.getElem?_empty]
    rfl
  obtain ⟨result, j', hrun, hok, -⟩ := writeImage_outcome none hstep.toClear
    answering_acknowledges rfl hstep.pages [1, 2, 3, 4, 5] ⟨0, 300⟩
    (by decide : (0x10000 : UInt32).toNat % sectorBytes = 0) (by decide)
  obtain ⟨rfl, hflashed, hprogress⟩ := hok fun k _ => hnone k
  exact ⟨j', hrun, hflashed.bytes 4 (by decide), hflashed.erased, hprogress⟩

end Readout.Flash
