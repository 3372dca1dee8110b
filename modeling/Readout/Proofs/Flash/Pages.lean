import Readout.Flash.Program
import Readout.Proofs.Board.Commit
/-!
# Pages

The words of an operation, cut to pages and filled up with erased words, seen as one run: word `i`
of the run is `padded words i`, page `k` holds the words from `64 * k` on.

* `pagesOf_eq`, `flatten_pages`: the pages of an operation are the run;
* `checkSpan_eq` says which spans fit, `pageAddress_eq` which pages have an address;
* `mem_differences` and `pairwise_differences` say what the differences of two pages are, and in
  which order; `differences_map` lists them position by position.
-/

namespace Readout.Flash

/-! ## Addresses -/

/-- A page has an address exactly if it begins within the address space. -/
theorem pageAddress_eq (start : UInt32) (index : Nat) : pageAddress start index =
    if start.toNat + pageBytes * index < 2 ^ 32 then .ok (wordAddress start (pageWords * index))
    else .error (.invalidParameter (.pagePastEnd index start)) := by
  have haddr : start.toNat + 4 * (pageWords * index) = start.toNat + pageBytes * index := by
    simp only [pageBytes, pageWords]
    omega
  rw [pageAddress, wordAddress, haddr, Nat.mul_comm index]
  rfl

theorem pageAddress_eq_ok {start : UInt32} {index : Nat}
    (h : start.toNat + pageBytes * index < 2 ^ 32) :
    pageAddress start index = .ok (wordAddress start (pageWords * index)) := by
  rw [pageAddress_eq, if_pos h]

theorem pageAddress_eq_error {start : UInt32} {index : Nat}
    (h : 2 ^ 32 ≤ start.toNat + pageBytes * index) :
    pageAddress start index = .error (.invalidParameter (.pagePastEnd index start)) := by
  rw [pageAddress_eq, if_neg (Nat.not_lt.2 h)]

theorem page_lt {start : UInt32} {index : Nat}
    (h : start.toNat + pageBytes * (index + 1) ≤ 2 ^ 32) :
    start.toNat + 4 * (pageWords * index) < 2 ^ 32 := by
  have hbytes : 4 * (pageWords * index) < pageBytes * (index + 1) := by
    simp only [pageBytes, pageWords]
    omega
  exact Nat.lt_of_lt_of_le (Nat.add_lt_add_left hbytes _) h

theorem page_end {start : UInt32} {index : Nat}
    (h : start.toNat + pageBytes * (index + 1) ≤ 2 ^ 32) :
    start.toNat + 4 * (pageWords * index + pageWords) ≤ 2 ^ 32 := by
  have hbytes : pageBytes * (index + 1) = 4 * (pageWords * index + pageWords) := by
    simp only [pageBytes, pageWords]
    omega
  rwa [hbytes] at h

/-- The pages of a span that fits, from one of them on. -/
theorem span_from {start : UInt32} {index n : Nat}
    (h : start.toNat + pageBytes * (index + n) ≤ 2 ^ 32) :
    (wordAddress start (pageWords * index)).toNat + 4 * (pageWords * n) ≤ 2 ^ 32 := by
  have hbytes : pageBytes * (index + n) = 4 * (pageWords * index) + 4 * (pageWords * n) := by
    simp only [pageBytes, pageWords]
    omega
  rw [hbytes, ← Nat.add_assoc] at h
  exact Nat.le_trans (Nat.add_le_add_right (toNat_wordAddress_le _ _) _) h

theorem wordAddress_page (start : UInt32) (index n : Nat) :
    wordAddress start (pageWords * (index + n)) =
      wordAddress (wordAddress start (pageWords * index)) (pageWords * n) := by
  rw [wordAddress_wordAddress, Nat.mul_add]

/-- A page of a span that fits ends within the address space. -/
theorem page_fits {start : UInt32} {index : Nat}
    (h : start.toNat + pageBytes * (index + 1) ≤ 2 ^ 32) :
    (wordAddress start (pageWords * index)).toNat + 4 * pageWords ≤ 2 ^ 32 := by
  simpa only [Nat.mul_one] using span_from h

/-- A page address within the address space is not the sentinel of the command encoding. -/
theorem wordAddress_ne_absentWord {start : UInt32} {index : Nat}
    (h : start.toNat + pageBytes * (index + 1) ≤ 2 ^ 32) :
    wordAddress start (pageWords * index) ≠ Command.absentWord := by
  have hfits := page_fits h
  intro he
  rw [he] at hfits
  exact absurd hfits (by decide)

theorem span_mono {start : UInt32} {index n : Nat} (hi : index < n)
    (h : start.toNat + pageBytes * n ≤ 2 ^ 32) :
    start.toNat + pageBytes * (index + 1) ≤ 2 ^ 32 :=
  Nat.le_trans (Nat.add_le_add_left (Nat.mul_le_mul_left _ hi) _) h

/-- Pages within the address space do not begin at the sentinel. -/
theorem start_ne_absentWord {start : UInt32} {n : Nat} (hn : 0 < n)
    (h : start.toNat + pageBytes * n ≤ 2 ^ 32) : start ≠ Command.absentWord := by
  rw [← wordAddress_zero start]
  exact wordAddress_ne_absentWord (span_mono hn h)

theorem page_starts {start : UInt32} {index : Nat}
    (h : start.toNat + pageBytes * (index + 1) ≤ 2 ^ 32) :
    pageAddress start index = .ok (wordAddress start (pageWords * index)) :=
  pageAddress_eq_ok (Nat.lt_of_lt_of_le
    (Nat.add_lt_add_left (Nat.mul_lt_mul_of_pos_left (Nat.lt_succ_self _) (by decide)) _) h)

/-- A span is accepted exactly if its pages end within the address space; an operation without pages
is held to the page at its start. -/
theorem checkSpan_eq (start : UInt32) (pages : Nat) : checkSpan start pages =
    if start.toNat + pageBytes * max 1 pages ≤ 2 ^ 32 then .ok ()
    else .error (.invalidParameter
      (if start.toNat + pageBytes * (pages - 1) < 2 ^ 32 then .spanPastEnd pages start
        else .pagePastEnd (pages - 1) start)) := by
  obtain ⟨last, hlast, hmax⟩ : ∃ last, pages - 1 = last ∧ max 1 pages = last + 1 :=
    ⟨_, rfl, by omega⟩
  rw [checkSpan, hlast, hmax]
  by_cases haddr : start.toNat + pageBytes * last < 2 ^ 32
  · rw [pageAddress_eq_ok haddr, if_pos haddr]
    show (if (wordAddress start (pageWords * last)).toNat + (pageBytes - 1) < UInt32.size then
      .ok () else .error (.invalidParameter (.spanPastEnd pages start)) : Except Error Unit) = _
    have hword : (wordAddress start (pageWords * last)).toNat = start.toNat + pageBytes * last := by
      have hbytes : 4 * (pageWords * last) = pageBytes * last := by
        simp only [pageWords, pageBytes]
        omega
      rw [toNat_wordAddress (by rw [hbytes]; exact haddr), hbytes]
    have hend : start.toNat + pageBytes * last + (pageBytes - 1) < UInt32.size ↔
        start.toNat + pageBytes * (last + 1) ≤ 2 ^ 32 := by
      simp only [pageBytes, UInt32.size]
      omega
    rw [hword]
    simp only [hend]
  · have hfit : ¬ start.toNat + pageBytes * (last + 1) ≤ 2 ^ 32 := by
      simp only [pageBytes] at haddr ⊢
      omega
    rw [if_neg hfit, if_neg haddr, pageAddress_eq_error (Nat.le_of_not_lt haddr)]
    rfl

theorem checkSpan_eq_ok_iff {start : UInt32} {pages : Nat} (hpages : 0 < pages) :
    checkSpan start pages = .ok () ↔ start.toNat + pageBytes * pages ≤ 2 ^ 32 := by
  rw [checkSpan_eq, Nat.max_eq_right hpages]
  split
  · rename_i h
    exact iff_of_true rfl h
  · rename_i h
    exact iff_of_false (fun he => by cases he) h

theorem checkSpan_eq_ok {start : UInt32} {pages : Nat} (hpages : 0 < pages)
    (h : start.toNat + pageBytes * pages ≤ 2 ^ 32) : checkSpan start pages = .ok () :=
  (checkSpan_eq_ok_iff hpages).2 h

theorem pageCount_pos (n : Nat) : 0 < pageCount n := by
  unfold pageCount
  omega

/-! ## Runs of pages -/

/-- Word `i` of the pages that hold the given words. -/
def padded (words : List Word) (i : Nat) : Word := words.getD i erasedWord

theorem length_flatten_pages {pages : List (List Word)}
    (h : ∀ page ∈ pages, page.length = pageWords) :
    pages.flatten.length = pageWords * pages.length := by
  induction pages with
  | nil => rfl
  | cons page rest ih =>
    rw [List.flatten_cons, List.length_append, ih fun q hq => h q (List.mem_cons_of_mem _ hq),
      h page List.mem_cons_self, List.length_cons, Nat.mul_succ, Nat.add_comm]

/-- A page ends where the next one begins. -/
theorem wordAddress_next (start : UInt32) (index : Nat) {page : List Word}
    (h : page.length = pageWords) :
    wordAddress start (pageWords * (index + 1)) =
      wordAddress (wordAddress start (pageWords * index)) page.length := by
  rw [wordAddress_page, Nat.mul_one, h]

/-- A page and the pages behind it end within the address space. -/
theorem pages_fit {start : UInt32} {index : Nat} {page : List Word} {pages : List (List Word)}
    (hlen : ∀ q ∈ page :: pages, q.length = pageWords)
    (hspan : start.toNat + pageBytes * (index + (page :: pages).length) ≤ 2 ^ 32) :
    (wordAddress start (pageWords * index)).toNat + 4 * (page.length + pages.flatten.length) ≤
      2 ^ 32 := by
  rw [← List.length_append, ← List.flatten_cons, length_flatten_pages hlen]
  exact span_from hspan

/-- Page `k` of the pages that hold the given words. -/
def pageAt (words : List Word) (k : Nat) : List Word :=
  (List.range pageWords).map fun i => padded words (pageWords * k + i)

@[simp] theorem length_pageAt (words : List Word) (k : Nat) :
    (pageAt words k).length = pageWords := by
  simp [pageAt]

theorem padded_drop (words : List Word) (n i : Nat) :
    padded (words.drop n) i = padded words (n + i) := by
  simp [padded, List.getD_eq_getElem?_getD]

theorem padPage_take (words : List Word) : padPage (words.take pageWords) = pageAt words 0 := by
  apply List.ext_getElem
  · simp only [padPage, List.length_append, List.length_take, List.length_replicate, length_pageAt]
    omega
  · intro i h1 h2
    have hi : i < pageWords := by simpa using h2
    simp only [padPage, pageAt, padded, List.getElem_append, List.length_take, List.getElem_take,
      List.getElem_replicate, List.getElem_map, List.getElem_range, Nat.mul_zero, Nat.zero_add]
    split
    · rename_i hlt
      rw [List.getD_eq_getElem?_getD, List.getElem?_eq_getElem (by omega), Option.getD_some]
    · rw [List.getD_eq_getElem?_getD, List.getElem?_eq_none (by omega), Option.getD_none]

theorem pagesOf_eq (n : Nat) (words : List Word) :
    pagesOf n words = (List.range n).map (pageAt words) := by
  induction n generalizing words with
  | zero => rfl
  | succ n ih =>
    rw [pagesOf, padPage_take, ih, List.range_succ_eq_map, List.map_cons, List.map_map]
    congr 1
    refine List.map_congr_left fun k _ => ?_
    show pageAt (words.drop pageWords) k = pageAt words (k + 1)
    refine List.map_congr_left fun i _ => ?_
    rw [padded_drop]
    congr 1
    simp only [pageWords]
    omega

/-- The first `n` pages are the first `64 * n` words of the run. -/
theorem flatten_pages (n : Nat) (words : List Word) :
    ((List.range n).map (pageAt words)).flatten =
      (List.range (pageWords * n)).map (padded words) := by
  induction n with
  | zero => rfl
  | succ n ih =>
    rw [List.range_succ, List.map_append, List.flatten_append, ih, Nat.mul_succ, List.range_add,
      List.map_append, List.map_map]
    simp [pageAt, Function.comp_def]

theorem map_padded_append_pageAt (words : List Word) (p : Nat) :
    (List.range (pageWords * p)).map (padded words) ++ pageAt words p =
      (List.range (pageWords * (p + 1))).map (padded words) := by
  rw [Nat.mul_succ, List.range_add, List.map_append, List.map_map]
  rfl

/-- A page among the pages of an operation, and the words before it. -/
theorem pagesOf_split {n : Nat} {words : List Word} {done rest : List (List Word)}
    {page : List Word} (h : pagesOf n words = done ++ page :: rest) :
    done.length < n ∧ page = pageAt words done.length ∧
      done.flatten = (List.range (pageWords * done.length)).map (padded words) := by
  rw [pagesOf_eq] at h
  have hlen : n = done.length + (rest.length + 1) := by
    simpa using congrArg List.length h
  have hpage := congrArg (·[done.length]?) h
  have hdone := congrArg (List.take done.length) h
  rw [← List.map_take, List.take_range, List.take_append_of_le_length (Nat.le_refl _),
    List.take_length, Nat.min_eq_left (by omega)] at hdone
  refine ⟨by omega, ?_, by rw [← hdone, flatten_pages, List.length_map, List.length_range]⟩
  simp only [List.getElem?_map, List.getElem?_append_right (Nat.le_refl _), Nat.sub_self,
    List.getElem?_cons_zero, List.getElem?_range (show done.length < n by omega),
    Option.map_some, Option.some.injEq] at hpage
  exact hpage.symm

/-! ## Differences -/

theorem compare_eq_none {a : UInt32} {s index : Nat} {page read : List Word} :
    compare a s index page read = none ↔ read = page := by
  unfold compare
  split
  · rename_i h
    exact iff_of_true rfl h
  · rename_i h
    exact iff_of_false (by simp) h

theorem differences_self (ws : List Word) (k : Nat) : differences k ws ws = [] := by
  induction ws generalizing k with
  | nil => rfl
  | cons w ws ih => rw [differences, if_pos rfl, ih]

/-- The differences of two pages are listed position by position. -/
theorem differences_map (f g : Nat → Word) (n k : Nat) :
    differences k ((List.range n).map f) ((List.range n).map g) =
      ((List.range n).filter fun i => f i ≠ g i).map fun i => (k + i, f i, g i) := by
  induction n generalizing f g k with
  | zero => rfl
  | succ n ih =>
    simp only [List.range_succ_eq_map, List.map_cons, List.map_map, differences, List.filter_cons,
      List.filter_map]
    have hrest := ih (f ∘ Nat.succ) (g ∘ Nat.succ) (k + 1)
    rw [hrest]
    by_cases h : f 0 = g 0
    · simp [h, Function.comp_def, Nat.add_assoc, Nat.add_comm 1]
    · simp [h, Function.comp_def, Nat.add_assoc, Nat.add_comm 1]

theorem le_of_mem_differences {ws rs : List Word} {k : Nat} {p : Nat × Word × Word}
    (h : p ∈ differences k ws rs) : k ≤ p.1 := by
  induction ws generalizing rs k with
  | nil => simp [differences] at h
  | cons w ws ih =>
    cases rs with
    | nil => simp [differences] at h
    | cons r rs =>
      rw [differences] at h
      split at h
      · exact Nat.le_of_succ_le (ih h)
      · rcases List.mem_cons.1 h with rfl | h
        · exact Nat.le_refl k
        · exact Nat.le_of_succ_le (ih h)

/-- The differences are the positions at which both lists have a word, but not the same one. -/
theorem mem_differences {ws rs : List Word} {k i : Nat} {w r : Word} :
    (k + i, w, r) ∈ differences k ws rs ↔ ws[i]? = some w ∧ rs[i]? = some r ∧ w ≠ r := by
  induction ws generalizing rs k i with
  | nil => simp [differences]
  | cons a ws ih =>
    cases rs with
    | nil => simp [differences]
    | cons b rs =>
      have hlater : (k, w, r) ∉ differences (k + 1) ws rs := fun h =>
        Nat.not_succ_le_self k (le_of_mem_differences h)
      rw [differences]
      cases i with
      | zero =>
        have hfirst : (a :: ws)[0]? = some w ∧ (b :: rs)[0]? = some r ∧ w ≠ r ↔
            w = a ∧ r = b ∧ a ≠ b := by
          simp only [List.getElem?_cons_zero, Option.some.injEq]
          grind
        rw [hfirst]
        show (k, w, r) ∈ _ ↔ _
        by_cases hab : a = b
        · rw [if_pos hab]
          exact iff_of_false hlater fun h => h.2.2 hab
        · rw [if_neg hab, List.mem_cons, or_iff_left hlater]
          simp [hab]
      | succ i =>
        have hrest : (k + 1 + i, w, r) ∈ differences (k + 1) ws rs ↔ _ := ih
        rw [Nat.add_right_comm, Nat.add_assoc] at hrest
        by_cases hab : a = b <;> simp [hab, hrest]

theorem pairwise_differences (ws rs : List Word) (k : Nat) :
    (differences k ws rs).Pairwise fun p q => p.1 < q.1 := by
  induction ws generalizing rs k with
  | nil => exact List.Pairwise.nil
  | cons w ws ih =>
    cases rs with
    | nil => exact List.Pairwise.nil
    | cons r rs =>
      rw [differences]
      split
      · exact ih rs (k + 1)
      · exact List.pairwise_cons.2 ⟨fun p hp => le_of_mem_differences hp, ih rs (k + 1)⟩

/-- Lists of one length without differences are the same. -/
theorem differences_eq_nil {ws rs : List Word} {k : Nat} (hlen : rs.length = ws.length)
    (h : differences k ws rs = []) : rs = ws := by
  refine List.ext_getElem hlen fun i hr hw => ?_
  refine Classical.byContradiction fun hne => ?_
  have hmem := (mem_differences (k := k)).2
    ⟨List.getElem?_eq_getElem hw, List.getElem?_eq_getElem hr, Ne.symm hne⟩
  rw [h] at hmem
  exact List.not_mem_nil hmem

example : differences 0 [1, 2, 3] [1, 5, 6] = [(1, 2, 5), (2, 3, 6)] := by decide

end Readout.Flash
