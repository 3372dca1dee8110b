import Mathlib.Algebra.Group.Nat.Defs
import Readout.Board.Nor
/-!
# Writing runs of words

Words go to consecutive addresses, four bytes apart.  This file gives the view of a flash after a
run of words was committed, as long as the run does not wrap at the end of the address space.

* `holds_commit`: an address of the run holds the conjunction, every other address what it held;
* `commit_append`: a run may be committed in pieces;
* `read_commit_eq_iff`: a run reads back as written exactly if the flash accepts it.
-/

namespace Readout

namespace Flash

/-- The address of word `i` of a run from `start` on. -/
def wordAddress (start : UInt32) (i : Nat) : UInt32 := UInt32.ofNat (start.toNat + 4 * i)

@[simp] theorem wordAddress_zero (start : UInt32) : wordAddress start 0 = start := by
  simp [wordAddress]

theorem wordAddress_wordAddress (start : UInt32) (i k : Nat) :
    wordAddress (wordAddress start i) k = wordAddress start (i + k) := by
  rw [← UInt32.toNat_inj]
  simp only [wordAddress, UInt32.toNat_ofNat']
  omega

theorem wordAddress_one (start : UInt32) : wordAddress start 1 = start + 4 := by
  rw [← UInt32.toNat_inj]
  simp only [wordAddress, UInt32.toNat_ofNat', UInt32.toNat_add, UInt32.reduceToNat]

theorem wordAddress_succ (start : UInt32) (i : Nat) :
    wordAddress start (i + 1) = wordAddress (start + 4) i := by
  rw [← wordAddress_one, wordAddress_wordAddress, Nat.add_comm]

theorem toNat_wordAddress_le (start : UInt32) (i : Nat) :
    (wordAddress start i).toNat ≤ start.toNat + 4 * i := by
  rw [wordAddress, UInt32.toNat_ofNat']
  exact Nat.mod_le _ _

theorem toNat_wordAddress {start : UInt32} {i : Nat} (h : start.toNat + 4 * i < 2 ^ 32) :
    (wordAddress start i).toNat = start.toNat + 4 * i := by
  rw [wordAddress, UInt32.toNat_ofNat']
  omega

theorem wordAddress_inj {start : UInt32} {i k : Nat} (hi : start.toNat + 4 * i < 2 ^ 32)
    (hk : start.toNat + 4 * k < 2 ^ 32) : wordAddress start i = wordAddress start k ↔ i = k := by
  rw [← UInt32.toNat_inj, toNat_wordAddress hi, toNat_wordAddress hk]
  omega

theorem wordAddress_succ_ne {start : UInt32} {i : Nat}
    (h : start.toNat + 4 * (i + 1) < 2 ^ 32) : wordAddress start (i + 1) ≠ start := by
  rw [Ne, ← UInt32.toNat_inj, toNat_wordAddress h]
  omega

/-- Everything can be written over an erased word. -/
@[simp] theorem erasedWord_and (w : Word) : erasedWord &&& w = w := by
  show (-1 : UInt32) &&& w = w
  exact UInt32.neg_one_and

end Flash

open Flash

namespace Nor

theorem addresses_eq (start : UInt32) (n : Nat) :
    addresses start n = (List.range n).map (wordAddress start) := by
  induction n generalizing start with
  | zero => rfl
  | succ n ih =>
    rw [addresses, ih, List.range_succ_eq_map, List.map_cons, List.map_map, wordAddress_zero]
    congr 1
    exact List.map_congr_left fun i _ => (wordAddress_succ start i).symm

theorem read_eq (f : Nor) (start : UInt32) (n : Nat) :
    f.read start n = (List.range n).map fun i => f.word (wordAddress start i) := by
  rw [read, addresses_eq, List.map_map]
  rfl

@[simp] theorem length_read (f : Nor) (start : UInt32) (n : Nat) : (f.read start n).length = n := by
  simp [read_eq]

/-- A run may be committed in pieces. -/
theorem commit_append (f : Nor) (start : UInt32) (ws vs : List Word) :
    f.commit start (ws ++ vs) = (f.commit start ws).commit (wordAddress start ws.length) vs := by
  induction ws generalizing f start with
  | nil => simp [commit]
  | cons w ws ih => simp only [List.cons_append, commit, ih, List.length_cons, wordAddress_succ]

theorem word_commit_of_ne (f : Nor) (start a : UInt32) (ws : List Word)
    (h : ∀ i < ws.length, wordAddress start i ≠ a) : (f.commit start ws).word a = f.word a := by
  induction ws generalizing f start with
  | nil => rfl
  | cons w ws ih =>
    have hfirst : start ≠ a := by simpa using h 0 (by simp)
    rw [commit, ih, word_commitWord, if_neg hfirst]
    intro i hi
    rw [← wordAddress_succ]
    exact h (i + 1) (by simpa using hi)

/-- A word of the run: the bits that are clear in what was held or in what was written are clear. -/
theorem word_commit_wordAddress (f : Nor) (start : UInt32) (ws : List Word)
    (hfit : start.toNat + 4 * ws.length ≤ 2 ^ 32) (i : Nat) (hi : i < ws.length) :
    (f.commit start ws).word (wordAddress start i) = f.word (wordAddress start i) &&& ws[i] := by
  induction ws generalizing f start i with
  | nil => exact absurd hi (Nat.not_lt_zero i)
  | cons w ws ih =>
    simp only [List.length_cons] at hfit hi
    cases i with
    | zero =>
      rw [commit, wordAddress_zero, word_commit_of_ne, word_commitWord, if_pos rfl]
      · rfl
      · intro k hk
        rw [← wordAddress_succ]
        exact wordAddress_succ_ne (by omega)
    | succ i =>
      have hstart : (start + 4).toNat = start.toNat + 4 := by
        rw [← wordAddress_one, toNat_wordAddress (by omega)]
      have hne : wordAddress start (i + 1) ≠ start := wordAddress_succ_ne (by omega)
      rw [commit, wordAddress_succ, ih _ _ (by omega) _ (by omega), word_commitWord,
        ← wordAddress_succ, if_neg hne.symm]
      rfl

/-- A flash holds the words `g` in a run from `start` on, and `old` everywhere else. -/
def Holds (f : Nor) (old : UInt32 → Word) (start : UInt32) (n : Nat) (g : Nat → Word) : Prop :=
  (∀ i < n, f.word (wordAddress start i) = g i) ∧
    ∀ a, (∀ i < n, a ≠ wordAddress start i) → f.word a = old a

theorem Holds.congr {f : Nor} {old : UInt32 → Word} {start : UInt32} {n : Nat} {g g' : Nat → Word}
    (h : f.Holds old start n g) (hg : ∀ i < n, g i = g' i) : f.Holds old start n g' :=
  ⟨fun i hi => (h.1 i hi).trans (hg i hi), h.2⟩

/-- The view of a flash after a run was committed. -/
theorem holds_commit (f : Nor) (start : UInt32) (g : Nat → Word) (n : Nat)
    (hfit : start.toNat + 4 * n ≤ 2 ^ 32) :
    (f.commit start ((List.range n).map g)).Holds f.word start n
      fun i => f.word (wordAddress start i) &&& g i := by
  have hlen : ((List.range n).map g).length = n := by rw [List.length_map, List.length_range]
  refine ⟨fun i hi => ?_, fun a ha => word_commit_of_ne f start a _ fun i hi => ?_⟩
  · rw [word_commit_wordAddress f start _ (by rw [hlen]; exact hfit) i (by rw [hlen]; exact hi),
      List.getElem_map, List.getElem_range]
  · exact (ha i (by rwa [hlen] at hi)).symm

/-- Past the run every word is the old one. -/
theorem Holds.beyond {f : Nor} {old : UInt32 → Word} {start : UInt32} {n : Nat} {g : Nat → Word}
    (h : f.Holds old start n g) {i : Nat} (hi : n ≤ i) (hfit : start.toNat + 4 * i < 2 ^ 32) :
    f.word (wordAddress start i) = old (wordAddress start i) := by
  refine h.2 _ fun k hk he => ?_
  have := (wordAddress_inj hfit (by omega)).1 he
  omega

/-- A run over erased words becomes longer. -/
theorem Holds.commit {f : Nor} {old : UInt32 → Word} {start : UInt32} {n m : Nat} {g : Nat → Word}
    (h : f.Holds old start n g) (hfit : start.toNat + 4 * (n + m) ≤ 2 ^ 32)
    (hold : ∀ i < m, old (wordAddress start (n + i)) = erasedWord) :
    (f.commit (wordAddress start n) ((List.range m).map fun i => g (n + i))).Holds old start
      (n + m) g := by
  have hstart := toNat_wordAddress_le start n
  obtain ⟨hrun, hothers⟩ := holds_commit f (wordAddress start n) (fun i => g (n + i)) m (by omega)
  simp only [wordAddress_wordAddress] at hrun hothers
  refine ⟨fun i hi => ?_, fun a ha => ?_⟩
  · rcases Nat.lt_or_ge i n with hlt | hge
    · rw [hothers _ fun k hk he => ?_, h.1 i hlt]
      have := (wordAddress_inj (by omega) (by omega)).1 he
      omega
    · obtain ⟨k, rfl⟩ : ∃ k, i = n + k := ⟨i - n, by omega⟩
      rw [hrun k (by omega), h.beyond hge (by omega), hold k (by omega), erasedWord_and]
  · rw [hothers a fun k hk => ha (n + k) (by omega)]
    exact h.2 a fun i hi => ha i (by omega)

/-- Every word of the run can be written without setting a bit. -/
def Accepts (f : Nor) (start : UInt32) (ws : List Word) : Prop :=
  ∀ i, (hi : i < ws.length) → f.word (wordAddress start i) &&& ws[i] = ws[i]

/-- What a committed run reads as. -/
theorem read_commit (f : Nor) (start : UInt32) (ws : List Word)
    (hfit : start.toNat + 4 * ws.length ≤ 2 ^ 32) :
    (f.commit start ws).read start ws.length =
      List.zipWith (· &&& ·) (f.read start ws.length) ws := by
  apply List.ext_getElem
  · simp
  · intro i h1 h2
    have hi : i < ws.length := by simpa using h1
    simp only [read_eq, List.getElem_map, List.getElem_range, List.getElem_zipWith]
    exact word_commit_wordAddress f start ws hfit i hi

theorem read_commit_eq_iff (f : Nor) (start : UInt32) (ws : List Word)
    (hfit : start.toNat + 4 * ws.length ≤ 2 ^ 32) :
    (f.commit start ws).read start ws.length = ws ↔ f.Accepts start ws := by
  rw [read_commit f start ws hfit]
  constructor
  · intro h i hi
    have := congrArg (·[i]?) h
    simpa [read_eq, hi] using this
  · intro h
    apply List.ext_getElem
    · simp
    · intro i h1 h2
      simpa [read_eq] using h i h2

theorem accepts_append (f : Nor) (start : UInt32) (ws vs : List Word) :
    f.Accepts start (ws ++ vs) ↔
      f.Accepts start ws ∧ f.Accepts (wordAddress start ws.length) vs := by
  constructor
  · intro h
    refine ⟨fun i hi => ?_, fun i hi => ?_⟩
    · have hword := h i (by rw [List.length_append]; omega)
      rwa [List.getElem_append_left hi] at hword
    · have hword := h (ws.length + i) (by rw [List.length_append]; omega)
      rw [List.getElem_append_right (by omega)] at hword
      simpa only [wordAddress_wordAddress, Nat.add_sub_cancel_left] using hword
  · rintro ⟨hws, hvs⟩ i hi
    rw [List.length_append] at hi
    by_cases hlt : i < ws.length
    · rw [List.getElem_append_left hlt]
      exact hws i hlt
    · have hword := hvs (i - ws.length) (by omega)
      rw [wordAddress_wordAddress, show ws.length + (i - ws.length) = i by omega] at hword
      rwa [List.getElem_append_right (by omega)]

/-- What was committed before a word leaves the word as it was. -/
theorem word_commit_beyond (f : Nor) (start : UInt32) (ws : List Word) {i : Nat}
    (hi : ws.length ≤ i) (hfit : start.toNat + 4 * i < 2 ^ 32) :
    (f.commit start ws).word (wordAddress start i) = f.word (wordAddress start i) := by
  refine word_commit_of_ne f start _ ws fun k hk he => ?_
  have := (wordAddress_inj (by omega) hfit).1 he
  omega

theorem read_commit_beyond (f : Nor) (start : UInt32) (ws : List Word) {k n : Nat}
    (hk : ws.length ≤ k) (hfit : start.toNat + 4 * (k + n) ≤ 2 ^ 32) :
    (f.commit start ws).read (wordAddress start k) n = f.read (wordAddress start k) n := by
  rw [read_eq, read_eq]
  refine List.map_congr_left fun i hi => ?_
  have := List.mem_range.1 hi
  rw [wordAddress_wordAddress]
  exact word_commit_beyond f start ws (by omega) (by omega)

theorem accepts_commit_beyond (f : Nor) (start : UInt32) (ws vs : List Word) {k : Nat}
    (hk : ws.length ≤ k) (hfit : start.toNat + 4 * (k + vs.length) ≤ 2 ^ 32) :
    (f.commit start ws).Accepts (wordAddress start k) vs ↔
      f.Accepts (wordAddress start k) vs := by
  have hword : ∀ i < vs.length,
      (f.commit start ws).word (wordAddress (wordAddress start k) i) =
        f.word (wordAddress (wordAddress start k) i) := by
    intro i hi
    rw [wordAddress_wordAddress]
    exact word_commit_beyond f start ws (by omega) (by omega)
  constructor
  · intro h i hi
    rw [← hword i hi]
    exact h i hi
  · intro h i hi
    rw [hword i hi]
    exact h i hi

/-- Words are accepted if the first of them are, and the rest after those were committed. -/
theorem accepts_commit_append (f : Nor) (start : UInt32) (ws vs : List Word)
    (hfit : start.toNat + 4 * (ws.length + vs.length) ≤ 2 ^ 32) (hws : f.Accepts start ws)
    (hvs : (f.commit start ws).Accepts (wordAddress start ws.length) vs) :
    f.Accepts start (ws ++ vs) :=
  (accepts_append f start ws vs).2
    ⟨hws, (accepts_commit_beyond f start ws vs (Nat.le_refl _) hfit).1 hvs⟩

theorem accepts_map_range (f : Nor) (start : UInt32) (g : Nat → Word) (n : Nat) :
    f.Accepts start ((List.range n).map g) ↔
      ∀ i < n, f.word (wordAddress start i) &&& g i = g i := by
  constructor
  · intro h i hi
    have hword := h i (by rw [List.length_map, List.length_range]; exact hi)
    rwa [List.getElem_map, List.getElem_range] at hword
  · intro h i hi
    rw [List.length_map, List.length_range] at hi
    rw [List.getElem_map, List.getElem_range]
    exact h i hi

end Nor

end Readout
