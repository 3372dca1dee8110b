import Mathlib.Data.Nat.Find
import Mathlib.Order.Bounds.Basic
import Mathlib.Order.Monotone.Basic
import Readout.Capture.Watch
import Readout.Proofs.Link.Runs
/-!
# When a watch ends

A watch looks at a counter every second, and at every look it compares the count with the one before.
It ends at the first look at which the readout is complete or has stalled, wherever the counter is
read from.

* `Watch.Ends` is the verdict of a look in terms of the counter: the count is complete, or it has
  been the same for longer than the limit;
* `exists_ends`: a counter that never goes back has such a look if there is a limit, and the words of
  the readout times the limit bound it;
* `Watch.after` is a watch after so many looks, `look_after` what one more look makes of it;
* `follow_after`, `follow_isLeast`: the loop reaches every look up to the first one with a verdict,
  and ends there; `follow_ends` puts this together.
-/

namespace Readout.Capture.Watch

variable {total : Nat} {limit : Option Nat} {counter : Nat → Nat} {k : Nat}

/-! ## Verdicts -/

/-- At the `k`-th look the count has been the same for more than the limit, which is in seconds. -/
def Stalls (limit : Option Nat) (counter : Nat → Nat) (k : Nat) : Prop :=
  ∃ l ∈ limit, l < k ∧ ∀ i, k - (l + 1) ≤ i → i ≤ k → counter i = counter k

/-- At the `k`-th look a readout is complete or has stalled. -/
def Ends (total : Nat) (limit : Option Nat) (counter : Nat → Nat) (k : Nat) : Prop :=
  total ≤ counter k ∨ Stalls limit counter k

theorem not_stalls_zero : ¬ Stalls limit counter 0 := by
  rintro ⟨l, -, hl, -⟩
  exact Nat.not_lt_zero l hl

theorem Stalls.same (h : Stalls limit counter (k + 1)) : counter k = counter (k + 1) := by
  obtain ⟨l, -, -, hsame⟩ := h
  exact hsame k (by omega) k.le_succ

theorem stalls_none : ¬ Stalls none counter k := by
  rintro ⟨l, hl, -⟩
  cases hl

theorem ends_none : Ends total none counter k ↔ total ≤ counter k :=
  or_iff_left stalls_none

/-- A limit without a stall is a limit with a new word. -/
theorem exists_ends {l : Nat} (hmono : Monotone counter) :
    ∃ k ≤ total * (l + 1), Ends total (some l) counter k := by
  by_contra hnone
  push Not at hnone
  have hgrows : ∀ m ≤ total, m ≤ counter (m * (l + 1)) := by
    intro m
    induction m with
    | zero => exact fun _ => Nat.zero_le _
    | succ m ih =>
      intro hm
      have hlive := hnone ((m + 1) * (l + 1)) (Nat.mul_le_mul_right _ hm)
      have hstart : (m + 1) * (l + 1) - (l + 1) = m * (l + 1) := by
        rw [Nat.add_mul, Nat.one_mul, Nat.add_sub_cancel]
      have hnew : ¬ ∀ i, m * (l + 1) ≤ i → i ≤ (m + 1) * (l + 1) →
          counter i = counter ((m + 1) * (l + 1)) := by
        intro hsame
        refine hlive (.inr ⟨l, rfl, ?_, ?_⟩)
        · exact Nat.lt_of_lt_of_le l.lt_succ_self (Nat.le_mul_of_pos_left _ m.succ_pos)
        · rwa [hstart]
      push Not at hnew
      obtain ⟨i, hlow, hhigh, hne⟩ := hnew
      calc m + 1 ≤ counter (m * (l + 1)) + 1 := Nat.succ_le_succ (ih (Nat.le_of_succ_le hm))
        _ ≤ counter i + 1 := Nat.succ_le_succ (hmono hlow)
        _ ≤ counter ((m + 1) * (l + 1)) := Nat.lt_of_le_of_ne (hmono hhigh) hne
  exact hnone _ (Nat.le_refl _) (.inl (hgrows total (Nat.le_refl _)))

/-- A look with a verdict comes after a first one. -/
theorem Ends.exists_isLeast (h : Ends total limit counter k) :
    ∃ first ≤ k, IsLeast {i | Ends total limit counter i} first := by
  classical
  exact ⟨Nat.find ⟨k, h⟩, Nat.find_min' _ h, Nat.find_spec ⟨k, h⟩, fun i hi => Nat.find_min' _ hi⟩

/-! ## The last change -/

/-- The last of the first `k` looks at which the count was a new one. -/
def lastChange (counter : Nat → Nat) : Nat → Nat
  | 0 => 0
  | k + 1 => if counter (k + 1) = counter k then lastChange counter k else k + 1

theorem lastChange_le (counter : Nat → Nat) (k : Nat) : lastChange counter k ≤ k := by
  induction k with
  | zero => exact Nat.le_refl _
  | succ k ih =>
    rw [lastChange]
    split
    · exact Nat.le_succ_of_le ih
    · exact Nat.le_refl _

/-- From the last change on the count has been the same. -/
theorem lastChange_le_iff {j : Nat} (hj : j ≤ k) :
    lastChange counter k ≤ j ↔ ∀ i, j ≤ i → i ≤ k → counter i = counter k := by
  induction k with
  | zero =>
    refine iff_of_true (Nat.zero_le _) fun i _ hi => ?_
    rw [Nat.le_zero.1 hi]
  | succ k ih =>
    rcases Nat.of_le_succ hj with hle | rfl
    · rw [lastChange]
      split
      · rename_i hsame
        refine (ih hle).trans ⟨fun h i hlow hhigh => ?_, fun h i hlow hhigh => ?_⟩
        · rcases Nat.of_le_succ hhigh with hle' | rfl
          · exact (h i hlow hle').trans hsame.symm
          · rfl
        · exact (h i hlow (Nat.le_succ_of_le hhigh)).trans hsame
      · rename_i hnew
        refine iff_of_false (by omega) fun h => hnew ?_
        exact (h k hle k.le_succ).symm
    · refine iff_of_true (lastChange_le counter _) fun i hlow hhigh => ?_
      rw [Nat.le_antisymm hhigh hlow]

theorem stalls_iff :
    Stalls limit counter k ↔ ∃ l ∈ limit, l < k - lastChange counter k := by
  refine exists_congr fun l => and_congr_right fun _ => ?_
  rw [← lastChange_le_iff (Nat.sub_le k (l + 1))]
  omega

/-! ## One look -/

/-- A watch after `k` looks, a second each. -/
def after (total : Nat) (limit : Option Nat) (start : Nat) (counter : Nat → Nat) (k : Nat) :
    Watch where
  total := total
  limit := limit.map Duration.seconds
  words := counter k
  changed := start + Duration.seconds (lastChange counter k)

variable {start : Nat}

/-- Nothing has been counted when a watch begins. -/
theorem after_zero (hzero : counter 0 = 0) : after total limit start counter 0 =
    { total := total, limit := limit.map Duration.seconds, changed := start } := by
  rw [after, hzero, lastChange, Duration.seconds, Nat.zero_mul]
  rfl

theorem look_after :
    (after total limit start counter k).look (start + Duration.seconds (k + 1)) (counter (k + 1)) =
      after total limit start counter (k + 1) := by
  by_cases hsame : counter (k + 1) = counter k <;> simp [look, after, lastChange, hsame]

theorem isComplete_after :
    (after total limit start counter k).isComplete = true ↔ total ≤ counter k :=
  decide_eq_true_iff

theorem isStalled_after :
    (after total limit start counter k).isStalled (start + Duration.seconds k) = true ↔
      Stalls limit counter k := by
  rw [stalls_iff]
  cases limit with
  | none => simp [isStalled, after]
  | some l =>
    have hsince : start + Duration.seconds k - (start + Duration.seconds (lastChange counter k)) =
        (k - lastChange counter k) * 1000000000 := by
      rw [Nat.add_sub_add_left, Duration.seconds, Duration.seconds, Nat.sub_mul]
    have hlimit : Duration.seconds l < (k - lastChange counter k) * 1000000000 ↔
        l < k - lastChange counter k := Nat.mul_lt_mul_right (by decide)
    simp [isStalled, after, hsince, hlimit]

/-! ## The loop -/

variable {ε σ : Type} {next : ExceptT ε (StateM σ) (Nat × Nat)}
  {report : Watch → ExceptT ε (StateM σ) Unit} {reached : Nat → σ → Prop} {n : Nat}

/-- The first `n` looks go well: each comes a second after the one before, and sees the counter.
The states after `k` looks are those that `reached k` holds of. -/
def Sampled (next : ExceptT ε (StateM σ) (Nat × Nat))
    (report : Watch → ExceptT ε (StateM σ) Unit) (start : Nat) (counter : Nat → Nat)
    (reached : Nat → σ → Prop) (n : Nat) : Prop :=
  ∀ k < n, ∀ s, reached k s → ∃ s',
    next.run.run s = (.ok (start + Duration.seconds (k + 1), counter (k + 1)), s') ∧
    ∀ w, ∃ s'', (report w).run.run s' = (.ok (), s'') ∧ reached (k + 1) s''

/-- A round of the loop is a look. -/
theorem follow_look (hsampled : Sampled next report start counter reached n) (hk : k < n) {s : σ}
    (hs : reached k s) (hopen : counter k < total) (patience : Nat) : ∃ s', reached (k + 1) s' ∧
      (follow next report (patience + 1) (after total limit start counter k)).run.run s =
        if (after total limit start counter (k + 1)).isStalled (start + Duration.seconds (k + 1))
        then (.ok (after total limit start counter (k + 1), some .stalled), s')
        else (follow next report patience (after total limit start counter (k + 1))).run.run s' := by
  obtain ⟨s₁, hnext, hreport⟩ := hsampled k hk s hs
  obtain ⟨s₂, hreport, hs₂⟩ := hreport (after total limit start counter (k + 1))
  have hincomplete : (after total limit start counter k).isComplete = false :=
    Bool.eq_false_iff.2 (mt isComplete_after.1 (Nat.not_le.2 hopen))
  refine ⟨s₂, hs₂, ?_⟩
  rw [follow, hincomplete, if_neg Bool.false_ne_true]
  show (next >>= _).run.run s = _
  rw [run_bind_ok hnext]
  dsimp only
  rw [look_after, run_bind_ok hreport]
  split <;> rfl

/-- As long as no look has a verdict, the loop goes on. -/
theorem follow_after (hsampled : Sampled next report start counter reached n) {s : σ}
    (hs : reached 0 s) (hlive : ∀ i ≤ n, ¬ Ends total limit counter i) (patience : Nat) :
    ∃ s', reached n s' ∧
      (follow next report (n + patience) (after total limit start counter 0)).run.run s =
        (follow next report patience (after total limit start counter n)).run.run s' := by
  induction n generalizing patience with
  | zero => exact ⟨s, hs, by rw [Nat.zero_add]⟩
  | succ n ih =>
    obtain ⟨s₁, hs₁, hrun⟩ := ih (fun k hk => hsampled k (Nat.lt_succ_of_lt hk))
      (fun i hi => hlive i (Nat.le_succ_of_le hi)) (patience + 1)
    have hopen : counter n < total :=
      Nat.not_le.1 fun hall => hlive n n.le_succ (.inl hall)
    obtain ⟨s₂, hs₂, hlook⟩ := follow_look hsampled n.lt_succ_self hs₁ hopen patience
    have hmoves : ¬ Stalls limit counter (n + 1) := fun h => hlive _ (Nat.le_refl _) (.inr h)
    rw [if_neg (mt isStalled_after.1 hmoves)] at hlook
    refine ⟨s₂, hs₂, ?_⟩
    rw [show n + 1 + patience = n + (patience + 1) by omega, hrun, hlook]

theorem follow_complete (hall : total ≤ counter k) (patience : Nat) (s : σ) :
    (follow next report (patience + 1) (after total limit start counter k)).run.run s =
      (.ok (after total limit start counter k, some .complete), s) := by
  rw [follow, isComplete_after.2 hall, if_pos rfl]
  rfl

/-- **A watch ends at the first look with a verdict**, and the count says with which one. -/
theorem follow_isLeast (hk : IsLeast {i | Ends total limit counter i} k)
    (hsampled : Sampled next report start counter reached k) {s : σ} (hs : reached 0 s)
    {patience : Nat} (hpatience : k < patience) : ∃ s', reached k s' ∧
      (follow next report patience (after total limit start counter 0)).run.run s =
        (.ok (after total limit start counter k,
          some (if total ≤ counter k then .complete else .stalled)), s') := by
  obtain ⟨more, rfl⟩ := Nat.exists_eq_add_of_lt hpatience
  cases k with
  | zero =>
    have hall : total ≤ counter 0 := hk.1.resolve_right not_stalls_zero
    rw [if_pos hall]
    exact ⟨s, hs, follow_complete hall _ s⟩
  | succ m =>
    have hlive : ∀ i ≤ m, ¬ Ends total limit counter i := fun i hi hends =>
      Nat.not_succ_le_self m (Nat.le_trans (hk.2 hends) hi)
    have hopen : counter m < total := Nat.not_le.1 fun hall => hlive m (Nat.le_refl m) (.inl hall)
    obtain ⟨s₁, hs₁, hrun⟩ := follow_after (fun i hi => hsampled i (Nat.lt_succ_of_lt hi)) hs hlive
      (more + 2)
    obtain ⟨s₂, hs₂, hlook⟩ := follow_look hsampled m.lt_succ_self hs₁ hopen (more + 1)
    refine ⟨s₂, hs₂, ?_⟩
    rw [show m + 1 + more + 1 = m + (more + 2) by omega, hrun, hlook]
    by_cases hstalls : Stalls limit counter (m + 1)
    · have hshort : ¬ total ≤ counter (m + 1) := by
        rw [← hstalls.same]
        exact Nat.not_le.2 hopen
      rw [if_pos (isStalled_after.2 hstalls), if_neg hshort]
    · have hall : total ≤ counter (m + 1) := hk.1.resolve_right hstalls
      rw [if_neg (mt isStalled_after.1 hstalls), if_pos hall]
      exact follow_complete hall more s₂

/-- A look that fails before there is a verdict ends the loop. -/
theorem follow_error {e : ε} (hlive : ∀ i ≤ n, ¬ Ends total limit counter i)
    (hsampled : Sampled next report start counter reached n) {s : σ} (hs : reached 0 s)
    (herror : ∀ s, reached n s → ∃ s', next.run.run s = (.error e, s')) {patience : Nat}
    (hpatience : n < patience) : ∃ s₁ s', reached n s₁ ∧ next.run.run s₁ = (.error e, s') ∧
      (follow next report patience (after total limit start counter 0)).run.run s =
        (.error e, s') := by
  obtain ⟨more, rfl⟩ := Nat.exists_eq_add_of_lt hpatience
  obtain ⟨s₁, hs₁, hrun⟩ := follow_after hsampled hs hlive (more + 1)
  obtain ⟨s', hnext⟩ := herror s₁ hs₁
  have hincomplete : (after total limit start counter n).isComplete = false :=
    Bool.eq_false_iff.2 fun hall => hlive n (Nat.le_refl n) (.inl (isComplete_after.1 hall))
  refine ⟨s₁, s', hs₁, hnext, ?_⟩
  rw [Nat.add_assoc, hrun, follow, hincomplete, if_neg Bool.false_ne_true]
  exact run_bind_error hnext

/-- **A watch over a counter that never goes back.**  With a limit, or if all words come, there is a
first look with a verdict, and the watch ends there: without a limit that is the first look that
sees all words, and a watch that ends with fewer words has stalled. -/
theorem follow_ends (hzero : counter 0 = 0) (hmono : Monotone counter)
    (hcomes : limit = none → ∃ i, total ≤ counter i) :
    ∃ k, (∀ l ∈ limit, k ≤ total * (l + 1)) ∧
      IsLeast {i | Ends total limit counter i} k ∧
      (limit = none → IsLeast {i | total ≤ counter i} k) ∧
      (counter k < total → Stalls limit counter k) ∧
      ∀ {ε σ : Type} (next : ExceptT ε (StateM σ) (Nat × Nat))
        (report : Watch → ExceptT ε (StateM σ) Unit) (reached : Nat → σ → Prop)
        (start patience : Nat) (s : σ), Sampled next report start counter reached k →
          reached 0 s → k < patience → ∃ w s', w.words = counter k ∧ reached k s' ∧
            (follow next report patience { total, limit := limit.map Duration.seconds
                                           changed := start }).run.run s =
              (.ok (w, some (if total ≤ counter k then .complete else .stalled)), s') := by
  obtain ⟨k, hbound, hends⟩ : ∃ k, (∀ l ∈ limit, k ≤ total * (l + 1)) ∧
      Ends total limit counter k := by
    cases limit with
    | none =>
      obtain ⟨i, hi⟩ := hcomes rfl
      exact ⟨i, fun l hl => (by cases hl), .inl hi⟩
    | some l =>
      obtain ⟨k, hk, hends⟩ := exists_ends hmono
      refine ⟨k, fun l' hl' => ?_, hends⟩
      cases hl'
      exact hk
  obtain ⟨first, hfirst, hleast⟩ := hends.exists_isLeast
  refine ⟨first, fun l hl => Nat.le_trans hfirst (hbound l hl), hleast, ?_, ?_, ?_⟩
  · rintro rfl
    have hall : {i | Ends total none counter i} = {i | total ≤ counter i} :=
      Set.ext fun i => ends_none
    rwa [← hall]
  · intro hshort
    exact hleast.1.resolve_left (Nat.not_le.2 hshort)
  · intro ε σ next report reached start patience s hsampled hs hpatience
    obtain ⟨s', hs', hrun⟩ := follow_isLeast hleast hsampled hs hpatience
    rw [after_zero hzero] at hrun
    exact ⟨_, s', rfl, hs', hrun⟩

end Readout.Capture.Watch
