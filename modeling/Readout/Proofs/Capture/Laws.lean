import Readout.Proofs.Capture.Lifetime
/-!
# What the calls on captures answer

After any series of calls, and whatever happens meanwhile, the next call answers what was written
down about the captures.

* `closeEach_range'`: a round of closes counts the captures that run when it is their turn;
* `Diary.Lawful` is what a diary says of its captures and of the next call;
* `run_lawful`: it holds after every series of steps.
-/

namespace Readout.Capture.Diary

/-! ## Closing all -/

/-- Closing a capture ends it, and what happens meanwhile may end others. -/
theorem isValid_close (d : Diary) (id : Nat) (meanwhile : List Happening) (j : Nat) :
    (d.close id meanwhile).2.table.isValid j =
      (d.table.isValid j && !meanwhile.any (·.fails j) && decide (j ≠ id)) := by
  cases h : d.table.isValid id with
  | false =>
    rw [close_of_invalid h, isValid_happenAll]
    by_cases hj : j = id
    · simp [hj, h]
    · simp [hj]
  | true =>
    rw [close_of_isValid h]
    show ((d.happenAll meanwhile).table.stop id _).1.isValid j = _
    rw [Table.isValid_stop, isValid_happenAll]

theorem isOk_close (d : Diary) (id : Nat) (meanwhile : List Happening) :
    (d.close id meanwhile).1.isOk = d.table.isValid id := by
  cases h : d.table.isValid id with
  | false => rw [close_of_invalid h]; rfl
  | true => rw [close_of_isValid h]; rfl

theorem closeEach_cons (d : Diary) (meanwhile : Nat → List Happening) (id : Nat)
    (ids : List Nat) : d.closeEach meanwhile (id :: ids) =
      (if (d.close id (meanwhile id)).1.isOk then
          ((d.close id (meanwhile id)).2.closeEach meanwhile ids).1 + 1
        else ((d.close id (meanwhile id)).2.closeEach meanwhile ids).1,
        ((d.close id (meanwhile id)).2.closeEach meanwhile ids).2) := rfl

/-- A capture is closed in its turn if it runs and has not failed in an earlier turn. -/
theorem closeEach_range' (d : Diary) (meanwhile : Nat → List Happening) (start n : Nat) :
    (d.closeEach meanwhile (List.range' start n)).1 = (List.range' start n).countP (fun id =>
        d.table.isValid id &&
          decide (∀ j, start ≤ j → j < id → (meanwhile j).any (·.fails id) = false)) ∧
      ∀ id, (d.closeEach meanwhile (List.range' start n)).2.table.isValid id = true →
        d.table.isValid id = true ∧ ¬ (start ≤ id ∧ id < start + n) := by
  induction n generalizing d start with
  | zero => exact ⟨rfl, fun id h => ⟨h, by omega⟩⟩
  | succ n ih =>
    obtain ⟨hcount, hvalid⟩ := ih (d.close start (meanwhile start)).2 (start + 1)
    -- What the first turn leaves of the captures after it is what has not failed in that turn.
    have hrest : (List.range' (start + 1) n).countP (fun id =>
          (d.close start (meanwhile start)).2.table.isValid id &&
            decide (∀ j, start + 1 ≤ j → j < id → (meanwhile j).any (·.fails id) = false)) =
        (List.range' (start + 1) n).countP (fun id => d.table.isValid id &&
            decide (∀ j, start ≤ j → j < id → (meanwhile j).any (·.fails id) = false)) := by
      refine List.countP_congr fun id hid => ?_
      have hlt : start < id := by
        obtain ⟨i, -, rfl⟩ := List.mem_range'.1 hid
        omega
      simp only [isValid_close, Bool.and_eq_true, Bool.not_eq_true', decide_eq_true_eq]
      constructor
      · rintro ⟨⟨⟨hrun, hfirst⟩, -⟩, hlater⟩
        refine ⟨hrun, fun j hj hjid => ?_⟩
        rcases Nat.eq_or_lt_of_le hj with rfl | hj
        · exact hfirst
        · exact hlater j hj hjid
      · rintro ⟨hrun, hall⟩
        exact ⟨⟨⟨hrun, hall start (Nat.le_refl _) hlt⟩, Nat.ne_of_gt hlt⟩,
          fun j hj hjid => hall j (Nat.le_of_succ_le hj) hjid⟩
    have hturn : ∀ j, start ≤ j → j < start → (meanwhile j).any (·.fails start) = false :=
      fun j hj hlt => absurd hj (Nat.not_le.2 hlt)
    rw [List.range'_succ, List.countP_cons, ← hrest, closeEach_cons]
    refine ⟨?_, fun id hid => ?_⟩
    · rw [hcount, isOk_close]
      rw [decide_eq_true hturn, Bool.and_true]
      cases d.table.isValid start <;> rfl
    · obtain ⟨hnow, hout⟩ := hvalid id hid
      rw [isValid_close, Bool.and_eq_true, Bool.and_eq_true, decide_eq_true_eq] at hnow
      exact ⟨hnow.1.1, by omega⟩

/-- A capture is closed by the round over the whole table if it runs until its turn. -/
theorem closeAll_eq (d : Diary) (meanwhile : Nat → List Happening) :
    (d.closeAll meanwhile).1 = (List.range d.table.size).countP (fun id =>
        d.table.isValid id && decide (∀ j < id, (meanwhile j).any (·.fails id) = false)) ∧
      ∀ id, (d.closeAll meanwhile).2.table.isValid id = false := by
  obtain ⟨hcount, hvalid⟩ := d.closeEach_range' meanwhile 0 d.table.size
  unfold closeAll
  rw [List.range_eq_range']
  refine ⟨?_, fun id => ?_⟩
  · simpa using hcount
  · rw [Bool.eq_false_iff]
    intro hid
    obtain ⟨hrun, hout⟩ := hvalid id hid
    exact hout ⟨Nat.zero_le _, by simpa using Table.lt_size_of_isValid hrun⟩

/-! ## Laws -/

/-- What a diary says of its captures, and what the next call answers. -/
structure Lawful (d : Diary) : Prop where
  numbered : d.entries.filterMap Entry.launched? = List.range d.table.size
  launch_ok : ∀ images path port shape id d', d.launch images path port shape = (.ok id, d') →
    id = d.table.size ∧ d'.table.size = d.table.size + 1 ∧
      d'.entries = d.entries ++ [.launched id]
  launch_error : ∀ images path port shape e d',
    d.launch images path port shape = (.error e, d') → d' = d
  valid : ∀ id, d.table.isValid id = true ↔ d.Running id
  once : ∀ id, d.entries.countP (·.closes id) ≤ 1
  close_isOk : ∀ id meanwhile, (d.close id meanwhile).1.isOk = true ↔ d.Running id
  close_ok : ∀ id meanwhile n d', d.close id meanwhile = (.ok n, d') →
    .closed id n ∈ d'.entries ∧ d'.table.words? id = some n
  /-- A close that is refused changes nothing: what happens meanwhile happens without it. -/
  close_error : ∀ id meanwhile, ¬ d.Running id →
    d.close id meanwhile = (.error (.invalidTask id), d.happenAll meanwhile)
  closed : ∀ id n, .closed id n ∈ d.entries → d.table.words? id = some n
  later : ∀ steps, d.table.Evolves (d.run steps).table
  closeAll_count : ∀ meanwhile, (d.closeAll meanwhile).1 =
    (List.range d.table.size).countP fun id =>
      d.table.isValid id && decide (∀ j < id, (meanwhile j).any (·.fails id) = false)
  closeAll_valid : ∀ meanwhile id, (d.closeAll meanwhile).2.table.isValid id = false
  /-- The call of the bench takes no time. -/
  closeAll_bench : d.bench.closeAll.1 = (List.range d.table.size).countP d.table.isValid ∧
    ∀ id, d.bench.closeAll.2.captures.isValid id = false

theorem Accounted.lawful {d : Diary} (h : d.Accounted) : d.Lawful where
  numbered := h.numbered
  launch_ok := by
    intro images path port shape id d' hlaunch
    obtain ⟨files, listening, output, hnew⟩ | ⟨e, herror⟩ := d.launch_cases images path port shape
    · rw [hnew] at hlaunch
      cases hlaunch
      exact ⟨rfl, Table.size_launch _ _ _, rfl⟩
    · rw [herror] at hlaunch
      cases hlaunch
  launch_error := by
    intro images path port shape e d' hlaunch
    obtain ⟨files, listening, output, hnew⟩ | ⟨e', herror⟩ := d.launch_cases images path port shape
    · rw [hnew] at hlaunch
      cases hlaunch
    · rw [herror] at hlaunch
      cases hlaunch
      rfl
  valid := h.valid
  once := h.once
  close_isOk := fun id meanwhile => by rw [isOk_close, h.valid]
  close_ok := by
    intro id meanwhile n d' hclose
    have hclosed : .closed id n ∈ d'.entries := by
      cases hvalid : d.table.isValid id with
      | false =>
        rw [close_of_invalid hvalid] at hclose
        cases hclose
      | true =>
        rw [close_of_isValid hvalid] at hclose
        cases hclose
        exact List.mem_append_right _ (List.mem_singleton_self _)
    have hafter : d'.Accounted := by
      have := h.close id meanwhile
      rwa [hclose] at this
    exact ⟨hclosed, hafter.words id n hclosed⟩
  close_error := fun id meanwhile hnot =>
    close_of_invalid (Bool.eq_false_iff.2 (mt (h.valid id).1 hnot)) meanwhile
  closed := h.words
  later := d.evolves_run
  closeAll_count := fun meanwhile => (d.closeAll_eq meanwhile).1
  closeAll_valid := fun meanwhile => (d.closeAll_eq meanwhile).2
  closeAll_bench := by
    obtain ⟨hcount, hbench⟩ := d.closeAll_quiet
    obtain ⟨hquiet, hvalid⟩ := d.closeAll_eq fun _ => []
    rw [← hcount, ← hbench]
    refine ⟨?_, hvalid⟩
    rw [hquiet]
    simp

/-- The laws hold after every series of calls and happenings, from a bench without captures. -/
theorem run_lawful (b : Bench) (steps : List Step) :
    ((Diary.mk { b with captures := {} } []).run steps).Lawful :=
  ((Accounted.empty b).run steps).lawful

end Readout.Capture.Diary
