import Readout.Proofs.Capture.Diary
/-!
# The life of captures

A capture lives from its launch until it is closed or ends on an error, and what can be seen of it
follows from what was written down about it.

* `Table.Evolves` is what time does to a table: captures come to it and end, and words are added to
  those that run;
* `Diary.Accounted` ties the table to the diary: every step keeps it.
-/

namespace Readout.Capture

/-! ## Time -/

/-- A table as it may be later: captures that have ended stay so and keep their counts, and no count
becomes less. -/
structure Table.Evolves (t t' : Table) : Prop where
  size : t.size ≤ t'.size
  valid : ∀ id, id < t.size → t'.isValid id = true → t.isValid id = true
  words : ∀ id n, t.words? id = some n → ∃ n', t'.words? id = some n' ∧ n ≤ n'
  final : ∀ id n, t.isValid id = false → t.words? id = some n → t'.words? id = some n

namespace Table

theorem lt_size_of_words {t : Table} {id n : Nat} (h : t.words? id = some n) : id < t.size := by
  rw [← words?_isSome_iff, h]
  rfl

theorem Evolves.refl (t : Table) : t.Evolves t :=
  ⟨Nat.le_refl _, fun _ _ h => h, fun _ n h => ⟨n, h, Nat.le_refl n⟩, fun _ _ _ h => h⟩

theorem Evolves.trans {t t' t'' : Table} (h : t.Evolves t') (h' : t'.Evolves t'') :
    t.Evolves t'' where
  size := Nat.le_trans h.size h'.size
  valid := fun id hid hvalid =>
    h.valid id hid (h'.valid id (Nat.lt_of_lt_of_le hid h.size) hvalid)
  words := by
    intro id n hn
    obtain ⟨n', hn', hle⟩ := h.words id n hn
    obtain ⟨n'', hn'', hle'⟩ := h'.words id n' hn'
    exact ⟨n'', hn'', Nat.le_trans hle hle'⟩
  final := by
    intro id n hinvalid hn
    refine h'.final id n ?_ (h.final id n hinvalid hn)
    rw [Bool.eq_false_iff]
    intro hvalid
    rw [h.valid id (lt_size_of_words hn) hvalid] at hinvalid
    cases hinvalid

theorem evolves_take (t : Table) (id : Nat) (data : Bytes) (f : Files) :
    t.Evolves (t.take id data f).1 where
  size := Nat.le_of_eq (t.size_take id f data).symm
  valid := fun j _ h => by rwa [isValid_take] at h
  words := by
    intro j n hn
    rw [words?_take]
    split
    · exact ⟨n + (data.take maxDatagram).length / 4, by rw [hn]; rfl, Nat.le_add_right _ _⟩
    · exact ⟨n, hn, Nat.le_refl n⟩
  final := by
    intro j n hinvalid hn
    rw [words?_take, if_neg]
    · exact hn
    · rintro ⟨rfl, hvalid⟩
      rw [hinvalid] at hvalid
      cases hvalid

theorem evolves_stop (t : Table) (id : Nat) (f : Files) : t.Evolves (t.stop id f).1 where
  size := Nat.le_of_eq (t.size_stop id f).symm
  valid := fun j _ h => by
    rw [isValid_stop, Bool.and_eq_true] at h
    exact h.1
  words := fun j n hn => ⟨n, by rwa [words?_stop], Nat.le_refl n⟩
  final := fun j n _ hn => by rwa [words?_stop]

theorem evolves_launch (t : Table) (port : Option Port) (output : Output) :
    t.Evolves (t.launch port output).2 where
  size := by
    rw [size_launch]
    exact Nat.le_succ _
  valid := fun j hj h => by
    rw [isValid_launch, Bool.or_eq_true] at h
    exact h.resolve_right fun heq => Nat.ne_of_lt hj (of_decide_eq_true heq)
  words := fun j n hn =>
    ⟨n, by rwa [words?_launch t port output (lt_size_of_words hn)], Nat.le_refl n⟩
  final := fun j n _ hn => by rwa [words?_launch t port output (lt_size_of_words hn)]

end Table

namespace Diary

theorem evolves_happen (d : Diary) (h : Happening) : d.table.Evolves (d.happen h).table := by
  cases h with
  | arrival id data => exact d.table.evolves_take id data _
  | failure id =>
    rw [table_happen_failure]
    exact d.table.evolves_stop id _
  | spoiling files => exact .refl _

theorem evolves_happenAll (d : Diary) (hs : List Happening) :
    d.table.Evolves (d.happenAll hs).table := by
  induction hs generalizing d with
  | nil => exact .refl _
  | cons h hs ih => exact (d.evolves_happen h).trans (ih (d.happen h))

/-- A launch either adds a capture at the end of the table, or it changes nothing. -/
theorem launch_cases (d : Diary) (images : Bool) (path : String) (port : Port) (shape : Shape) :
    (∃ files listening output, d.launch images path port shape = (.ok d.table.size,
      { bench := { d.bench with captures := (d.table.launch listening output).2, files }
        entries := d.entries ++ [.launched d.table.size] })) ∨
    ∃ e, d.launch images path port shape = (.error e, d) := by
  unfold launch
  split
  · rename_i id bench hlaunch
    obtain ⟨output, files, -, rfl, rfl⟩ := launch_ok hlaunch
    exact .inl ⟨files, if port = 0 then none else some port, output, rfl⟩
  · rename_i e _
    exact .inr ⟨e, rfl⟩

theorem evolves_launch (d : Diary) (images : Bool) (path : String) (port : Port) (shape : Shape) :
    d.table.Evolves (d.launch images path port shape).2.table := by
  obtain ⟨files, listening, output, hlaunch⟩ | ⟨e, hlaunch⟩ :=
    d.launch_cases images path port shape
  · rw [hlaunch]
    exact d.table.evolves_launch listening output
  · rw [hlaunch]
    exact .refl _

theorem evolves_close (d : Diary) (id : Nat) (meanwhile : List Happening) :
    d.table.Evolves (d.close id meanwhile).2.table := by
  cases h : d.table.isValid id with
  | false =>
    rw [close_of_invalid h]
    exact d.evolves_happenAll meanwhile
  | true =>
    rw [close_of_isValid h]
    exact (d.evolves_happenAll meanwhile).trans ((d.happenAll meanwhile).table.evolves_stop id _)

theorem evolves_closeEach (d : Diary) (meanwhile : Nat → List Happening) (ids : List Nat) :
    d.table.Evolves (d.closeEach meanwhile ids).2.table := by
  induction ids generalizing d with
  | nil => exact .refl _
  | cons id ids ih => exact (d.evolves_close id (meanwhile id)).trans (ih _)

theorem evolves_step (d : Diary) (s : Step) : d.table.Evolves (d.step s).table := by
  cases s with
  | launch images path port shape => exact d.evolves_launch images path port shape
  | close id meanwhile => exact d.evolves_close id meanwhile
  | closeAll meanwhile => exact d.evolves_closeEach meanwhile _
  | pass h => exact d.evolves_happen h

theorem evolves_run (d : Diary) (steps : List Step) : d.table.Evolves (d.run steps).table := by
  induction steps generalizing d with
  | nil => exact .refl _
  | cons s steps ih => exact (d.evolves_step s).trans (ih (d.step s))

end Diary

/-! ## Accounts -/

/-- The number that a launch gave out. -/
def Entry.launched? : Entry → Option Nat
  | launched id => some id
  | _ => none

/-- Whether a capture was closed. -/
def Entry.closes (id : Nat) : Entry → Bool
  | closed j _ => id == j
  | _ => false

namespace Diary

/-- What the diary says of a capture that runs: it was launched, and neither closed nor ended on an
error. -/
def Running (d : Diary) (id : Nat) : Prop :=
  .launched id ∈ d.entries ∧ (∀ n, .closed id n ∉ d.entries) ∧ .failed id ∉ d.entries

/-- The table is what the diary says. -/
structure Accounted (d : Diary) : Prop where
  numbered : d.entries.filterMap Entry.launched? = List.range d.table.size
  valid : ∀ id, d.table.isValid id = true ↔ d.Running id
  once : ∀ id, d.entries.countP (·.closes id) ≤ 1
  words : ∀ id n, .closed id n ∈ d.entries → d.table.words? id = some n
  failed : ∀ id, .failed id ∈ d.entries → id < d.table.size

variable {d : Diary}

theorem Accounted.invalid_of_closed (h : d.Accounted) {id n : Nat}
    (hclosed : .closed id n ∈ d.entries) : d.table.isValid id = false := by
  rw [Bool.eq_false_iff]
  intro hvalid
  exact ((h.valid id).1 hvalid).2.1 n hclosed

theorem Accounted.empty (b : Bench) : (Diary.mk { b with captures := {} } []).Accounted where
  numbered := rfl
  valid := fun id => by simp [Running, table, Table.isValid]
  once := fun _ => Nat.zero_le _
  words := fun _ _ h => absurd h List.not_mem_nil
  failed := fun _ h => absurd h List.not_mem_nil

/-- Nothing is to be written down if no capture comes or ends. -/
theorem Accounted.unchanged (h : d.Accounted) {d' : Diary} (hentries : d'.entries = d.entries)
    (hevolves : d.table.Evolves d'.table) (hsize : d'.table.size = d.table.size)
    (hvalid : ∀ id, d'.table.isValid id = d.table.isValid id) : d'.Accounted where
  numbered := by rw [hentries, hsize, h.numbered]
  valid := fun id => by rw [hvalid, Running, hentries, h.valid, Running]
  once := by rw [hentries]; exact h.once
  words := by
    rw [hentries]
    exact fun id n hclosed =>
      hevolves.final id n (h.invalid_of_closed hclosed) (h.words id n hclosed)
  failed := by rw [hentries, hsize]; exact h.failed

/-- The end of a capture that was not closed before is written down. -/
theorem Accounted.ended (h : d.Accounted) {d' : Diary} {e : Entry} {j : Nat}
    (he : e = .failed j ∨ ∃ n, e = .closed j n ∧ d'.table.words? j = some n)
    (hentries : d'.entries = d.entries ++ [e]) (hevolves : d.table.Evolves d'.table)
    (hsize : d'.table.size = d.table.size)
    (hvalid : ∀ id, d'.table.isValid id = (d.table.isValid id && decide (id ≠ j)))
    (hj : j < d.table.size) (hopen : ∀ n, .closed j n ∉ d.entries) : d'.Accounted where
  numbered := by
    have hnone : e.launched? = none := by
      obtain rfl | ⟨n, rfl, -⟩ := he <;> rfl
    rw [hentries, hsize, List.filterMap_append, h.numbered]
    simp [hnone]
  valid := by
    intro id
    by_cases hid : id = j
    · subst hid
      have hnot : ¬ d'.Running id := by
        intro hrunning
        obtain rfl | ⟨n, rfl, -⟩ := he
        · exact hrunning.2.2 (by simp [hentries])
        · exact hrunning.2.1 n (by simp [hentries])
      simp [hvalid, hnot]
    · have hrunning : d'.Running id ↔ d.Running id := by
        obtain rfl | ⟨n, rfl, -⟩ := he <;> simp [Running, hentries, hid]
      rw [hvalid, hrunning, ← h.valid]
      simp [hid]
  once := by
    intro id
    rw [hentries, List.countP_append]
    obtain rfl | ⟨n, rfl, -⟩ := he
    · exact h.once id
    · by_cases hid : id = j
      · subst hid
        have hzero : d.entries.countP (·.closes id) = 0 := by
          refine List.countP_eq_zero.2 fun e he hcloses => ?_
          cases e with
          | closed i m =>
            rw [Entry.closes, beq_iff_eq] at hcloses
            subst hcloses
            exact hopen m he
          | launched i => cases hcloses
          | failed i => cases hcloses
        rw [hzero, Nat.zero_add]
        exact List.countP_le_length
      · simpa [Entry.closes, hid] using h.once id
  words := by
    intro id n hclosed
    rw [hentries, List.mem_append, List.mem_singleton] at hclosed
    rcases hclosed with hold | rfl
    · exact hevolves.final id n (h.invalid_of_closed hold) (h.words id n hold)
    · obtain hne | ⟨m, hm, hwords⟩ := he
      · cases hne
      · cases hm
        exact hwords
  failed := by
    intro id hfailed
    rw [hentries, List.mem_append, List.mem_singleton] at hfailed
    rw [hsize]
    rcases hfailed with hold | rfl
    · exact h.failed id hold
    · obtain hm | ⟨n, hm, -⟩ := he <;> cases hm
      exact hj

theorem Accounted.happen (h : d.Accounted) (e : Happening) : (d.happen e).Accounted := by
  have hevolves := d.evolves_happen e
  obtain ⟨hentries, hvalid⟩ | ⟨j, hj, hentries, hvalid⟩ := d.happen_cases e
  · exact h.unchanged hentries hevolves (d.size_happen e) hvalid
  · exact h.ended (.inl rfl) hentries hevolves (d.size_happen e) hvalid
      (Table.lt_size_of_isValid hj) ((h.valid j).1 hj).2.1

theorem Accounted.happenAll (h : d.Accounted) (hs : List Happening) :
    (d.happenAll hs).Accounted := by
  induction hs generalizing d with
  | nil => exact h
  | cons e hs ih => exact ih (h.happen e)

/-- No capture is closed by what happens on its own. -/
theorem closed_mem_happenAll (d : Diary) (hs : List Happening) {id n : Nat} :
    .closed id n ∈ (d.happenAll hs).entries ↔ .closed id n ∈ d.entries := by
  induction hs generalizing d with
  | nil => exact Iff.rfl
  | cons e hs ih =>
    refine (ih (d.happen e)).trans ?_
    obtain ⟨hentries, -⟩ | ⟨j, -, hentries, -⟩ := d.happen_cases e <;> simp [hentries]

theorem Accounted.launch (h : d.Accounted) (images : Bool) (path : String) (port : Port)
    (shape : Shape) : (d.launch images path port shape).2.Accounted := by
  have hevolves := d.evolves_launch images path port shape
  obtain ⟨files, listening, output, hlaunch⟩ | ⟨e, hlaunch⟩ :=
    d.launch_cases images path port shape
  swap
  · rw [hlaunch]
    exact h
  rw [hlaunch] at hevolves ⊢
  have hnew : ∀ n, .closed d.table.size n ∉ d.entries := fun n hclosed =>
    Nat.lt_irrefl _ (Table.lt_size_of_words (h.words _ n hclosed))
  refine ⟨?_, fun id => ?_, fun id => ?_, fun id n hclosed => ?_, fun id hfailed => ?_⟩
  -- The number of the new capture is one that no entry has named before.
  · have hsize : (d.table.launch listening output).2.size = d.table.size + 1 :=
      Table.size_launch _ _ _
    show (d.entries ++ [Entry.launched d.table.size]).filterMap Entry.launched? =
      List.range (d.table.launch listening output).2.size
    rw [hsize, List.range_succ, ← h.numbered, List.filterMap_append]
    rfl
  · show (d.table.launch listening output).2.isValid id = true ↔ _
    rw [Table.isValid_launch, Bool.or_eq_true, h.valid, decide_eq_true_eq]
    by_cases hid : id = d.table.size
    · subst hid
      have hfailed : .failed d.table.size ∉ d.entries := fun hf => Nat.lt_irrefl _ (h.failed _ hf)
      simp [Running, hnew, hfailed]
    · simp [Running, hid]
  · show (d.entries ++ [Entry.launched d.table.size]).countP (·.closes id) ≤ 1
    rw [List.countP_append]
    exact h.once id
  · have hold : .closed id n ∈ d.entries := by simpa using hclosed
    exact hevolves.final id n (h.invalid_of_closed hold) (h.words id n hold)
  · have hold : .failed id ∈ d.entries := by simpa using hfailed
    exact Nat.lt_of_lt_of_le (h.failed id hold) hevolves.size

theorem Accounted.close (h : d.Accounted) (id : Nat) (meanwhile : List Happening) :
    (d.close id meanwhile).2.Accounted := by
  cases hvalid : d.table.isValid id with
  | false =>
    rw [close_of_invalid hvalid]
    exact h.happenAll meanwhile
  | true =>
    have hafter := h.happenAll meanwhile
    have hid : id < (d.happenAll meanwhile).table.size := by
      rw [size_happenAll]
      exact Table.lt_size_of_isValid hvalid
    have hopen : ∀ n, .closed id n ∉ (d.happenAll meanwhile).entries := fun n hclosed =>
      ((h.valid id).1 hvalid).2.1 n ((d.closed_mem_happenAll meanwhile).1 hclosed)
    obtain ⟨n, hn⟩ := Option.isSome_iff_exists.1
      (((d.happenAll meanwhile).table.words?_isSome_iff id).2 hid)
    rw [close_of_isValid hvalid]
    refine hafter.ended (.inr ⟨_, rfl, ?_⟩) rfl
      ((d.happenAll meanwhile).table.evolves_stop id _) (Table.size_stop _ _ _)
      (fun j => Table.isValid_stop _ _ _ _) hid hopen
    show ((d.happenAll meanwhile).table.stop id _).1.words? id = _
    rw [Table.words?_stop, hn]
    rfl

theorem Accounted.closeEach (h : d.Accounted) (meanwhile : Nat → List Happening)
    (ids : List Nat) : (d.closeEach meanwhile ids).2.Accounted := by
  induction ids generalizing d with
  | nil => exact h
  | cons id ids ih => exact ih (h.close id (meanwhile id))

theorem Accounted.step (h : d.Accounted) (s : Step) : (d.step s).Accounted := by
  cases s with
  | launch images path port shape => exact h.launch images path port shape
  | close id meanwhile => exact h.close id meanwhile
  | closeAll meanwhile => exact h.closeEach meanwhile _
  | pass e => exact h.happen e

theorem Accounted.run (h : d.Accounted) (steps : List Step) : (d.run steps).Accounted := by
  induction steps generalizing d with
  | nil => exact h
  | cons s steps ih => exact ih (h.step s)

end Diary

end Readout.Capture
