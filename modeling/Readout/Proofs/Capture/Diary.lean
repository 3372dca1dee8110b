import Mathlib.Data.List.Range
import Readout.Bench.Basic
/-!
# A diary of captures

The host launches and closes captures, one call after the other.  Meanwhile datagrams arrive and
captures end on errors, at any moment: between two calls, and also during a call that waits for a
capture to end.  A diary keeps the bench together with what happened to its captures.

* `Happening` is what captures do on their own, `Step` is a call with what happens while it waits;
* `Diary.run` is a series of steps; `closeAll_quiet`: to close all captures while nothing happens is
  the call of the bench;
* `isValid_stop`, `words?_take` and the like say what the operations of the table do to what can be
  seen of it.
-/

namespace Readout.Capture

/-! ## What can be seen of a table -/

namespace Table

variable (t : Table) (id : Nat) (f : Files)

theorem isValid_eq : t.isValid id = (t.tasks[id]?.map Task.running).getD false := by
  unfold isValid
  cases t.tasks[id]? <;> rfl

theorem lt_size_of_isValid {t : Table} {id : Nat} (h : t.isValid id = true) : id < t.size := by
  rw [isValid_eq] at h
  by_contra hle
  rw [List.getElem?_eq_none (Nat.le_of_not_lt hle)] at h
  cases h

theorem words?_isSome_iff : (t.words? id).isSome ↔ id < t.size := by
  simp [words?, size]

/-- Only a capture that runs can be stopped. -/
theorem stop_of_invalid {t : Table} {id : Nat} (h : t.isValid id = false) :
    t.stop id f = (t, f) := by
  unfold isValid at h
  unfold stop
  cases hget : t.tasks[id]? with
  | none => rfl
  | some task =>
    rw [hget] at h
    simp only [h, Bool.false_eq_true, if_false]

/-- Only a capture that runs takes datagrams. -/
theorem take_of_invalid {t : Table} {id : Nat} (h : t.isValid id = false) (data : Bytes) :
    t.take id data f = (t, f) := by
  unfold isValid at h
  unfold take
  cases hget : t.tasks[id]? with
  | none => rfl
  | some task =>
    rw [hget] at h
    simp only [h, Bool.false_eq_true, if_false]

/-- A capture that runs, in its place in the table. -/
theorem exists_of_isValid {t : Table} {id : Nat} (h : t.isValid id = true) :
    ∃ task, t.tasks[id]? = some task ∧ task.running = true := by
  unfold isValid at h
  cases hget : t.tasks[id]? with
  | none =>
    rw [hget] at h
    cases h
  | some task =>
    rw [hget] at h
    exact ⟨task, rfl, h⟩

theorem stop_of_running {t : Table} {id : Nat} {task : Task} (hget : t.tasks[id]? = some task)
    (hrun : task.running = true) :
    t.stop id f = (⟨t.tasks.set id { task with running := false }⟩, task.output.finish f) := by
  unfold stop
  simp only [hget, hrun, if_true]

theorem take_of_running {t : Table} {id : Nat} {task : Task} (hget : t.tasks[id]? = some task)
    (hrun : task.running = true) (data : Bytes) :
    t.take id data f = (⟨t.tasks.set id (Task.take data f task).1⟩, (Task.take data f task).2) := by
  unfold take
  simp only [hget, hrun, if_true]

theorem getElem?_set_of_some {tasks : List Task} {task : Task} (hget : tasks[id]? = some task)
    (new : Task) (j : Nat) : (tasks.set id new)[j]? = if j = id then some new else tasks[j]? := by
  obtain ⟨hlt, -⟩ := List.getElem?_eq_some_iff.1 hget
  rw [List.getElem?_set]
  by_cases h : j = id
  · simp [h, hlt]
  · simp [h, Ne.symm h]

@[simp] theorem size_stop : (t.stop id f).1.size = t.size := by
  cases h : t.isValid id with
  | false => rw [stop_of_invalid f h]
  | true =>
    obtain ⟨task, hget, hrun⟩ := exists_of_isValid h
    rw [stop_of_running f hget hrun]
    exact List.length_set

@[simp] theorem isValid_stop (j : Nat) :
    (t.stop id f).1.isValid j = (t.isValid j && decide (j ≠ id)) := by
  cases h : t.isValid id with
  | false =>
    rw [stop_of_invalid f h]
    by_cases hj : j = id <;> simp [hj, h]
  | true =>
    obtain ⟨task, hget, hrun⟩ := exists_of_isValid h
    rw [stop_of_running f hget hrun, isValid_eq, isValid_eq, getElem?_set_of_some id hget]
    by_cases hj : j = id <;> simp [hj]

@[simp] theorem words?_stop (j : Nat) : (t.stop id f).1.words? j = t.words? j := by
  cases h : t.isValid id with
  | false => rw [stop_of_invalid f h]
  | true =>
    obtain ⟨task, hget, hrun⟩ := exists_of_isValid h
    rw [stop_of_running f hget hrun, words?, words?, getElem?_set_of_some id hget]
    by_cases hj : j = id <;> simp [hj, hget]

variable (data : Bytes)

@[simp] theorem size_take : (t.take id data f).1.size = t.size := by
  cases h : t.isValid id with
  | false => rw [take_of_invalid f h]
  | true =>
    obtain ⟨task, hget, hrun⟩ := exists_of_isValid h
    rw [take_of_running f hget hrun]
    exact List.length_set

@[simp] theorem isValid_take (j : Nat) : (t.take id data f).1.isValid j = t.isValid j := by
  cases h : t.isValid id with
  | false => rw [take_of_invalid f h]
  | true =>
    obtain ⟨task, hget, hrun⟩ := exists_of_isValid h
    rw [take_of_running f hget hrun, isValid_eq, isValid_eq, getElem?_set_of_some id hget]
    by_cases hj : j = id
    · simp [hj, hget, Task.take]
    · simp [hj]

/-- A datagram counts for the capture that takes it, by its whole words. -/
theorem words?_take (j : Nat) : (t.take id data f).1.words? j =
    if j = id ∧ t.isValid id = true then
      (t.words? j).map (· + (data.take maxDatagram).length / 4)
    else t.words? j := by
  cases h : t.isValid id with
  | false =>
    rw [take_of_invalid f h]
    simp
  | true =>
    obtain ⟨task, hget, hrun⟩ := exists_of_isValid h
    rw [take_of_running f hget hrun, words?, words?, getElem?_set_of_some id hget]
    by_cases hj : j = id
    · simp [hj, hget, Task.take]
    · simp [hj]

variable (port : Option Port) (output : Output)

@[simp] theorem size_launch : (t.launch port output).2.size = t.size + 1 := by
  simp [launch, size]

theorem isValid_launch (j : Nat) :
    (t.launch port output).2.isValid j = (t.isValid j || decide (j = t.size)) := by
  rw [isValid_eq, isValid_eq, launch, List.getElem?_append, size]
  rcases Nat.lt_trichotomy j t.tasks.length with h | h | h
  · simp [h, Nat.ne_of_lt h]
  · simp [h]
  · have hnone : [({ port, output } : Task)][j - t.tasks.length]? = none :=
      List.getElem?_eq_none (by simp only [List.length_singleton]; omega)
    simp [Nat.not_lt.2 (Nat.le_of_lt h), Nat.ne_of_gt h, hnone]

theorem words?_launch {j : Nat} (h : j < t.size) :
    (t.launch port output).2.words? j = t.words? j := by
  rw [words?, words?, launch, List.getElem?_append_left h]

/-- A capture is closed if it runs: it is stopped, and the answer is its count. -/
theorem close_of_isValid {t : Table} {id : Nat} (h : t.isValid id = true) :
    t.close id f = .ok ((t.words? id).getD 0, t.stop id f) := by
  obtain ⟨task, hget, hrun⟩ := exists_of_isValid h
  unfold close
  simp only [hget, hrun, if_true, words?, Option.map_some, Option.getD_some]

theorem close_of_invalid {t : Table} {id : Nat} (h : t.isValid id = false) :
    t.close id f = .error (.invalidTask id) := by
  unfold isValid at h
  unfold close
  cases hget : t.tasks[id]? with
  | none => rfl
  | some task =>
    rw [hget] at h
    simp only [h, Bool.false_eq_true, if_false]

end Table

/-- A launch that goes well: the output has begun, and the capture is the last of the table. -/
theorem launch_ok {b b' : Bench} {images : Bool} {path : String} {port : Port} {shape : Shape}
    {n : Nat} (hlaunch : b.launch images path port shape = .ok (n, b')) :
    ∃ output files, Output.start images path shape b.files = .ok (output, files) ∧
      n = b.captures.size ∧
      b' =
        { b with
          captures := (b.captures.launch (if port = 0 then none else some port) output).2
          files } := by
  unfold Bench.launch at hlaunch
  simp only [bind, Except.bind, throw, throwThe, MonadExceptOf.throw, pure, Except.pure] at hlaunch
  split at hlaunch
  · cases hlaunch
  · split at hlaunch
    · cases hlaunch
    · rename_i outcome hstart
      cases hlaunch
      exact ⟨outcome.1, outcome.2, hstart, rfl, rfl⟩

/-! ## The diary -/

/-- What captures do on their own. -/
inductive Happening
  /-- A capture takes a datagram. -/
  | arrival (id : Nat) (data : Bytes)
  /-- A capture ends on an error. -/
  | failure (id : Nat)
  /-- The files change, as a write that failed or another program leaves them. -/
  | spoiling (files : Files)

/-- Whether a capture ends on an error. -/
def Happening.fails (id : Nat) : Happening → Bool
  | failure j => id == j
  | _ => false

/-- What is written down about captures. -/
inductive Entry
  | launched (id : Nat)
  | closed (id words : Nat)
  | failed (id : Nat)
  deriving DecidableEq

/-- A bench, and what happened to its captures. -/
structure Diary where
  bench : Bench
  entries : List Entry := []

namespace Diary

def table (d : Diary) : Table := d.bench.captures

def note (d : Diary) (e : Entry) : Diary := { d with entries := d.entries ++ [e] }

/-- Something happens.  The end of a capture is noted if it was running. -/
def happen (d : Diary) : Happening → Diary
  | .arrival id data =>
    let (captures, files) := d.table.take id data d.bench.files
    { d with bench := { d.bench with captures, files } }
  | .failure id =>
    let (captures, files) := d.table.stop id d.bench.files
    let d' := { d with bench := { d.bench with captures, files } }
    if d.table.isValid id then d'.note (.failed id) else d'
  | .spoiling files => { d with bench := { d.bench with files } }

def happenAll (d : Diary) (hs : List Happening) : Diary := hs.foldl happen d

/-- Launch a capture. -/
def launch (d : Diary) (images : Bool) (path : String) (port : Port) (shape : Shape) :
    Except Error Nat × Diary :=
  match d.bench.launch images path port shape with
  | .ok (id, bench) => (.ok id, note { d with bench } (.launched id))
  | .error e => (.error e, d)

/-- Close a capture.  Things happen until the capture has ended, which it may do on its own. -/
def close (d : Diary) (id : Nat) (meanwhile : List Happening) : Except Error Nat × Diary :=
  let d' := d.happenAll meanwhile
  match d.bench.closeCapture id with
  | .error e => (.error e, d')
  | .ok _ =>
    match d'.bench.closeCapture id with
    | .ok (words, bench) => (.ok words, note { d' with bench } (.closed id words))
    | .error _ =>
      let words := (d'.table.words? id).getD 0
      (.ok words, d'.note (.closed id words))

/-- Close captures one after the other; the answer is how many were closed. -/
def closeEach (d : Diary) (meanwhile : Nat → List Happening) : List Nat → Nat × Diary
  | [] => (0, d)
  | id :: ids =>
    let (r, d) := d.close id (meanwhile id)
    let (n, d) := d.closeEach meanwhile ids
    (if r.isOk then n + 1 else n, d)

/-- Close all captures. -/
def closeAll (d : Diary) (meanwhile : Nat → List Happening) : Nat × Diary :=
  d.closeEach meanwhile (List.range d.table.size)

end Diary

/-- A call of the host with what happens while it waits, or something that happens between calls. -/
inductive Step
  | launch (images : Bool) (path : String) (port : Port) (shape : Shape)
  | close (id : Nat) (meanwhile : List Happening)
  | closeAll (meanwhile : Nat → List Happening)
  | pass (h : Happening)

namespace Diary

def step (d : Diary) : Step → Diary
  | .launch images path port shape => (d.launch images path port shape).2
  | .close id meanwhile => (d.close id meanwhile).2
  | .closeAll meanwhile => (d.closeAll meanwhile).2
  | .pass h => d.happen h

def run (d : Diary) (steps : List Step) : Diary := steps.foldl step d

/-! ## Happenings -/

variable (d : Diary)

theorem table_happen_arrival (id : Nat) (data : Bytes) :
    (d.happen (.arrival id data)).table = (d.table.take id data d.bench.files).1 := rfl

theorem table_happen_failure (id : Nat) :
    (d.happen (.failure id)).table = (d.table.stop id d.bench.files).1 := by
  unfold happen
  dsimp only
  split <;> rfl

@[simp] theorem size_happen (h : Happening) : (d.happen h).table.size = d.table.size := by
  cases h with
  | arrival id data => rw [table_happen_arrival, Table.size_take]
  | failure id => rw [table_happen_failure, Table.size_stop]
  | spoiling files => rfl

@[simp] theorem isValid_happen (h : Happening) (id : Nat) :
    (d.happen h).table.isValid id = (d.table.isValid id && !h.fails id) := by
  cases h with
  | arrival j data => rw [table_happen_arrival, Table.isValid_take]; simp [Happening.fails]
  | failure j =>
    rw [table_happen_failure, Table.isValid_stop]
    by_cases hj : id = j <;> simp [Happening.fails, hj]
  | spoiling files => simp [Happening.fails, happen, table]

/-- What happens is written down if a capture ends of it, and only then. -/
theorem happen_cases (h : Happening) :
    ((d.happen h).entries = d.entries ∧
      ∀ id, (d.happen h).table.isValid id = d.table.isValid id) ∨
    ∃ j, d.table.isValid j = true ∧ (d.happen h).entries = d.entries ++ [.failed j] ∧
      ∀ id, (d.happen h).table.isValid id = (d.table.isValid id && decide (id ≠ j)) := by
  cases h with
  | arrival j data =>
    refine .inl ⟨rfl, fun id => ?_⟩
    rw [table_happen_arrival, Table.isValid_take]
  | failure j =>
    cases hvalid : d.table.isValid j with
    | false =>
      refine .inl ⟨?_, fun id => ?_⟩
      · simp only [happen, hvalid, Bool.false_eq_true, if_false]
      · rw [table_happen_failure, Table.stop_of_invalid _ hvalid]
    | true =>
      refine .inr ⟨j, hvalid, ?_, fun id => ?_⟩
      · simp only [happen, hvalid, if_true, note]
      · rw [table_happen_failure, Table.isValid_stop]
  | spoiling files => exact .inl ⟨rfl, fun _ => rfl⟩

@[simp] theorem size_happenAll (hs : List Happening) :
    (d.happenAll hs).table.size = d.table.size := by
  induction hs generalizing d with
  | nil => rfl
  | cons h hs ih => exact (ih (d.happen h)).trans (d.size_happen h)

/-- A capture runs until it fails. -/
@[simp] theorem isValid_happenAll (hs : List Happening) (id : Nat) :
    (d.happenAll hs).table.isValid id = (d.table.isValid id && !hs.any (·.fails id)) := by
  induction hs generalizing d with
  | nil => simp [happenAll]
  | cons h hs ih =>
    have hrest := ih (d.happen h)
    rw [isValid_happen] at hrest
    rw [List.any_cons, Bool.not_or, ← Bool.and_assoc]
    exact hrest

/-! ## Closing -/

theorem closeCapture_of_isValid {b : Bench} {id : Nat} (h : b.captures.isValid id = true) :
    b.closeCapture id = .ok ((b.captures.words? id).getD 0,
      { b with captures := (b.captures.stop id b.files).1,
               files := (b.captures.stop id b.files).2 }) := by
  unfold Bench.closeCapture
  rw [Table.close_of_isValid b.files h]
  rfl

theorem closeCapture_of_invalid {b : Bench} {id : Nat} (h : b.captures.isValid id = false) :
    b.closeCapture id = .error (.invalidTask id) := by
  unfold Bench.closeCapture
  rw [Table.close_of_invalid b.files h]
  rfl

theorem close_of_invalid {d : Diary} {id : Nat} (h : d.table.isValid id = false)
    (meanwhile : List Happening) :
    d.close id meanwhile = (.error (.invalidTask id), d.happenAll meanwhile) := by
  unfold close
  rw [closeCapture_of_invalid h]

/-- A capture that runs is closed, also if it ends on its own before it is stopped. -/
theorem close_of_isValid {d : Diary} {id : Nat} (h : d.table.isValid id = true)
    (meanwhile : List Happening) :
    d.close id meanwhile =
      (.ok (((d.happenAll meanwhile).table.words? id).getD 0),
        { bench :=
            { (d.happenAll meanwhile).bench with
              captures :=
                ((d.happenAll meanwhile).table.stop id (d.happenAll meanwhile).bench.files).1
              files :=
                ((d.happenAll meanwhile).table.stop id (d.happenAll meanwhile).bench.files).2 }
          entries := (d.happenAll meanwhile).entries ++
            [.closed id (((d.happenAll meanwhile).table.words? id).getD 0)] }) := by
  unfold close
  rw [closeCapture_of_isValid h]
  dsimp only
  generalize d.happenAll meanwhile = d'
  cases hend : d'.table.isValid id with
  | true =>
    rw [closeCapture_of_isValid hend]
    rfl
  | false =>
    rw [closeCapture_of_invalid hend, Table.stop_of_invalid _ hend]
    rfl

theorem closeEach_quiet (ids : List Nat) :
    (d.closeEach (fun _ => []) ids).1 = (d.table.closeEach d.bench.files ids).1 ∧
      (d.closeEach (fun _ => []) ids).2.bench =
        { d.bench with
          captures := (d.table.closeEach d.bench.files ids).2.1
          files := (d.table.closeEach d.bench.files ids).2.2 } := by
  induction ids generalizing d with
  | nil => exact ⟨rfl, rfl⟩
  | cons id ids ih =>
    obtain ⟨hcount, hbench⟩ := ih (d.close id []).2
    cases h : d.table.isValid id with
    | true =>
      rw [close_of_isValid h] at hcount hbench
      simp only [closeEach, Table.closeEach, close_of_isValid h, Table.close_of_isValid _ h]
      exact ⟨congrArg (· + 1) hcount, hbench⟩
    | false =>
      rw [close_of_invalid h] at hcount hbench
      simp only [closeEach, Table.closeEach, close_of_invalid h, Table.close_of_invalid _ h]
      exact ⟨hcount, hbench⟩

/-- A call to close all captures during which nothing happens is that of the bench. -/
theorem closeAll_quiet : (d.closeAll fun _ => []).1 = d.bench.closeAll.1 ∧
    (d.closeAll fun _ => []).2.bench = d.bench.closeAll.2 :=
  d.closeEach_quiet _

end Diary

end Readout.Capture
