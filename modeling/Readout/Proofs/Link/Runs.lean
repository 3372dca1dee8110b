import Readout.Link.Exchange
/-!
# Runs of a host

A run takes a journal to an outcome and a journal.  The equations of this file say what the
operations of `Host` do to a journal, on any link; a composed run is taken apart with `bind_ok` and
`bind_error` at the first of its parts, or with `of_bind_ok` if it went well, and a wait for the
marker with `awaitFrom_lost` at the first of its rounds.  `run_bind_ok`, `run_bind_error` and
`of_run_bind_ok` are the same for the runs of any program that may fail.
-/

/-! ## Runs that may fail -/

namespace Readout

section

variable {ε σ α β : Type} {m : ExceptT ε (StateM σ) α} {f : α → ExceptT ε (StateM σ) β} {s s' : σ}

theorem run_bind_ok {a : α} (h : m.run.run s = (.ok a, s')) :
    (m >>= f).run.run s = (f a).run.run s' := by
  rw [ExceptT.run_bind, StateT.run_bind, h]
  rfl

theorem run_bind_error {e : ε} (h : m.run.run s = (.error e, s')) :
    (m >>= f).run.run s = (.error e, s') := by
  rw [ExceptT.run_bind, StateT.run_bind, h]
  rfl

/-- A composed run that went well went well in both of its parts. -/
theorem of_run_bind_ok {b : β} (h : (m >>= f).run.run s = (.ok b, s')) :
    ∃ a s₁, m.run.run s = (.ok a, s₁) ∧ (f a).run.run s₁ = (.ok b, s') := by
  rcases hm : m.run.run s with ⟨r, s₁⟩
  cases r with
  | error e =>
    rw [run_bind_error hm] at h
    cases h
  | ok a =>
    rw [run_bind_ok hm] at h
    exact ⟨a, s₁, rfl, h⟩

end

theorem of_except_bind_ok {ε α β : Type} {x : Except ε α} {f : α → Except ε β} {b : β}
    (h : (x >>= f) = .ok b) : ∃ a, x = .ok a ∧ f a = .ok b := by
  cases x with
  | error e => cases h
  | ok a => exact ⟨a, rfl, h⟩

end Readout

namespace Readout.Host

variable {σ α β : Type}

/-! ## Composition -/

theorem bind_apply (m : Host σ α) (f : α → Host σ β) (j : Journal σ) :
    (m >>= f) j = match m j with
      | (.ok a, j') => f a j'
      | (.error e, j') => (.error e, j') := by
  have hbind : (m >>= f) j = ExceptT.bindCont f (m j).1 (m j).2 := rfl
  rw [hbind]
  rcases m j with ⟨r, j'⟩
  cases r <;> rfl

theorem bind_ok {m : Host σ α} {f : α → Host σ β} {a : α} {j j' : Journal σ}
    (h : m j = (.ok a, j')) : (m >>= f) j = f a j' := by
  rw [bind_apply, h]

theorem bind_error {m : Host σ α} {f : α → Host σ β} {e : Stop} {j j' : Journal σ}
    (h : m j = (.error e, j')) : (m >>= f) j = (.error e, j') := by
  rw [bind_apply, h]

/-- A composed run that went well went well in both of its parts. -/
theorem of_bind_ok {m : Host σ α} {f : α → Host σ β} {b : β} {j j' : Journal σ}
    (h : (m >>= f) j = (.ok b, j')) : ∃ a j₁, m j = (.ok a, j₁) ∧ f a j₁ = (.ok b, j') := by
  rcases hm : m j with ⟨r, j₁⟩
  rw [bind_apply, hm] at h
  cases r with
  | error e => cases h
  | ok a => exact ⟨a, j₁, rfl, h⟩

@[simp] theorem pure_apply (a : α) (j : Journal σ) : (pure a : Host σ α) j = (.ok a, j) := rfl

@[simp] theorem ofExcept_ok (a : α) : (ofExcept (.ok a) : Host σ α) = pure a := rfl

@[simp] theorem note_apply (e : Event) (j : Journal σ) :
    (note e : Host σ Unit) j = (.ok (), ⟨j.link, j.events.push e⟩) := rfl

/-! ## Calls on the link -/

variable [Link σ]

@[simp] theorem now_apply (j : Journal σ) : (now : Host σ Nat) j = (.ok (Link.now j.link), j) := rfl

theorem send_apply (port : Port) (data : Bytes) (j : Journal σ) :
    send port data j = match Link.send port data j.link with
      | (.done n, link) => (.ok n, ⟨link, j.events.push (.sent port data (.ok n))⟩)
      | (.failed cause, link) =>
        (.error (.error (.ofLink cause)), ⟨link, j.events.push (.sent port data (.error cause))⟩)
      | (.never, link) => (.error .never, ⟨link, j.events⟩) := by
  have hcall : call (Link.send port data) j =
      (.ok (Link.send port data j.link).1, ⟨(Link.send port data j.link).2, j.events⟩) := rfl
  unfold send
  rw [bind_ok hcall]
  rcases Link.send port data j.link with ⟨r, link⟩
  cases r <;> rfl

theorem tryReceive_apply (port : Port) (limit : Option Duration) (j : Journal σ) :
    tryReceive port limit j = match Link.receive port limit j.link with
      | (.done data, link) =>
        (.ok (.ok (data.take maxDatagram)),
          ⟨link, j.events.push (.received port limit (.ok (data.take maxDatagram)))⟩)
      | (.failed cause, link) =>
        (.ok (.error cause), ⟨link, j.events.push (.received port limit (.error cause))⟩)
      | (.never, link) => (.error .never, ⟨link, j.events⟩) := by
  have hcall : call (Link.receive port limit) j =
      (.ok (Link.receive port limit j.link).1, ⟨(Link.receive port limit j.link).2, j.events⟩) :=
    rfl
  unfold tryReceive
  rw [bind_ok hcall]
  rcases Link.receive port limit j.link with ⟨r, link⟩
  cases r <;> rfl

theorem receive_apply (port : Port) (limit : Option Duration) (j : Journal σ) :
    receive port limit j = match Link.receive port limit j.link with
      | (.done data, link) =>
        (.ok (data.take maxDatagram),
          ⟨link, j.events.push (.received port limit (.ok (data.take maxDatagram)))⟩)
      | (.failed cause, link) =>
        (.error (.error (.ofLink cause)),
          ⟨link, j.events.push (.received port limit (.error cause))⟩)
      | (.never, link) => (.error .never, ⟨link, j.events⟩) := by
  unfold receive
  rw [bind_apply, tryReceive_apply]
  rcases Link.receive port limit j.link with ⟨r, link⟩
  cases r <;> rfl

theorem receive_ok {port : Port} {limit : Option Duration} {j j' : Journal σ} {data : Bytes}
    (h : tryReceive port limit j = (.ok (.ok data), j')) :
    receive port limit j = (.ok data, j') := by
  rw [receive, bind_ok h]
  rfl

end Readout.Host

namespace Readout.Exchange

/-! ## Waits -/

variable {σ : Type} [Link σ]

theorem awaitDone_apply (limit : Option Duration) (j : Journal σ) :
    awaitDone limit j =
      awaitFrom (limit.filter (· ≠ 0)) (Link.now j.link) (Link.patience j.link) j := rfl

/-- A round of waiting that does not bring the marker ends the wait, or is followed by the next. -/
theorem awaitFrom_lost (limit : Option Duration) {start patience : Nat}
    {j j' : Journal σ} {r : Except LinkError Bytes}
    (hrun : Host.tryReceive commandPort (limit.map slice) j = (.ok r, j'))
    (hlost : r = .error .timeout ∨ ∃ d, r = .ok d ∧ Command.containsDone (Word.decode d) = false) :
    awaitFrom limit start (patience + 1) j =
      (if isOver limit start (Link.now j'.link) then Host.fail .timeout
        else awaitFrom limit start patience : Host σ Unit) j' := by
  rw [awaitFrom, Host.bind_ok hrun]
  obtain rfl | ⟨d, rfl, hd⟩ := hlost
  · exact Host.bind_ok (Host.now_apply j')
  · simp only [hd, Bool.false_eq_true, if_false]
    exact Host.bind_ok (Host.now_apply j')

end Readout.Exchange
