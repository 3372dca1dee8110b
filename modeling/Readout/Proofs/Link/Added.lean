import Readout.Link.Exchange
import Readout.Proofs.Link.Runs
/-!
# What a run adds to its history

Whatever a link does, a run adds events to the history of the host, and how it ends goes with what
it added.  What holds of the parts of a run in this way holds of the whole.

* `Adds` says so of every run of a computation, and `Adds.bind` composes;
* `Sending` and `Receiving` are the calls on the link;
* `Only`: the events are of one kind, and the run fails only as the link does; `only_send` and
  `only_receive` are the calls;
* `adds_awaitFrom` is the wait for the marker, `only_execute` the exchange of a command.
-/

namespace Readout

variable {σ α β : Type}

/-- A run from any journal adds events that go with its outcome. -/
def Adds (m : Host σ α) (P : Except Stop α → List Event → Prop) : Prop :=
  ∀ j, ∃ new, (m j).2.events.toList = j.events.toList ++ new ∧ P (m j).1 new

namespace Adds

theorem mono {m : Host σ α} {P Q : Except Stop α → List Event → Prop} (h : Adds m P)
    (hPQ : ∀ r es, P r es → Q r es) : Adds m Q := by
  intro j
  obtain ⟨new, hnew, hP⟩ := h j
  exact ⟨new, hnew, hPQ _ _ hP⟩

theorem pure {P : Except Stop α → List Event → Prop} {a : α} (h : P (.ok a) []) :
    Adds (Pure.pure a : Host σ α) P :=
  fun _ => ⟨[], (List.append_nil _).symm, h⟩

theorem fail {P : Except Stop α → List Event → Prop} {e : Error} (h : P (.error (.error e)) []) :
    Adds (Host.fail e : Host σ α) P :=
  fun _ => ⟨[], (List.append_nil _).symm, h⟩

theorem note {P : Except Stop Unit → List Event → Prop} {e : Event} (h : P (.ok ()) [e]) :
    Adds (Host.note e : Host σ Unit) P :=
  fun _ => ⟨[e], Array.toList_push, h⟩

/-- A composed run adds what its first part adds, and after that, if it went well, what the second
part adds. -/
theorem bind {m : Host σ α} {f : α → Host σ β} {P : Except Stop α → List Event → Prop}
    {Q : α → Except Stop β → List Event → Prop} {R : Except Stop β → List Event → Prop}
    (hm : Adds m P) (hf : ∀ a, Adds (f a) (Q a))
    (hok : ∀ a r es es', P (.ok a) es → Q a r es' → R r (es ++ es'))
    (herror : ∀ e es, P (.error e) es → R (.error e) es) : Adds (m >>= f) R := by
  intro j
  obtain ⟨new, hnew, hP⟩ := hm j
  rcases h : m j with ⟨r, j₁⟩
  rw [h] at hnew hP
  cases r with
  | error e =>
    rw [Host.bind_error h]
    exact ⟨new, hnew, herror e new hP⟩
  | ok a =>
    obtain ⟨rest, hrest, hQ⟩ := hf a j₁
    rw [Host.bind_ok h]
    exact ⟨new ++ rest, by rw [hrest, hnew, List.append_assoc], hok a _ new rest hP hQ⟩

/-- A run whose value is turned into another one. -/
theorem map {m : Host σ α} {P : Except Stop α → List Event → Prop} (h : Adds m P) (f : α → β) :
    Adds (m >>= fun a => Pure.pure (f a)) fun r es => ∃ r', r = r'.map f ∧ P r' es := by
  apply bind (Q := fun a r es => r = .ok (f a) ∧ es = []) h
  · intro a
    exact pure ⟨rfl, rfl⟩
  · rintro a r es es' hP ⟨rfl, rfl⟩
    exact ⟨.ok a, rfl, by rwa [List.append_nil]⟩
  · intro e es hP
    exact ⟨.error e, rfl, hP⟩

end Adds

/-! ## Calls -/

/-- How sending a datagram ends, and what it adds. -/
inductive Sending (port : Port) (data : Bytes) : Except Stop Nat → List Event → Prop
  | done (n : Nat) : Sending port data (.ok n) [.sent port data (.ok n)]
  | failed (cause : LinkError) :
    Sending port data (.error (.error (.ofLink cause))) [.sent port data (.error cause)]
  | never : Sending port data (.error .never) []

/-- How a wait for a datagram ends, and what it adds; a failure of the link is a result of its
own. -/
inductive Trying (port : Port) (limit : Option Duration) :
    Except Stop (Except LinkError Bytes) → List Event → Prop
  | done (result : Except LinkError Bytes) :
    Trying port limit (.ok result) [.received port limit result]
  | never : Trying port limit (.error .never) []

/-- How receiving a datagram ends, and what it adds. -/
inductive Receiving (port : Port) (limit : Option Duration) :
    Except Stop Bytes → List Event → Prop
  | done (data : Bytes) : Receiving port limit (.ok data) [.received port limit (.ok data)]
  | failed (cause : LinkError) :
    Receiving port limit (.error (.error (.ofLink cause))) [.received port limit (.error cause)]
  | never : Receiving port limit (.error .never) []

section
variable [Link σ]

theorem adds_send (port : Port) (data : Bytes) :
    Adds (Host.send port data : Host σ Nat) (Sending port data) := by
  intro j
  rw [Host.send_apply]
  rcases Link.send port data j.link with ⟨r, link⟩
  cases r with
  | done n => exact ⟨[_], Array.toList_push, .done n⟩
  | failed cause => exact ⟨[_], Array.toList_push, .failed cause⟩
  | never => exact ⟨[], (List.append_nil _).symm, .never⟩

theorem adds_tryReceive (port : Port) (limit : Option Duration) :
    Adds (Host.tryReceive port limit : Host σ (Except LinkError Bytes)) (Trying port limit) := by
  intro j
  rw [Host.tryReceive_apply]
  rcases Link.receive port limit j.link with ⟨r, link⟩
  cases r with
  | done data => exact ⟨[_], Array.toList_push, .done (.ok _)⟩
  | failed cause => exact ⟨[_], Array.toList_push, .done (.error cause)⟩
  | never => exact ⟨[], (List.append_nil _).symm, .never⟩

theorem adds_receive (port : Port) (limit : Option Duration) :
    Adds (Host.receive port limit : Host σ Bytes) (Receiving port limit) := by
  intro j
  rw [Host.receive_apply]
  rcases Link.receive port limit j.link with ⟨r, link⟩
  cases r with
  | done data => exact ⟨[_], Array.toList_push, .done _⟩
  | failed cause => exact ⟨[_], Array.toList_push, .failed cause⟩
  | never => exact ⟨[], (List.append_nil _).symm, .never⟩

end

/-! ## Failures of the link -/

/-- An outcome that is a value, a failure of the link, or no end at all: nothing was refused. -/
def OfLink : Except Stop α → Prop
  | .error (.error e) => ∃ cause, e = .ofLink cause
  | _ => True

@[simp] theorem OfLink.value (a : α) : OfLink (.ok a : Except Stop α) := trivial

@[simp] theorem OfLink.refused (cause : LinkError) :
    OfLink (.error (.error (.ofLink cause)) : Except Stop α) := ⟨cause, rfl⟩

@[simp] theorem OfLink.never : OfLink (.error .never : Except Stop α) := trivial

/-- How a run fails does not depend on the value that it would have had. -/
theorem OfLink.of_error {e : Stop} (h : OfLink (.error e : Except Stop α)) :
    OfLink (.error e : Except Stop β) := by
  cases e with
  | error e => exact h
  | never => trivial

/-- A run adds events of one kind only, and it fails only as the link does. -/
def Only (P : Event → Prop) (m : Host σ α) : Prop :=
  Adds m fun r es => (∀ e ∈ es, P e) ∧ OfLink r

namespace Only

variable {P : Event → Prop}

theorem pure (a : α) : Only P (Pure.pure a : Host σ α) :=
  Adds.pure (by simp)

theorem note {e : Event} (he : P e) : Only P (Host.note e : Host σ Unit) :=
  Adds.note (by simpa using he)

theorem mono {Q : Event → Prop} {m : Host σ α} (h : Only P m) (hPQ : ∀ e, P e → Q e) : Only Q m :=
  Adds.mono h fun _ _ hr => ⟨fun e he => hPQ e (hr.1 e he), hr.2⟩

theorem bind {m : Host σ α} {f : α → Host σ β} (hm : Only P m) (hf : ∀ a, Only P (f a)) :
    Only P (m >>= f) := by
  apply Adds.bind hm hf
  · intro a r es es' h h'
    exact ⟨List.forall_mem_append.2 ⟨h.1, h'.1⟩, h'.2⟩
  · intro e es h
    exact ⟨h.1, h.2.of_error⟩

theorem ite {p : Prop} [Decidable p] {m m' : Host σ α} (hm : Only P m) (hm' : Only P m') :
    Only P (if p then m else m') := by
  split
  · exact hm
  · exact hm'

end Only

section
variable [Link σ]

theorem only_send (port : Port) (data : Bytes) :
    Only (fun e => ∃ result, e = .sent port data result) (Host.send port data : Host σ Nat) := by
  apply Adds.mono (adds_send port data)
  intro r es h
  cases h <;> simp

theorem only_receive (port : Port) (limit : Option Duration) :
    Only (fun e => ∃ result, e = .received port limit result)
      (Host.receive port limit : Host σ Bytes) := by
  apply Adds.mono (adds_receive port limit)
  intro r es h
  cases h <;> simp

end

/-! ## Exchanges -/

/-- How a wait for the marker ends, and what it adds. -/
structure Hearing (r : Except Stop Unit) (es : List Event) : Prop where
  heard : ∀ e ∈ es, ∃ limit result, e = .received commandPort limit result
  ends : OfLink r
  marker : r.isOk = true → ∃ limit data, Event.received commandPort limit (.ok data) ∈ es ∧
    Command.containsDone (Word.decode data) = true

/-- What was received before the rest of a wait. -/
theorem Hearing.cons {r : Except Stop Unit} {es : List Event} (h : Hearing r es)
    (limit : Option Duration) (result : Except LinkError Bytes) :
    Hearing r (.received commandPort limit result :: es) where
  heard := List.forall_mem_cons.2 ⟨⟨limit, result, rfl⟩, h.heard⟩
  ends := h.ends
  marker hr := by
    obtain ⟨limit', data, hmem, hdone⟩ := h.marker hr
    exact ⟨limit', data, List.mem_cons_of_mem _ hmem, hdone⟩

/-- A wait that failed before anything was received. -/
theorem Hearing.of_error {e : Stop} (he : OfLink (.error e : Except Stop Unit)) :
    Hearing (.error e) [] where
  heard _ h := by cases h
  ends := he
  marker h := by cases h

section
variable [Link σ] {limit : Option Duration}

/-- The wait for the marker receives on the command port until the marker has come. -/
theorem adds_awaitFrom (limit : Option Duration) (start patience : Nat) :
    Adds (Exchange.awaitFrom limit start patience : Host σ Unit) Hearing := by
  induction patience with
  | zero =>
    intro j
    exact ⟨[], (List.append_nil _).symm, .of_error OfLink.never⟩
  | succ n ih =>
    have hround : Adds (Host.now >>= fun t => if Exchange.isOver limit start t then
        Host.fail .timeout else Exchange.awaitFrom limit start n : Host σ Unit) Hearing := by
      intro j
      rw [Host.bind_ok (Host.now_apply j)]
      split
      · exact Adds.fail (.of_error (OfLink.refused .timeout)) j
      · exact ih j
    rw [Exchange.awaitFrom]
    apply Adds.bind (Q := fun result r es => Hearing r
      (.received commandPort (limit.map Exchange.slice) result :: es))
      (adds_tryReceive commandPort (limit.map Exchange.slice))
    · -- what the rest of the wait does comes after what was received
      intro result
      cases result with
      | ok data =>
        by_cases hdone : Command.containsDone (Word.decode data) = true
        · simp only [hdone, if_true]
          apply Adds.pure
          constructor
          · simp
          · simp
          · intro _
            exact ⟨_, data, List.mem_singleton.2 rfl, hdone⟩
        · simp only [hdone, Bool.false_eq_true, if_false]
          exact hround.mono fun _ _ h => h.cons _ _
      | error cause =>
        have hrefused := (Hearing.of_error (OfLink.refused cause)).cons
          (limit.map Exchange.slice) (.error cause)
        cases cause with
        | timeout => exact hround.mono fun _ _ h => h.cons _ _
        | transport m => exact Adds.fail hrefused
        | io cause => exact Adds.fail hrefused
    · rintro result r es es' ⟨⟩ hrest
      exact hrest
    · rintro e es ⟨⟩
      exact .of_error OfLink.never

/-- An event of the exchange of a command: its datagram is sent, or something is received on the
command port. -/
inductive Event.OfExchange (data : Bytes) : Event → Prop
  | sent (result : Except LinkError Nat) : OfExchange data (.sent commandPort data result)
  | received (limit : Option Duration) (result : Except LinkError Bytes) :
    OfExchange data (.received commandPort limit result)

/-- The exchange of a command. -/
theorem only_execute {c : Command} {data : Bytes} (hframe : c.frame = .ok data) :
    Only (Event.OfExchange data) (Exchange.execute limit c : Host σ Unit) := by
  rw [Exchange.execute, Exchange.command, hframe]
  have hwait : Only (Event.OfExchange data) (Exchange.awaitDone limit : Host σ Unit) := fun j => by
    obtain ⟨new, hnew, hheard⟩ := adds_awaitFrom (limit.filter (· ≠ 0))
      (Link.now j.link) (Link.patience j.link) j
    refine ⟨new, hnew, fun e he => ?_, hheard.ends⟩
    obtain ⟨limit', result, rfl⟩ := hheard.heard e he
    exact .received limit' result
  have hsend : Only (Event.OfExchange data) (Host.send commandPort data : Host σ Nat) := by
    apply (only_send commandPort data).mono
    rintro e ⟨result, rfl⟩
    exact .sent result
  exact Only.bind hsend fun _ => hwait

end

end Readout
