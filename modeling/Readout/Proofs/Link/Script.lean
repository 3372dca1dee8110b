import Readout.Proofs.Link.Added
/-!
# Runs that follow a script

A script says what a host sends, in order, and which answer it waits for before it sends on.  A run
follows its script when it sends nothing else, and when what it sends next comes after the answer to
what it sent before.  The link may do whatever it likes.

* `Turn` is a step of a script, `Plays` says that events follow a script, to its end or not;
* `Follows` says so of a run; a composed run follows the scripts of its parts one after the other;
* `Plays.sent_eq_take`, `Plays.answered` read off what was sent, and what came between.
-/

namespace Readout

/-- The datagram that an event sends, whatever becomes of it. -/
def Event.sent? : Event → Option (Port × Bytes)
  | sent port data _ => some (port, data)
  | _ => none

/-- What a host waits for before it sends on. -/
inductive Awaited
  /-- A datagram with the marker, on the command port. -/
  | marker
  /-- A datagram with these words, on the firmware port. -/
  | words (ws : List Word)
  | nothing

/-- Events in which the answer is received. -/
def Awaited.In (events : List Event) : Awaited → Prop
  | marker => ∃ limit data, Event.received commandPort limit (.ok data) ∈ events ∧
      Command.containsDone (Word.decode data) = true
  | words ws => ∃ limit data, Event.received firmwarePort limit (.ok data) ∈ events ∧
      Word.decode data = ws
  | nothing => True

/-- A step of a script: a datagram, and the answer to it. -/
structure Turn where
  port : Port
  data : Bytes
  awaits : Awaited

def Turn.datagram (t : Turn) : Port × Bytes := (t.port, t.data)

/-- Nothing is sent. -/
def Silent (events : List Event) : Prop := ∀ e ∈ events, e.sent? = none

/-- Events that follow a script: to its end, when every answer came, or up to some point. -/
inductive Plays : List Turn → Bool → List Event → Prop
  | ended : Plays [] true []
  | stopped (script : List Turn) : Plays script false []
  | aside {script : List Turn} {whole : Bool} {e : Event} {events : List Event}
      (he : e.sent? = none) (h : Plays script whole events) : Plays script whole (e :: events)
  | cut {t : Turn} {script : List Turn} {r : Except LinkError Nat} {wait : List Event}
      (hwait : Silent wait) : Plays (t :: script) false (.sent t.port t.data r :: wait)
  | turn {t : Turn} {script : List Turn} {whole : Bool} {n : Nat} {wait events : List Event}
      (hwait : Silent wait) (hanswer : t.awaits.In wait) (h : Plays script whole events) :
      Plays (t :: script) whole (.sent t.port t.data (.ok n) :: (wait ++ events))

namespace Plays

variable {script script' : List Turn} {whole : Bool} {events events' : List Event}

/-- A script that was played to its end goes on with another one. -/
theorem append (h : Plays script true events) (h' : Plays script' whole events') :
    Plays (script ++ script') whole (events ++ events') := by
  generalize htrue : true = all at h
  induction h with
  | ended => exact h'
  | stopped => cases htrue
  | aside he _ ih => exact .aside he (ih htrue)
  | cut => cases htrue
  | turn hwait hanswer _ ih =>
    rw [List.cons_append, List.cons_append, List.append_assoc]
    exact .turn hwait hanswer (ih htrue)

/-- A script that was not played to its end may be the beginning of a longer one. -/
theorem extend (h : Plays script false events) (script' : List Turn) :
    Plays (script ++ script') false events := by
  generalize hfalse : false = all at h
  induction h with
  | ended => cases hfalse
  | stopped => exact hfalse ▸ .stopped _
  | aside he _ ih => exact .aside he (ih hfalse)
  | cut hwait => exact .cut hwait
  | turn hwait hanswer _ ih => exact .turn hwait hanswer (ih hfalse)

theorem silent (h : Silent events) : Plays [] true events := by
  induction events with
  | nil => exact .ended
  | cons e rest ih =>
    exact .aside (h e List.mem_cons_self) (ih fun x hx => h x (List.mem_cons_of_mem _ hx))

end Plays

/-! ## Runs -/

variable {σ α β : Type}

/-- A run follows a script, to its end exactly if it has a value. -/
def Follows (m : Host σ α) (script : List Turn) : Prop :=
  ∀ j, ∃ new, (m j).2.events.toList = j.events.toList ++ new ∧
    Plays script (m j).1.isOk new

namespace Follows

theorem pure (a : α) : Follows (Pure.pure a : Host σ α) [] :=
  fun _ => ⟨[], (List.append_nil _).symm, .ended⟩

theorem fail (e : Error) (script : List Turn) : Follows (Host.fail e : Host σ α) script :=
  fun _ => ⟨[], (List.append_nil _).symm, .stopped script⟩

theorem note {e : Event} (he : e.sent? = none) : Follows (Host.note e : Host σ Unit) [] :=
  fun _ => ⟨[e], Array.toList_push, .aside he .ended⟩

/-- A composed run follows the scripts of its parts one after the other. -/
theorem bind {m : Host σ α} {f : α → Host σ β} {script script' : List Turn}
    (hm : Follows m script) (hf : ∀ a, Follows (f a) script') :
    Follows (m >>= f) (script ++ script') := by
  intro j
  obtain ⟨new, hnew, hplays⟩ := hm j
  rcases h : m j with ⟨r, j₁⟩
  rw [h] at hnew hplays
  cases r with
  | error e =>
    rw [Host.bind_error h]
    exact ⟨new, hnew, hplays.extend script'⟩
  | ok a =>
    obtain ⟨rest, hrest, hplays'⟩ := hf a j₁
    rw [Host.bind_ok h]
    exact ⟨new ++ rest, by rw [hrest, hnew, List.append_assoc], hplays.append hplays'⟩

/-- What comes before a script sends nothing. -/
theorem of_check {script : List Turn} (r : Except Error β) {f : β → Host σ α}
    (hf : ∀ b, r = .ok b → Follows (f b) script) :
    Follows (Host.ofExcept r >>= f) script := by
  cases r with
  | ok b => exact hf b rfl
  | error e => exact Follows.fail e script

end Follows

/-! ## Exchanges -/

theorem Awaited.In.mono {events events' : List Event} {a : Awaited} (h : a.In events)
    (hsub : ∀ e ∈ events, e ∈ events') : a.In events' := by
  cases a with
  | marker =>
    obtain ⟨limit, data, hmem, hdata⟩ := h
    exact ⟨limit, data, hsub _ hmem, hdata⟩
  | words ws =>
    obtain ⟨limit, data, hmem, hdata⟩ := h
    exact ⟨limit, data, hsub _ hmem, hdata⟩
  | nothing => trivial

/-- A run that waits for an answer: it sends nothing, and it ends well only with the answer. -/
def Waits (a : Awaited) (m : Host σ α) : Prop :=
  ∀ j, ∃ new, (m j).2.events.toList = j.events.toList ++ new ∧ Silent new ∧
    ((m j).1.isOk = true → a.In new)

section
variable [Link σ] {limit : Option Duration}

theorem waits_awaitFrom (start patience : Nat) :
    Waits .marker (Exchange.awaitFrom limit start patience : Host σ Unit) := by
  intro j
  obtain ⟨new, hnew, hheard⟩ := adds_awaitFrom limit start patience j
  refine ⟨new, hnew, fun e he => ?_, hheard.marker⟩
  obtain ⟨limit', result, rfl⟩ := hheard.heard e he
  rfl

/-- A datagram and the wait for its answer. -/
theorem follows_ask {t : Turn} {f : Nat → Host σ α} (hf : ∀ n, Waits t.awaits (f n)) :
    Follows (Host.send t.port t.data >>= f) [t] := by
  intro j
  rw [Host.bind_apply, Host.send_apply]
  rcases Link.send t.port t.data j.link with ⟨r, link⟩
  cases r with
  | done n =>
    obtain ⟨wait, hnew, hsilent, hanswer⟩ :=
      hf n ⟨link, j.events.push (.sent t.port t.data (.ok n))⟩
    refine ⟨.sent t.port t.data (.ok n) :: wait, ?_, ?_⟩
    · show ((f n) _).2.events.toList = _
      rw [hnew, Array.toList_push, List.append_assoc]
      rfl
    · show Plays [t] ((f n) ⟨link, j.events.push (.sent t.port t.data (.ok n))⟩).1.isOk _
      cases hok : ((f n) ⟨link, j.events.push (.sent t.port t.data (.ok n))⟩).1.isOk with
      | true =>
        rw [← List.append_nil wait]
        exact .turn hsilent (hanswer hok) .ended
      | false => exact .cut hsilent
  | failed cause => exact ⟨[_], Array.toList_push, .cut fun _ h => (by cases h)⟩
  | never => exact ⟨[], (List.append_nil _).symm, .stopped _⟩

/-- A datagram that is not answered. -/
theorem follows_send (port : Port) (data : Bytes) :
    Follows (Host.send port data : Host σ Nat) [⟨port, data, .nothing⟩] := by
  have hask : Follows (Host.send port data >>= fun n => pure n : Host σ Nat) _ :=
    follows_ask (t := ⟨port, data, .nothing⟩) fun n _ =>
      ⟨[], (List.append_nil _).symm, fun _ h => (by cases h), fun _ => trivial⟩
  rwa [bind_pure] at hask

/-- A command and the wait for its acknowledgement. -/
theorem follows_execute {c : Command} {data : Bytes} (hframe : c.frame = .ok data) :
    Follows (Exchange.execute limit c : Host σ Unit) [⟨commandPort, data, .marker⟩] := by
  rw [Exchange.execute, Exchange.command, hframe]
  exact follows_ask (t := ⟨commandPort, data, .marker⟩) fun _ j => waits_awaitFrom _ _ j

end

/-! ## What was sent, and when -/

/-- The datagrams that events send. -/
def sentBy (events : List Event) : List (Port × Bytes) := events.filterMap Event.sent?

@[simp] theorem sentBy_sent (port : Port) (data : Bytes) (r : Except LinkError Nat)
    (events : List Event) : sentBy (.sent port data r :: events) = (port, data) :: sentBy events :=
  rfl

theorem sentBy_aside {e : Event} (he : e.sent? = none) (events : List Event) :
    sentBy (e :: events) = sentBy events := List.filterMap_cons_none he

@[simp] theorem sentBy_append (events events' : List Event) :
    sentBy (events ++ events') = sentBy events ++ sentBy events' := List.filterMap_append

theorem sentBy_silent {events : List Event} (h : Silent events) : sentBy events = [] :=
  List.filterMap_eq_nil_iff.2 h

/-- A datagram that was sent after the events `before` is the next one of a script, it went out, and
its answer is in `wait`. -/
def IsAnswered (script : List Turn) (before : List Event) (port : Port) (data : Bytes)
    (r : Except LinkError Nat) (wait : List Event) : Prop :=
  ∃ t, script[(sentBy before).length]? = some t ∧ t.datagram = (port, data) ∧ (∃ n, r = .ok n) ∧
    t.awaits.In wait

/-- What is sent follows a script: nothing else and nothing twice; between a datagram and the next
one comes the answer to it; and when the run has a value, everything was sent and answered. -/
structure InOrder (script : List Turn) (whole : Bool) (events : List Event) : Prop where
  sent : ∃ rest, script.map Turn.datagram = sentBy events ++ rest ∧ (whole = true → rest = [])
  answered : ∀ before port data r wait port' data' r' after,
    events = before ++ .sent port data r :: (wait ++ .sent port' data' r' :: after) → Silent wait →
      IsAnswered script before port data r wait
  last : whole = true → ∀ before port data r wait,
    events = before ++ .sent port data r :: wait → Silent wait →
      IsAnswered script before port data r wait

namespace Plays

variable {script : List Turn} {whole : Bool} {events : List Event}

/-- What was sent is the beginning of the script. -/
theorem sent_eq_take (h : Plays script whole events) :
    ∃ rest, script.map Turn.datagram = sentBy events ++ rest ∧ (whole = true → rest = []) := by
  induction h with
  | ended => exact ⟨[], rfl, fun _ => rfl⟩
  | stopped script => exact ⟨_, rfl, fun h => by cases h⟩
  | aside he _ ih =>
    rw [sentBy_aside he]
    exact ih
  | @cut t script r wait hwait =>
    refine ⟨script.map Turn.datagram, ?_, fun h => by cases h⟩
    rw [sentBy_sent, sentBy_silent hwait]
    rfl
  | @turn t script whole n wait events hwait _ _ ih =>
    obtain ⟨rest, hrest, hwhole⟩ := ih
    refine ⟨rest, ?_, hwhole⟩
    rw [sentBy_sent, sentBy_append, sentBy_silent hwait, List.map_cons, hrest]
    rfl

/-- Where something is sent, what came before without sending is over. -/
theorem split_silent {wait events before rest : List Event} {e : Event} (hwait : Silent wait)
    (he : e.sent? ≠ none) (heq : wait ++ events = before ++ e :: rest) :
    ∃ between, before = wait ++ between ∧ events = between ++ e :: rest := by
  obtain ⟨between, hbefore, hevents⟩ | ⟨late, hlate, hrest⟩ := List.append_eq_append_iff.1 heq
  · exact ⟨between, hbefore, hevents⟩
  · cases late with
    | nil => exact ⟨[], by rw [hlate, List.append_nil, List.append_nil], hrest.symm⟩
    | cons x late =>
      obtain ⟨rfl, -⟩ := List.cons.inj hrest
      exact absurd (hwait e (by simp [hlate])) he

/-- A datagram after which the host went on was answered. -/
theorem answered (h : Plays script whole events) :
    ∀ before port data r wait after,
      events = before ++ .sent port data r :: (wait ++ after) → Silent wait →
      (after = [] ∧ whole = true ∨ ∃ e rest, after = e :: rest ∧ e.sent? ≠ none) →
      IsAnswered script before port data r wait := by
  induction h with
  | ended | stopped =>
    intro before port data r wait after heq
    cases before <;> cases heq
  | aside he _ ih =>
    intro before port data r wait after heq hwait hafter
    cases before with
    | nil => cases heq; cases he
    | cons x before =>
      obtain ⟨rfl, htail⟩ := List.cons.inj heq
      obtain ⟨t, ht, hanswer⟩ := ih before port data r wait after htail hwait hafter
      exact ⟨t, by rwa [sentBy_aside he], hanswer⟩
  | @cut t script r₀ wait₀ hsilent =>
    intro before port data r wait after heq hwait hafter
    cases before with
    | nil =>
      obtain ⟨-, htail⟩ := List.cons.inj heq
      obtain ⟨-, hwhole⟩ | ⟨e, rest, rfl, he⟩ := hafter
      · cases hwhole
      · exact absurd (hsilent e (by simp [htail])) he
    | cons x before =>
      obtain ⟨-, htail⟩ := List.cons.inj heq
      cases hsilent (.sent port data r) (by simp [htail])
  | @turn t script whole n wait₀ events hsilent hanswer _ ih =>
    intro before port data r wait after heq hwait hafter
    cases before with
    | nil =>
      obtain ⟨hsent, htail⟩ := List.cons.inj heq
      cases hsent
      refine ⟨t, rfl, rfl, ⟨n, rfl⟩, hanswer.mono fun x hx => ?_⟩
      obtain ⟨rfl, -⟩ | ⟨e, rest, rfl, he⟩ := hafter
      · rw [List.append_nil] at htail
        exact htail ▸ List.mem_append_left _ hx
      · obtain ⟨between, rfl, -⟩ := split_silent hsilent he htail
        exact List.mem_append_left _ hx
    | cons x before =>
      obtain ⟨rfl, htail⟩ := List.cons.inj heq
      obtain ⟨between, rfl, hevents⟩ := split_silent hsilent (by exact Option.some_ne_none _) htail
      obtain ⟨t', ht', hanswer'⟩ := ih between port data r wait after hevents hwait hafter
      refine ⟨t', ?_, hanswer'⟩
      rw [sentBy_sent, sentBy_append, sentBy_silent hsilent, List.nil_append, List.length_cons,
        List.getElem?_cons_succ, ht']

theorem inOrder (h : Plays script whole events) : InOrder script whole events where
  sent := h.sent_eq_take
  answered before port data r wait port' data' r' after heq hwait :=
    h.answered before port data r wait _ heq hwait (.inr ⟨_, after, rfl, Option.some_ne_none _⟩)
  last hwhole before port data r wait heq hwait :=
    h.answered before port data r wait [] (by rwa [List.append_nil]) hwait (.inl ⟨rfl, hwhole⟩)

end Plays

end Readout
