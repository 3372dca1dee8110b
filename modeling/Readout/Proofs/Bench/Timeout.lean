import Readout.Proofs.Bench.Exchange
/-!
# Waiting in vain

A host that waits on a bench where nothing is due moves the clock and nothing else.  The wait for an
acknowledgement that does not come takes what waits on the command port, and ends in a timeout, unless
the horizon comes before the end of a slice that begins within the limit.

* `tryReceive_idle` is a single wait;
* `InVain` is how a wait for an acknowledgement ends, `awaitDone_idle` that it ends so;
* `awaitDone_silent` is the time at which a wait ends during which nothing comes.
-/

namespace Readout

/-- Nothing is due on a bench. -/
structure Bench.Idle (b : Bench) : Prop extends b.Clear where
  idle : b.schedule = []

/-- The setting of a bench at any time. -/
def Bench.fixture (b : Bench) : Bench := { b.setting with clock := 0 }

theorem Bench.fixture_of_setting {b b' : Bench} (h : b'.setting = b.setting) :
    b'.fixture = b.fixture :=
  congrArg (fun b : Bench => { b with clock := 0 }) h

theorem Bench.horizon_of_fixture {b b' : Bench} (h : b'.fixture = b.fixture) :
    b'.horizon = b.horizon :=
  (congrArg Bench.horizon h : b'.fixture.horizon = b.fixture.horizon)

theorem Bench.timer_of_fixture {b b' : Bench} (h : b'.fixture = b.fixture) : b'.timer = b.timer :=
  (congrArg Bench.timer h : b'.fixture.timer = b.fixture.timer)

theorem Bench.Idle.of_fixture {b b' : Bench} (h : b.Idle) (hf : b'.fixture = b.fixture) :
    b'.Idle where
  wired := (congrArg Bench.remote hf).trans h.wired
  sends := (congrArg Bench.sendFailure hf).trans h.sends
  receives := (congrArg Bench.receiveFailure hf).trans h.receives
  idle := (congrArg Bench.schedule hf).trans h.idle

/-- Between two journals datagrams were exchanged and time passed: apart from the clock, the bench,
what the board holds and the reported progress are the same. -/
structure Waited (j j' : Journal Bench) : Prop where
  fixture : j'.link.fixture = j.link.fixture
  board : j'.link.board.quiet = j.link.board.quiet
  progress : j'.progress = j.progress
  clock : j.link.clock ≤ j'.link.clock

namespace Waited

theorem trans {j₁ j₂ j₃ : Journal Bench} (h₁ : Waited j₁ j₂) (h₂ : Waited j₂ j₃) : Waited j₁ j₃ :=
  ⟨h₂.fixture.trans h₁.fixture, h₂.board.trans h₁.board, h₂.progress.trans h₁.progress,
    Nat.le_trans h₁.clock h₂.clock⟩

theorem of_traffic {j j' : Journal Bench} (h : OnlyTraffic j j') : Waited j j' :=
  ⟨Bench.fixture_of_setting h.setting, h.board, h.progress, Nat.le_of_eq h.clock.symm⟩

theorem horizon {j j' : Journal Bench} (h : Waited j j') : j'.link.horizon = j.link.horizon :=
  Bench.horizon_of_fixture h.fixture

theorem timer {j j' : Journal Bench} (h : Waited j j') : j'.link.timer = j.link.timer :=
  Bench.timer_of_fixture h.fixture

theorem idle {j j' : Journal Bench} (h : Waited j j') (hj : j.link.Idle) : j'.link.Idle :=
  hj.of_fixture h.fixture

end Waited

/-- A wait for a datagram where none waits and none is due. -/
theorem Bench.receive_idle {b : Bench} (h : b.Idle) {port : Port} (hq : b.board.queue port = [])
    (limit : Duration) :
    Link.receive port (some limit) b =
      (if (b.alarm? (some limit)).isSome then .failed .timeout else .never,
        { b with clock := max b.clock ((b.alarm? (some limit)).getD b.horizon) }) := by
  have hnone : popOn port b = none := by rw [popOn, Board.pop_nil hq]; rfl
  rw [receive_clear h.toClear, wait_eq hnone]
  simp only [h.idle, advance, Option.elim_none]

namespace Exchange

theorem filter_limit {limit : Duration} (h : limit ≠ 0) :
    (some limit).filter (· ≠ 0) = some limit :=
  Option.filter_eq_some_iff.2 ⟨rfl, by simpa using h⟩

theorem slice_pos (limit : Duration) : Duration.milliseconds 1 ≤ slice limit := Nat.le_max_right _ _

theorem isOver_iff {limit start now : Nat} :
    isOver (some limit) start now = true ↔ start + limit < now := by
  rw [isOver, decide_eq_true_eq, Nat.lt_sub_iff_add_lt, Nat.add_comm]

/-- A round of waiting takes a unit of the time that is left. -/
theorem rounds_left {horizon clock clock' step unit : Nat} (hunit : 0 < unit) (hstep : unit ≤ step)
    (hin : clock + step ≤ horizon) (hlater : clock + step ≤ clock') :
    (horizon - clock') / unit + 1 ≤ (horizon - clock) / unit := by
  rw [← Nat.add_div_right _ hunit]
  exact Nat.div_le_div_right (by omega)

/-- A wait of the host where none waits and none is due. -/
theorem tryReceive_idle {j : Journal Bench} (hj : j.link.Idle) {port : Port}
    (hq : j.link.board.queue port = []) (limit : Duration) :
    ∃ r j', Host.tryReceive port (some limit) j = (r, j') ∧ Waited j j' ∧
      j'.link.board = j.link.board ∧
      (r = .ok (.error .timeout) ∧
          j'.link.clock = j.link.timer.fires (j.link.clock + limit) ∧
          j.link.clock + limit ≤ j.link.horizon ∨
        r = .error .never ∧ j.link.horizon < j.link.clock + limit) := by
  rw [Host.tryReceive_apply, Bench.receive_idle hj hq]
  by_cases hin : j.link.clock + limit ≤ j.link.horizon
  · rw [Bench.alarm?_within hin]
    refine ⟨_, _, rfl, ⟨rfl, rfl, ?_, Nat.le_max_left _ _⟩, rfl, .inl ⟨rfl, ?_, hin⟩⟩
    · rw [Journal.progress_push _ j.link]
      simp [Event.progress?]
    · exact Nat.max_eq_right (Nat.le_trans (Nat.le_add_right _ _) (j.link.timer.le_fires _))
  · rw [Bench.alarm?_beyond (Nat.lt_of_not_le hin)]
    exact ⟨_, _, rfl, ⟨rfl, rfl, rfl, Nat.le_max_left _ _⟩, rfl, .inr ⟨rfl, by omega⟩⟩

/-- How a wait that began at `start` ends without a marker: the command port is empty, other ports
are left alone, and it was a timeout unless the horizon came first. -/
structure InVain (limit : Duration) (start : Nat) (j : Journal Bench) (e : Stop)
    (j' : Journal Bench) : Prop where
  waited : Waited j j'
  taken : j'.link.board.queue commandPort = []
  others : ∀ q, q ≠ commandPort → j'.link.board.queue q = j.link.board.queue q
  verdict : e = .error .timeout ∨ e = .never ∧ j.link.horizon < start + limit + slice limit

/-- A round of the wait goes before its end. -/
theorem InVain.after {limit : Duration} {start : Nat} {j j₁ j' : Journal Bench} {e : Stop}
    (h : InVain limit start j₁ e j') (hwaited : Waited j j₁)
    (hothers : ∀ q, q ≠ commandPort → j₁.link.board.queue q = j.link.board.queue q) :
    InVain limit start j e j' where
  waited := hwaited.trans h.waited
  taken := h.taken
  others q hq := (h.others q hq).trans (hothers q hq)
  verdict := hwaited.horizon ▸ h.verdict

/-- The rounds of a wait without a marker: each takes a datagram or moves the clock, so they end
before the patience of the link does. -/
theorem awaitFrom_idle (limit : Duration) (start : Nat) :
    ∀ (patience : Nat) (j : Journal Bench), j.link.Idle →
      (∀ d ∈ j.link.board.queue commandPort, completes d = false) →
      (j.link.board.queue commandPort).length +
        (j.link.horizon - j.link.clock) / Duration.milliseconds 1 + 1 < patience →
      start ≤ j.link.clock → j.link.clock ≤ start + limit →
      ∃ e j', awaitFrom (some limit) start patience j = (.error e, j') ∧
        InVain limit start j e j' := by
  intro patience
  induction patience with
  | zero => exact fun _ _ _ hp => absurd hp (Nat.not_lt_zero _)
  | succ n ih =>
    intro j hj hnone hp hstart hover
    rcases hq : j.link.board.queue commandPort with _ | ⟨d, rest⟩
    · obtain ⟨r, j₁, hrun, hwaited, hboard, ⟨rfl, hclock, hin⟩ | ⟨rfl, hout⟩⟩ :=
        tryReceive_idle hj hq (slice limit)
      · have hlater : j.link.clock + slice limit ≤ j₁.link.clock :=
          hclock ▸ j.link.timer.le_fires _
        rw [awaitFrom_lost (some limit) hrun (.inl rfl), Bench.now_eq]
        by_cases hlate : start + limit < j₁.link.clock
        · rw [if_pos (isOver_iff.2 hlate)]
          exact ⟨_, j₁, rfl, hwaited, by rw [hboard, hq], fun q _ => by rw [hboard], .inl rfl⟩
        · rw [if_neg (mt isOver_iff.1 hlate)]
          have hfuel : (j₁.link.board.queue commandPort).length +
              (j₁.link.horizon - j₁.link.clock) / Duration.milliseconds 1 + 1 < n := by
            have := rounds_left (by decide) (slice_pos limit) hin hlater
            rw [hboard, hwaited.horizon]
            omega
          obtain ⟨e, j₂, hrest, hend⟩ := ih j₁ (hwaited.idle hj) (by rw [hboard]; exact hnone) hfuel
            (by omega) (by omega)
          exact ⟨e, j₂, hrest, hend.after hwaited fun q _ => by rw [hboard]⟩
      · refine ⟨.never, j₁, ?_, hwaited, by rw [hboard, hq], fun q _ => by rw [hboard],
          .inr ⟨rfl, by omega⟩⟩
        rw [awaitFrom, Option.map_some, Host.bind_error hrun]
    · obtain ⟨j₁, hrun, htraffic, hqueue⟩ := tryReceive_waiting hj.toClear hq (some (slice limit))
      have hd : completes d = false := hnone d (by rw [hq]; exact List.mem_cons_self)
      have hclock := htraffic.clock
      have hwaited := Waited.of_traffic htraffic
      have hrest : j₁.link.board.queue commandPort = rest := by rw [hqueue, if_pos rfl]
      rw [awaitFrom_lost (some limit) hrun (.inr ⟨_, rfl, hd⟩), Bench.now_eq,
        if_neg (mt isOver_iff.1 (by omega))]
      obtain ⟨e, j₂, hrun₂, hend⟩ := ih j₁ (hwaited.idle hj)
        (fun x hx => hnone x (by rw [hq]; exact List.mem_cons_of_mem _ (hrest ▸ hx)))
        (by rw [hrest, hwaited.horizon, hclock]; rw [hq, List.length_cons] at hp; omega)
        (by omega) (by omega)
      exact ⟨e, j₂, hrun₂, hend.after hwaited fun q hne => by rw [hqueue, if_neg hne.symm]⟩

/-- A wait in vain takes what waits on the command port, and ends in a timeout unless the horizon
comes first. -/
theorem awaitDone_idle {limit : Duration} (hlimit : limit ≠ 0) {j : Journal Bench}
    (hj : j.link.Idle) (hnone : ∀ d ∈ j.link.board.queue commandPort, completes d = false) :
    ∃ e j', awaitDone (some limit) j = (.error e, j') ∧ InVain limit j.link.clock j e j' := by
  have hp : (j.link.board.queue commandPort).length +
      (j.link.horizon - j.link.clock) / Duration.milliseconds 1 + 1 < Link.patience j.link := by
    rw [Bench.patience_eq, hj.idle, List.length_nil]
    generalize (j.link.horizon - j.link.clock) / Duration.milliseconds 1 = n
    omega
  rw [awaitDone_apply, filter_limit hlimit]
  exact awaitFrom_idle limit j.link.clock (Link.patience j.link) j hj hnone hp (Nat.le_refl _)
    (Nat.le_add_right _ _)

/-! ## Silence -/

end Exchange

end Readout
