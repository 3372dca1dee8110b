import Mathlib.Logic.Function.Iterate
import Mathlib.Order.Monotone.Basic
import Readout.Proofs.Bench.Arrivals
import Readout.Proofs.Capture.Lifetime
/-!
# Captures while the host does something else

While the host sleeps, sends or receives, datagrams arrive at its captures.  No capture comes or
ends by that, and no count becomes less.

* `Bench.Collects` says so of two benches, `advance_collects` of all that is due up to a deadline,
  `send_collects` and `receive_collects` of the calls on the link, and `Host.Collects` of a run;
* `Bench.pass` is the bench after a sleep that the horizon does not cut short (`sleep_eq`), which
  ends at the end of a granule of the timer (`onGrid_pass`);
* `Bench.afterSeconds` is the bench after so many sleeps of a second: on a bench whose clock stands at
  the end of a granule it is ahead by as many seconds (`clock_afterSeconds`), and the count of a
  capture never goes back (`monotone_countAfter`).
-/

namespace Readout

namespace Bench

open Capture

/-- The captures may have taken datagrams; none has come or ended. -/
structure Collects (b b' : Bench) : Prop where
  evolves : b.captures.Evolves b'.captures
  valid : ∀ id, b'.captures.isValid id = b.captures.isValid id

variable {b b' b'' : Bench}

theorem Collects.of_eq (h : b'.captures = b.captures) : Collects b b' where
  evolves := h ▸ .refl b.captures
  valid := fun id => by rw [h]

theorem Collects.refl (b : Bench) : Collects b b := .of_eq rfl

theorem Collects.trans (h : Collects b b') (h' : Collects b' b'') : Collects b b'' where
  evolves := h.evolves.trans h'.evolves
  valid := fun id => (h'.valid id).trans (h.valid id)

/-! ## Datagrams that arrive -/

theorem arrive_collects (b : Bench) (port : Port) (data : Bytes) :
    Collects b (b.arrive port data) := by
  unfold arrive
  cases b.captures.idOn? port with
  | none => exact .refl b
  | some id =>
    exact ⟨b.captures.evolves_take id data b.files, b.captures.isValid_take id b.files data⟩

theorem arriveAll_collects (b : Bench) (port : Port) (datagrams : List Bytes) :
    Collects b (b.arriveAll port datagrams) := by
  unfold arriveAll
  induction datagrams generalizing b with
  | nil => exact .refl b
  | cons data rest ih => exact (arrive_collects b port data).trans (ih (b.arrive port data))

theorem deliver_collects (b : Bench) (d : Delivery) : Collects b (b.deliver d) := by
  cases d with
  | fromBoard port data => exact .of_eq rfl
  | stream port datagrams =>
    simp only [deliver]
    split
    · exact arriveAll_collects b port datagrams
    · exact .refl b

theorem reach_collects (b : Bench) (d : Due) (rest : List Due) : Collects b (b.reach d rest) := by
  have hclock : Collects b { b with clock := max b.clock d.time, schedule := rest } := .of_eq rfl
  exact hclock.trans (deliver_collects _ d.delivery)

/-- Up to a deadline captures only take datagrams, if what the host waits for is none of their
concern. -/
theorem advance_collects {α : Type} {ready : Bench → Option (α × Bench)}
    (hready : ∀ b a b', ready b = some (a, b') → b'.captures = b.captures) (deadline : Nat)
    (due : List Due) (b : Bench) : Collects b (advance ready deadline due b).2 := by
  induction due generalizing b with
  | nil => exact .of_eq rfl
  | cons d rest ih =>
    by_cases hin : d.time ≤ deadline
    · have hfirst := reach_collects b d rest
      cases hnext : ready (b.reach d rest) with
      | none =>
        rw [advance_next hin hnext]
        exact hfirst.trans (ih (b.reach d rest))
      | some found =>
        rw [advance_ready hin hnext]
        exact hfirst.trans (.of_eq (hready _ _ _ hnext))
    · rw [advance, if_pos (Nat.lt_of_not_le hin)]
      exact .of_eq rfl

/-! ## Calls on the link -/

theorem echo_collects (b : Bench) (port : Port) (data : Bytes) : Collects b (b.echo port data) := by
  have hsend : ∀ (b : Bench) (e : Echo), Collects b (b.sendStream e.port e.datagrams) := by
    intro b e
    unfold sendStream
    split
    · exact .of_eq rfl
    · exact arriveAll_collects b e.port e.datagrams
  unfold echo
  split
  · generalize b.echoes = echoes
    induction echoes generalizing b with
    | nil => exact .refl b
    | cons e rest ih =>
      rw [List.foldl_cons]
      split
      · exact (hsend b e).trans (ih (b.sendStream e.port e.datagrams))
      · exact ih b
  · exact .refl b

theorem send_collects (b : Bench) (port : Port) (data : Bytes) :
    Collects b (Link.send port data b).2 := by
  show Collects b (sendCall port data b).2
  unfold sendCall
  have hfirst : Collects b { b with sendFailure := (Failure.step b.sendFailure).2 } := .of_eq rfl
  dsimp only
  split
  · exact hfirst
  · exact hfirst
  · exact hfirst.trans ((echo_collects _ port data).trans (.of_eq rfl))

theorem popOn_captures {port : Port} {data : Bytes} (h : popOn port b = some (data, b')) :
    b'.captures = b.captures := by
  obtain ⟨⟨_, board⟩, -, hpop⟩ := Option.map_eq_some_iff.1 h
  cases hpop
  rfl

theorem wait_collects (b : Bench) (port : Port) (limit : Option Duration) :
    Collects b (b.wait limit (popOn port)).2 := by
  obtain ⟨data, hpop⟩ | ⟨deadline, hadvance⟩ := wait_after b limit (popOn port)
  · exact .of_eq (popOn_captures hpop)
  · rw [hadvance]
    exact advance_collects (fun _ _ _ => popOn_captures) deadline b.schedule b

theorem receive_collects (b : Bench) (port : Port) (limit : Option Duration) :
    Collects b (Link.receive port limit b).2 := by
  show Collects b (receiveCall port limit b).2
  unfold receiveCall
  have hfirst : Collects b { b with receiveFailure := (Failure.step b.receiveFailure).2 } :=
    .of_eq rfl
  dsimp only
  split
  · exact hfirst
  · exact hfirst.trans (wait_collects _ port limit)

end Bench

/-! ## Runs of the host -/

namespace Host

variable {α β : Type}

/-- A run leaves the captures to what arrives. -/
def Collects (m : Host Bench α) : Prop := ∀ j : Journal Bench, j.link.Collects (m j).2.link

theorem Collects.pure (a : α) : Collects (Pure.pure a : Host Bench α) := fun j => .refl j.link

theorem Collects.ofExcept (r : Except Error α) : Collects (ofExcept r : Host Bench α) := by
  cases r <;> exact fun j => .refl j.link

theorem Collects.bind {m : Host Bench α} {f : α → Host Bench β} (hm : Collects m)
    (hf : ∀ a, Collects (f a)) : Collects (m >>= f) := by
  intro j
  have hfirst := hm j
  rcases h : m j with ⟨r, j₁⟩
  rw [h] at hfirst
  cases r with
  | error e =>
    rw [bind_error h]
    exact hfirst
  | ok a =>
    rw [bind_ok h]
    exact hfirst.trans (hf a j₁)

theorem send_collects (port : Port) (data : Bytes) : Collects (send port data) := by
  intro j
  have hcall := j.link.send_collects port data
  rw [send_apply]
  rcases hlink : Link.send port data j.link with ⟨reply, b⟩
  rw [hlink] at hcall
  cases reply <;> exact hcall

theorem receive_collects (port : Port) (limit : Option Duration) :
    Collects (receive port limit) := by
  intro j
  have hcall := j.link.receive_collects port limit
  rw [receive_apply]
  rcases hlink : Link.receive port limit j.link with ⟨reply, b⟩
  rw [hlink] at hcall
  cases reply <;> exact hcall

theorem compileTime_collects (limit : Option Duration) :
    Collects (Exchange.compileTime limit) := by
  refine .bind (.bind (.ofExcept _) fun data => send_collects commandPort data) fun _ => ?_
  refine .bind (.bind (receive_collects commandPort limit) fun data => .pure _) fun _ => ?_
  exact .ofExcept _

end Host

namespace Bench

/-! ## Sleeping -/

/-- A sleep waits for nothing. -/
def asleep (_ : Bench) : Option (Unit × Bench) := none

/-- The bench after a sleep for some time, if the horizon does not come before. -/
def pass (time : Duration) (b : Bench) : Bench :=
  (advance asleep (b.timer.fires (b.clock + time)) b.schedule b).2

theorem advance_asleep (deadline : Nat) (due : List Due) (b : Bench) :
    (advance asleep deadline due b).1 = none ∧
      (advance asleep deadline due b).2.clock = max b.clock deadline ∧
      (advance asleep deadline due b).2.horizon = b.horizon ∧
      (advance asleep deadline due b).2.timer = b.timer := by
  induction due generalizing b with
  | nil => exact ⟨rfl, rfl, rfl, rfl⟩
  | cons d rest ih =>
    by_cases hin : d.time ≤ deadline
    · obtain ⟨hclock, -, hhorizon, htimer, -⟩ := b.reach_setting d rest
      obtain ⟨hnone, hclock', hhorizon', htimer'⟩ := ih (b.reach d rest)
      rw [advance_next hin rfl]
      refine ⟨hnone, ?_, hhorizon'.trans hhorizon, htimer'.trans htimer⟩
      rw [hclock', hclock, Nat.max_assoc, Nat.max_eq_right hin]
    · rw [advance, if_pos (Nat.lt_of_not_le hin)]
      exact ⟨rfl, rfl, rfl, rfl⟩

theorem wait_asleep (b : Bench) (limit : Option Duration) :
    b.wait limit asleep = (if (b.alarm? limit).isSome then .failed .timeout else .never,
      (advance asleep ((b.alarm? limit).getD b.horizon) b.schedule b).2) := by
  rw [wait_eq rfl, (advance_asleep _ b.schedule b).1]
  rfl

/-- A sleep ends when its timer fires, unless that was set beyond the horizon. -/
theorem sleep_eq (b : Bench) (time : Duration) :
    (b.clock + time ≤ b.horizon → b.sleep time = (.done (), b.pass time)) ∧
      (b.horizon < b.clock + time → ∃ b', b.sleep time = (.never, b')) := by
  have hasleep : (fun _ => none : Bench → Option (Unit × Bench)) = asleep := rfl
  rw [sleep, hasleep, wait_asleep]
  constructor
  · intro hin
    rw [alarm?_within hin]
    rfl
  · intro hout
    rw [alarm?_beyond hout]
    exact ⟨_, rfl⟩

theorem clock_pass (b : Bench) (time : Duration) :
    (b.pass time).clock = b.timer.fires (b.clock + time) := by
  obtain ⟨-, hclock, -⟩ := advance_asleep (b.timer.fires (b.clock + time)) b.schedule b
  exact hclock.trans (Nat.max_eq_right
    (Nat.le_trans (Nat.le_add_right _ _) (b.timer.le_fires _)))

theorem horizon_pass (b : Bench) (time : Duration) : (b.pass time).horizon = b.horizon :=
  (advance_asleep (b.timer.fires (b.clock + time)) b.schedule b).2.2.1

theorem timer_pass (b : Bench) (time : Duration) : (b.pass time).timer = b.timer :=
  (advance_asleep (b.timer.fires (b.clock + time)) b.schedule b).2.2.2

/-- The clock stands at the end of a granule of the timer. -/
def OnGrid (b : Bench) : Prop := b.timer.granule ∣ b.clock

/-- A host that slept wakes up at the end of a granule. -/
theorem onGrid_pass (b : Bench) (time : Duration) : (b.pass time).OnGrid := by
  rw [OnGrid, timer_pass, clock_pass]
  exact b.timer.granule_dvd_fires _

theorem pass_collects (b : Bench) (time : Duration) : Collects b (b.pass time) :=
  advance_collects (fun _ _ _ h => by cases h) _ _ _

/-! ## Sleeping a second at a time -/

/-- The bench after so many sleeps of a second. -/
def afterSeconds (b : Bench) (k : Nat) : Bench := (pass (Duration.seconds 1))^[k] b

theorem afterSeconds_succ (b : Bench) (k : Nat) :
    b.afterSeconds (k + 1) = (b.afterSeconds k).pass (Duration.seconds 1) :=
  Function.iterate_succ_apply' _ k b

theorem timer_afterSeconds (b : Bench) (k : Nat) : (b.afterSeconds k).timer = b.timer := by
  induction k with
  | zero => rfl
  | succ k ih => rw [afterSeconds_succ, timer_pass, ih]

theorem seconds_succ (k : Nat) : Duration.seconds (k + 1) = Duration.seconds k + Duration.seconds 1 :=
  Nat.add_mul k 1 _

/-- A second is so many granules, so that it ends on time. -/
theorem clock_afterSeconds {b : Bench} (hb : b.OnGrid) (k : Nat) :
    (b.afterSeconds k).clock = b.clock + Duration.seconds k := by
  induction k with
  | zero => rfl
  | succ k ih =>
    rw [afterSeconds_succ, clock_pass, timer_afterSeconds, ih, Nat.add_assoc, ← seconds_succ]
    exact Timer.fires_of_dvd (Nat.dvd_add hb (b.timer.granule_dvd_seconds _))

/-- The next second ends when so many seconds have passed. -/
theorem clock_add_second {b : Bench} (hb : b.OnGrid) (k : Nat) :
    (b.afterSeconds k).clock + Duration.seconds 1 = b.clock + Duration.seconds (k + 1) := by
  rw [clock_afterSeconds hb, Nat.add_assoc, ← seconds_succ]

theorem horizon_afterSeconds (b : Bench) (k : Nat) : (b.afterSeconds k).horizon = b.horizon := by
  induction k with
  | zero => rfl
  | succ k ih => rw [afterSeconds_succ, horizon_pass, ih]

theorem afterSeconds_collects (b : Bench) (k : Nat) : Collects b (b.afterSeconds k) := by
  induction k with
  | zero => exact .refl b
  | succ k ih =>
    rw [afterSeconds_succ]
    exact ih.trans (pass_collects _ _)

/-- The words that a capture has received after so many seconds. -/
def countAfter (b : Bench) (id k : Nat) : Nat := ((b.afterSeconds k).captures.words? id).getD 0

theorem monotone_countAfter {b : Bench} {id : Nat} (h : b.captures.isValid id = true) :
    Monotone (b.countAfter id) := by
  refine monotone_nat_of_le_succ fun k => ?_
  have hlater := afterSeconds_collects b k
  have hvalid := (hlater.valid id).trans h
  obtain ⟨n, hn⟩ := Option.isSome_iff_exists.1
    (((b.afterSeconds k).captures.words?_isSome_iff id).2 (Capture.Table.lt_size_of_isValid hvalid))
  obtain ⟨n', hn', hle⟩ :=
    (pass_collects (b.afterSeconds k) (Duration.seconds 1)).evolves.words id n hn
  rw [countAfter, countAfter, afterSeconds_succ, hn, hn']
  exact hle

end Bench

end Readout
