import Readout.Proofs.Bench.Exchange
/-!
# Runs that go well

What a run of the host leaves on a bench if it goes well, whatever calls are set to fail, whatever is
due meanwhile, and however long the host waits: while it waits nothing happens to the board but
traffic.

* `Bench.Passes` is what happens to a bench while the host waits, `awaitDone_passes` that a wait for
  the marker is no more than that;
* `send_ok`, `receive_ok` are the two calls when they go well.
-/

namespace Readout

namespace Bench

/-- No page waits for the host, and none is due. -/
structure Unread (b : Bench) : Prop where
  pages : b.board.queue firmwarePort = []
  due : ∀ d ∈ b.schedule, ∀ data, d.delivery ≠ .fromBoard firmwarePort data

/-- What happens to a bench while the host waits on a port: the board holds what it held, and no
page comes unless one was due. -/
structure Passes (port : Port) (b b' : Bench) : Prop where
  remote : b'.remote = b.remote
  board : b'.board.quiet = b.board.quiet
  unread : port ≠ firmwarePort → b.Unread → b'.Unread

namespace Passes

variable {port : Port} {b b' b₁ b₂ b₃ : Bench}

theorem refl (b : Bench) : Passes port b b := ⟨rfl, rfl, fun _ h => h⟩

theorem trans (h₁ : Passes port b₁ b₂) (h₂ : Passes port b₂ b₃) : Passes port b₁ b₃ where
  remote := h₂.remote.trans h₁.remote
  board := h₂.board.trans h₁.board
  unread hport h := h₂.unread hport (h₁.unread hport h)

end Passes

/-! ## Waiting -/

theorem popOn_passes {port : Port} {b b' : Bench} {data : Bytes}
    (h : popOn port b = some (data, b')) : Passes port b b' := by
  cases hq : b.board.queue port with
  | nil =>
    rw [popOn, Board.pop_nil hq] at h
    cases h
  | cons first rest =>
    rw [popOn, Board.pop_cons hq] at h
    cases h
    refine ⟨rfl, rfl, fun hport hb => ⟨?_, hb.due⟩⟩
    rw [Board.queue_setQueue, if_neg hport]
    exact hb.pages

/-- What is delivered goes to the captures of the host or to the queues of the board. -/
theorem deliver_frame (b : Bench) (d : Delivery) :
    (b.deliver d).remote = b.remote ∧ (b.deliver d).schedule = b.schedule ∧
      (b.deliver d).board.quiet = b.board.quiet ∧
      ((∀ data, d ≠ .fromBoard firmwarePort data) →
        (b.deliver d).board.queue firmwarePort = b.board.queue firmwarePort) := by
  cases d with
  | fromBoard port data =>
    refine ⟨rfl, rfl, rfl, fun h => ?_⟩
    have hport : port ≠ firmwarePort := by
      rintro rfl
      exact h data rfl
    rw [deliver, Board.queue_push, if_neg hport]
  | stream port datagrams =>
    obtain ⟨hset, hboard⟩ := arriveAll_frame b port datagrams
    simp only [deliver]
    split
    · refine ⟨(congrArg Bench.remote hset :), (congrArg Bench.schedule hset :), ?_, fun _ => ?_⟩ <;>
        rw [hboard]
    · exact ⟨rfl, rfl, rfl, fun _ => rfl⟩

/-- The time until a datagram comes, and the deliveries of that time. -/
theorem advance_passes (port : Port) (deadline : Nat) (due : List Due) :
    ∀ (b : Bench), b.schedule = due → Passes port b (advance (popOn port) deadline due b).2 := by
  induction due with
  | nil => intro b _; exact ⟨rfl, rfl, fun _ h => ⟨h.pages, h.due⟩⟩
  | cons d rest ih =>
    intro b hb
    rw [advance]
    split
    · exact ⟨rfl, rfl, fun _ h => ⟨h.pages, h.due⟩⟩
    · obtain ⟨hremote, hschedule, hquiet, hpages⟩ :=
        deliver_frame { b with clock := max b.clock d.time, schedule := rest } d.delivery
      have hfirst : Passes port b
          (deliver { b with clock := max b.clock d.time, schedule := rest } d.delivery) := by
        refine ⟨hremote, hquiet, fun _ h => ⟨?_, fun x hx => ?_⟩⟩
        · rw [hpages (h.due d (by rw [hb]; exact List.mem_cons_self))]
          exact h.pages
        · rw [hschedule] at hx
          exact h.due x (by rw [hb]; exact List.mem_cons_of_mem _ hx)
      dsimp only
      split
      · rename_i hpop
        exact hfirst.trans (popOn_passes hpop)
      · exact hfirst.trans (ih _ hschedule)

theorem wait_passes (b : Bench) (port : Port) (limit : Option Duration) :
    Passes port b (b.wait limit (popOn port)).2 := by
  obtain ⟨data, hpop⟩ | ⟨deadline, hadvance⟩ := wait_after b limit (popOn port)
  · exact popOn_passes hpop
  · rw [hadvance]
    exact advance_passes port deadline b.schedule b rfl

theorem receive_passes (b : Bench) (port : Port) (limit : Option Duration) :
    Passes port b (Link.receive port limit b).2 := by
  show Passes port b (receiveCall port limit b).2
  unfold receiveCall
  have hfirst : Passes port b { b with receiveFailure := (Failure.step b.receiveFailure).2 } :=
    ⟨rfl, rfl, fun _ h => ⟨h.pages, h.due⟩⟩
  dsimp only
  split
  · exact hfirst
  · exact hfirst.trans (wait_passes _ port limit)

/-- A datagram that was sent reached the board. -/
theorem send_done {b b' : Bench} (hwired : b.remote = false) {port : Port} {data : Bytes} {n : Nat}
    (h : Link.send port data b = (.done n, b')) :
    b'.remote = false ∧ b'.schedule = b.schedule ∧ b'.board = b.board.send port data := by
  change sendCall port data b = _ at h
  unfold sendCall at h
  have hcarry : ({ b with sendFailure := (Failure.step b.sendFailure).2 } : Bench).carry data =
      .ok data.length := by
    rw [carry, if_neg]
    simp [hwired]
  dsimp only at h
  rw [hcarry] at h
  obtain ⟨hset, hboard⟩ :=
    echo_frame { b with sendFailure := (Failure.step b.sendFailure).2 } port data
  split at h
  · cases h
  · rename_i heq
    cases heq
  · cases h
    exact ⟨(congrArg Bench.remote hset).trans hwired, (congrArg Bench.schedule hset :),
      congrArg (Board.send · port data) hboard⟩

/-- A datagram that was received while one waited is that one. -/
theorem receive_done {b b' : Bench} {port : Port} {limit : Option Duration} {data d : Bytes}
    {rest : List Bytes} (hq : b.board.queue port = d :: rest)
    (h : Link.receive port limit b = (.done data, b')) :
    data = d ∧ b'.schedule = b.schedule ∧
      b'.board = { b.board with queues := b.board.queues.insert port rest } := by
  change receiveCall port limit b = _ at h
  unfold receiveCall at h
  dsimp only at h
  split at h
  · cases h
  · simp only [wait, popOn, Board.pop_cons hq, Option.map_some] at h
    cases h
    exact ⟨rfl, rfl, rfl⟩

end Bench

namespace Exchange

/-! ## Runs -/

theorem tryReceive_passes {j j' : Journal Bench} {port : Port} {limit : Option Duration}
    {r : Except Stop (Except LinkError Bytes)} (h : Host.tryReceive port limit j = (r, j')) :
    Bench.Passes port j.link j'.link := by
  have hpasses := Bench.receive_passes j.link port limit
  rw [Host.tryReceive_apply] at h
  rcases hlink : Link.receive port limit j.link with ⟨reply, b⟩
  rw [hlink] at h hpasses
  cases reply <;> cases h <;> exact hpasses

theorem receive_passes {j j' : Journal Bench} {port : Port} {limit : Option Duration}
    {r : Except Stop Bytes} (h : Host.receive port limit j = (r, j')) :
    Bench.Passes port j.link j'.link := by
  have hpasses := Bench.receive_passes j.link port limit
  rw [Host.receive_apply] at h
  rcases hlink : Link.receive port limit j.link with ⟨reply, b⟩
  rw [hlink] at h hpasses
  cases reply <;> cases h <;> exact hpasses

/-- What was received while a datagram waited is that datagram, and it does not wait any more. -/
theorem receive_ok {j j' : Journal Bench} {port : Port} {limit : Option Duration} {data d : Bytes}
    {rest : List Bytes} (hq : j.link.board.queue port = d :: rest)
    (h : Host.receive port limit j = (.ok data, j')) :
    data = d.take maxDatagram ∧ j'.link.schedule = j.link.schedule ∧
      j'.link.board.queue port = rest := by
  rw [Host.receive_apply] at h
  rcases hlink : Link.receive port limit j.link with ⟨reply, b⟩
  rw [hlink] at h
  cases reply with
  | failed cause => cases h
  | never => cases h
  | done first =>
    cases h
    obtain ⟨rfl, hschedule, hboard⟩ := Bench.receive_done hq hlink
    refine ⟨rfl, hschedule, ?_⟩
    show b.board.queue port = rest
    rw [hboard, Board.queue_setQueue, if_pos rfl]

/-- The rounds of a wait for the marker. -/
theorem awaitFrom_passes (limit : Option Duration) (start patience : Nat) :
    ∀ {j j' : Journal Bench} {r : Except Stop Unit}, awaitFrom limit start patience j = (r, j') →
      Bench.Passes commandPort j.link j'.link := by
  induction patience with
  | zero =>
    intro j j' r h
    cases h
    exact Bench.Passes.refl j.link
  | succ patience ih =>
    intro j j' r h
    rcases hrun : Host.tryReceive commandPort (limit.map slice) j with ⟨received, j₁⟩
    have hfirst := tryReceive_passes hrun
    rw [awaitFrom] at h
    cases received with
    | error e =>
      rw [Host.bind_error hrun] at h
      cases h
      exact hfirst
    | ok reply =>
      rw [Host.bind_ok hrun] at h
      have hnext : ∀ {r : Except Stop Unit},
          (if isOver limit start (Link.now j₁.link) then Host.fail .timeout
            else awaitFrom limit start patience : Host Bench Unit) j₁ = (r, j') →
          Bench.Passes commandPort j.link j'.link := by
        intro r h
        split at h
        · cases h
          exact hfirst
        · exact hfirst.trans (ih h)
      rcases reply with cause | data
      · cases cause with
        | timeout => exact hnext h
        | transport m => cases h; exact hfirst
        | io e => cases h; exact hfirst
      · dsimp only at h
        split at h
        · cases h
          exact hfirst
        · exact hnext h

/-- While the host waits for the marker nothing happens but traffic. -/
theorem awaitDone_passes {limit : Option Duration} {j j' : Journal Bench} {r : Except Stop Unit}
    (h : awaitDone limit j = (r, j')) : Bench.Passes commandPort j.link j'.link := by
  rw [awaitDone_apply] at h
  exact awaitFrom_passes _ _ _ h

/-- A datagram that was sent reached the board. -/
theorem send_ok {j j' : Journal Bench} (hwired : j.link.remote = false) {port : Port} {data : Bytes}
    {n : Nat} (h : Host.send port data j = (.ok n, j')) :
    j'.link.remote = false ∧ j'.link.schedule = j.link.schedule ∧
      j'.link.board = j.link.board.send port data := by
  rw [Host.send_apply] at h
  rcases hlink : Link.send port data j.link with ⟨reply, b⟩
  rw [hlink] at h
  cases reply <;> cases h
  exact Bench.send_done hwired hlink

end Exchange

end Readout
