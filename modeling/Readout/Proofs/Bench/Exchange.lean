import Readout.Bench.Basic
import Readout.Link.Exchange
import Readout.Proofs.Board.Traffic
import Readout.Proofs.Link.Runs
/-!
# Exchanges on the bench

On a bench on which no call is set to fail, a datagram of the host reaches the board at once, and
what waits for the host is taken at once.  An acknowledgement that waits is found without any time
passing, whatever datagrams wait before it.

* `Bench.setting` is a bench without what a call may change besides the clock;
* `send_wired`, `receive_waiting` are the two calls;
* `awaitDone_waiting`: the wait for the marker takes the datagrams up to the first one with a
  marker.
-/

namespace Readout

namespace Bench

/-- A bench without its board and without the captures of the host. -/
def setting (b : Bench) : Bench :=
  { b with board := {}, captures := {}, files := {}, undelivered := none }

/-- No call is set to fail, and the board is wired to the host. -/
structure Clear (b : Bench) : Prop where
  wired : b.remote = false
  sends : b.sendFailure = none
  receives : b.receiveFailure = none

theorem Clear.of_setting {b b' : Bench} (h : b.Clear) (hs : b'.setting = b.setting) : b'.Clear where
  wired := (congrArg Bench.remote hs).trans h.wired
  sends := (congrArg Bench.sendFailure hs).trans h.sends
  receives := (congrArg Bench.receiveFailure hs).trans h.receives

theorem clock_of_setting {b b' : Bench} (h : b'.setting = b.setting) : b'.clock = b.clock :=
  (congrArg Bench.clock h : b'.setting.clock = b.setting.clock)

/-! ## Sending -/

/-- Streams go to the captures of the host only. -/
theorem arrive_frame (b : Bench) (port : Port) (data : Bytes) :
    (b.arrive port data).setting = b.setting ∧ (b.arrive port data).board = b.board := by
  unfold arrive
  cases b.captures.idOn? port <;> exact ⟨rfl, rfl⟩

theorem arriveAll_frame (b : Bench) (port : Port) (datagrams : List Bytes) :
    (b.arriveAll port datagrams).setting = b.setting ∧
      (b.arriveAll port datagrams).board = b.board := by
  unfold arriveAll
  induction datagrams generalizing b with
  | nil => exact ⟨rfl, rfl⟩
  | cons data rest ih =>
    obtain ⟨hs, hb⟩ := ih (b.arrive port data)
    exact ⟨hs.trans (arrive_frame b port data).1, hb.trans (arrive_frame b port data).2⟩

theorem sendStream_frame (b : Bench) (port : Port) (datagrams : List Bytes) :
    (b.sendStream port datagrams).setting = b.setting ∧
      (b.sendStream port datagrams).board = b.board := by
  unfold sendStream
  cases b.network.refusal? datagrams with
  | some cause => exact ⟨rfl, rfl⟩
  | none => exact arriveAll_frame b port datagrams

theorem echo_frame (b : Bench) (port : Port) (data : Bytes) :
    (b.echo port data).setting = b.setting ∧ (b.echo port data).board = b.board := by
  unfold echo
  split
  · generalize b.echoes = echoes
    induction echoes generalizing b with
    | nil => exact ⟨rfl, rfl⟩
    | cons e rest ih =>
      rw [List.foldl_cons]
      split
      · obtain ⟨hs, hb⟩ := ih (b.sendStream e.port e.datagrams)
        obtain ⟨hs', hb'⟩ := sendStream_frame b e.port e.datagrams
        exact ⟨hs.trans hs', hb.trans hb'⟩
      · exact ih b
  · exact ⟨rfl, rfl⟩

/-- A datagram reaches the board at once, also if a later call to receive is set to fail. -/
theorem send_wired {b : Bench} (hwired : b.remote = false) (hsends : b.sendFailure = none)
    (port : Port) (data : Bytes) :
    ∃ b', Link.send port data b = (Reply.done data.length, b') ∧ b'.setting = b.setting ∧
      b'.board = b.board.send port data := by
  obtain ⟨hs, hb⟩ := echo_frame b port data
  refine ⟨{ b.echo port data with board := b.board.send port data }, ?_, hs, rfl⟩
  have hsame : { b with sendFailure := none } = b := by rw [← hsends]
  have hcarry : b.carry data = .ok data.length := by rw [carry, hwired]; rfl
  show sendCall port data b = _
  unfold sendCall
  simp only [hsends, Failure.step, hsame, hcarry, hb]

/-! ## Receiving -/

/-- A host that has not yet what it waits for waits until its timer fires. -/
theorem wait_eq {α : Type} {b : Bench} {ready : Bench → Option (α × Bench)} (h : ready b = none)
    (limit : Option Duration) :
    b.wait limit ready =
      ((advance ready ((b.alarm? limit).getD b.horizon) b.schedule b).1.elim
          (if (b.alarm? limit).isSome then .failed .timeout else .never) .done,
        (advance ready ((b.alarm? limit).getD b.horizon) b.schedule b).2) := by
  unfold wait
  rw [h]
  rcases advance ready ((b.alarm? limit).getD b.horizon) b.schedule b with ⟨_ | a, b'⟩ <;> rfl

/-- A wait ends where it begins, if the host has what it waits for, or else at a deadline. -/
theorem wait_after {α : Type} (b : Bench) (limit : Option Duration)
    (ready : Bench → Option (α × Bench)) :
    (∃ a, ready b = some (a, (b.wait limit ready).2)) ∨
      ∃ deadline, (b.wait limit ready).2 = (advance ready deadline b.schedule b).2 := by
  cases hready : ready b with
  | none => exact .inr ⟨_, congrArg Prod.snd (wait_eq hready limit)⟩
  | some found =>
    refine .inl ⟨found.1, ?_⟩
    unfold wait
    rw [hready]

theorem receive_eq_wait {b : Bench} (h : b.receiveFailure = none) (port : Port)
    (limit : Option Duration) : Link.receive port limit b = b.wait limit (popOn port) := by
  have hsame : { b with receiveFailure := none } = b := by rw [← h]
  show receiveCall port limit b = _
  unfold receiveCall
  simp only [h, Failure.step, hsame]

theorem receive_clear {b : Bench} (h : b.Clear) (port : Port) (limit : Option Duration) :
    Link.receive port limit b = b.wait limit (popOn port) :=
  receive_eq_wait h.receives port limit

/-- What waits for the host is taken at once. -/
theorem receive_waiting {b : Bench} (h : b.Clear) {port : Port} {data : Bytes}
    {rest : List Bytes} (hq : b.board.queue port = data :: rest) (limit : Option Duration) :
    Link.receive port limit b = (Reply.done data,
      { b with board := { b.board with queues := b.board.queues.insert port rest } }) := by
  rw [receive_clear h]
  unfold wait
  simp only [popOn, Board.pop_cons hq, Option.map_some]

end Bench

/-! ## What reaches the host -/

theorem Word.encode_take (ws : List Word) (n : Nat) :
    (Word.encode ws).take (4 * n) = Word.encode (ws.take n) := by
  induction ws generalizing n with
  | nil => simp [Word.encode]
  | cons w ws ih =>
    cases n with
    | zero => rfl
    | succ n =>
      show (Word.bytes w ++ Word.encode ws).take (4 * n + 4) =
        Word.bytes w ++ Word.encode (ws.take n)
      rw [← ih n, List.take_append, Word.length_bytes, Nat.add_sub_cancel,
        List.take_of_length_le (by rw [Word.length_bytes]; omega)]

/-- The words of a board's answer to a command that reach the host: what goes beyond the longest
datagram is cut. -/
def Board.reply (b : Board) (name : String) : List Word :=
  (b.answers.getD name [Command.doneMarker]).take (maxDatagram / 4)

theorem Board.decode_answer (b : Board) (name : String) :
    Word.decode ((Word.encode (b.answers.getD name [Command.doneMarker])).take maxDatagram) =
      b.reply name := by
  rw [show maxDatagram = 4 * (maxDatagram / 4) from rfl, Word.encode_take, Word.decode_encode]
  rfl

/-- The reports of progress, each the pages done and their total. -/
def Event.progress? : Event → Option (Nat × Nat)
  | progress done total => some (done, total)
  | _ => none

/-- What a host reported about its progress. -/
def Journal.progress {σ : Type} (j : Journal σ) : List (Nat × Nat) :=
  j.events.toList.filterMap Event.progress?

theorem Journal.progress_push {σ : Type} (link link' : σ) (events : Array Event) (e : Event) :
    Journal.progress ⟨link, events.push e⟩ =
      Journal.progress ⟨link', events⟩ ++ e.progress?.toList := by
  simp only [progress, Array.toList_push, List.filterMap_append, List.filterMap_cons,
    List.filterMap_nil]
  cases e.progress? <;> rfl

/-! ## Acknowledgements -/

/-- Between two journals only datagrams were exchanged: the bench, what the board holds and the
reported progress are the same. -/
structure OnlyTraffic (j j' : Journal Bench) : Prop where
  setting : j'.link.setting = j.link.setting
  board : j'.link.board.quiet = j.link.board.quiet
  progress : j'.progress = j.progress

theorem OnlyTraffic.trans {j₁ j₂ j₃ : Journal Bench} (h₁ : OnlyTraffic j₁ j₂)
    (h₂ : OnlyTraffic j₂ j₃) : OnlyTraffic j₁ j₃ :=
  ⟨h₂.setting.trans h₁.setting, h₂.board.trans h₁.board, h₂.progress.trans h₁.progress⟩

theorem OnlyTraffic.clock {j j' : Journal Bench} (h : OnlyTraffic j j') :
    j'.link.clock = j.link.clock := Bench.clock_of_setting h.setting

theorem Bench.now_eq (b : Bench) : Link.now b = b.clock := rfl

theorem Bench.patience_eq (b : Bench) :
    Link.patience b = (b.board.queue commandPort).length + b.schedule.length +
      (b.horizon - b.clock) / Duration.milliseconds 1 + 2 := rfl

namespace Exchange

/-- Whether a datagram holds the marker in the part that reaches the host. -/
def completes (data : Bytes) : Bool := Command.containsDone (Word.decode (data.take maxDatagram))

/-- A datagram of the host reaches the board. -/
theorem send_wired {j : Journal Bench} (hwired : j.link.remote = false)
    (hsends : j.link.sendFailure = none) (port : Port) (data : Bytes) :
    ∃ j', Host.send port data j = (.ok data.length, j') ∧ j'.link.setting = j.link.setting ∧
      j'.link.board = j.link.board.send port data ∧ j'.progress = j.progress := by
  obtain ⟨b, hsend, hset, hboard⟩ := Bench.send_wired hwired hsends port data
  refine ⟨⟨b, j.events.push (.sent port data (.ok data.length))⟩, ?_, hset, hboard, ?_⟩
  · rw [Host.send_apply, hsend]
  · rw [Journal.progress_push b j.link]
    simp [Event.progress?]

theorem send_clear {j : Journal Bench} (hj : j.link.Clear) (port : Port) (data : Bytes) :
    ∃ j', Host.send port data j = (.ok data.length, j') ∧ j'.link.setting = j.link.setting ∧
      j'.link.board = j.link.board.send port data ∧ j'.progress = j.progress :=
  send_wired hj.wired hj.sends port data

/-- A command reaches the board. -/
theorem command_wired {j : Journal Bench} (hwired : j.link.remote = false)
    (hsends : j.link.sendFailure = none) {c : Command} {data : Bytes}
    (hframe : c.frame = .ok data) :
    ∃ j', command c j = (.ok data.length, j') ∧ j'.link.setting = j.link.setting ∧
      j'.link.board = j.link.board.send commandPort data ∧ j'.progress = j.progress := by
  rw [command, hframe]
  exact send_wired hwired hsends commandPort data

theorem command_clear {j : Journal Bench} (hj : j.link.Clear) {c : Command} {data : Bytes}
    (hframe : c.frame = .ok data) :
    ∃ j', command c j = (.ok data.length, j') ∧ j'.link.setting = j.link.setting ∧
      j'.link.board = j.link.board.send commandPort data ∧ j'.progress = j.progress :=
  command_wired hj.wired hj.sends hframe

/-- What waits on a port is received at once. -/
theorem tryReceive_waiting {j : Journal Bench} (hj : j.link.Clear) {port : Port} {data : Bytes}
    {rest : List Bytes} (hq : j.link.board.queue port = data :: rest) (limit : Option Duration) :
    ∃ j', Host.tryReceive port limit j = (.ok (.ok (data.take maxDatagram)), j') ∧
      OnlyTraffic j j' ∧
      ∀ q, j'.link.board.queue q = if port = q then rest else j.link.board.queue q := by
  rw [Host.tryReceive_apply, Bench.receive_waiting hj hq]
  exact ⟨_, rfl, ⟨rfl, rfl, by rw [Journal.progress_push _ j.link]; simp [Event.progress?]⟩,
    fun q => Board.queue_setQueue j.link.board port q rest⟩

/-- The wait takes the datagrams up to the first one with the marker, and no time passes. -/
theorem awaitFrom_waiting (limit : Option Duration) (skipped : List Bytes) {data : Bytes}
    {rest : List Bytes} (hdata : completes data = true) :
    ∀ (patience : Nat) (j : Journal Bench), j.link.Clear →
      j.link.board.queue commandPort = skipped ++ data :: rest →
      (∀ d ∈ skipped, completes d = false) → skipped.length < patience →
      ∃ j', awaitFrom limit j.link.clock patience j = (.ok (), j') ∧ OnlyTraffic j j' ∧
        ∀ q, j'.link.board.queue q = if commandPort = q then rest else j.link.board.queue q := by
  induction skipped with
  | nil =>
    intro patience j hj hq _ hp
    obtain ⟨n, rfl⟩ : ∃ n, patience = n + 1 := ⟨patience - 1, by omega⟩
    obtain ⟨j', hrun, htraffic, hqueue⟩ := tryReceive_waiting hj hq (limit.map slice)
    refine ⟨j', ?_, htraffic, hqueue⟩
    rw [awaitFrom, Host.bind_ok hrun]
    simp only [completes] at hdata
    simp only [hdata, if_true, Host.pure_apply]
  | cons d skipped ih =>
    intro patience j hj hq hskip hp
    obtain ⟨n, rfl⟩ : ∃ n, patience = n + 1 := ⟨patience - 1, by omega⟩
    obtain ⟨j₁, hrun, htraffic, hqueue⟩ := tryReceive_waiting hj hq (limit.map slice)
    have hclock := htraffic.clock
    have hover : isOver limit j.link.clock j.link.clock = false := by
      cases limit <;> simp [isOver]
    obtain ⟨j₂, hrest, htraffic₂, hqueue₂⟩ := ih n j₁ (hj.of_setting htraffic.setting)
      (by rw [hqueue, if_pos rfl]; rfl) (fun x hx => hskip x (List.mem_cons_of_mem _ hx))
      (by simpa using hp)
    refine ⟨j₂, ?_, htraffic.trans htraffic₂, fun q => ?_⟩
    · have hd : completes d = false := hskip d List.mem_cons_self
      rw [awaitFrom_lost limit hrun (.inr ⟨_, rfl, hd⟩), Bench.now_eq, hclock, hover,
        if_neg (by simp), ← hclock]
      exact hrest
    · rw [hqueue₂, hqueue]
      split <;> rfl

/-- The first marker that waits ends the wait at once. -/
theorem awaitDone_first (limit : Option Duration) {j : Journal Bench} (hj : j.link.Clear)
    {skipped rest : List Bytes} {data : Bytes}
    (hq : j.link.board.queue commandPort = skipped ++ data :: rest)
    (hskip : ∀ d ∈ skipped, completes d = false) (hdata : completes data = true) :
    ∃ j', awaitDone limit j = (.ok (), j') ∧ OnlyTraffic j j' ∧
      ∀ q, j'.link.board.queue q = if commandPort = q then rest else j.link.board.queue q := by
  have hp : skipped.length < Link.patience j.link := by
    rw [Bench.patience_eq, hq, List.length_append, List.length_cons]
    generalize (j.link.horizon - j.link.clock) / Duration.milliseconds 1 = n
    omega
  rw [awaitDone_apply]
  exact awaitFrom_waiting (limit.filter (· ≠ 0)) skipped hdata (Link.patience j.link) j hj hq
    hskip hp

/-- A marker that waits ends the wait, and other ports are left alone. -/
theorem awaitDone_waiting (limit : Option Duration) {j : Journal Bench} (hj : j.link.Clear)
    (hdone : ∃ d ∈ j.link.board.queue commandPort, completes d = true) :
    ∃ j', awaitDone limit j = (.ok (), j') ∧ OnlyTraffic j j' ∧
      ∀ q, q ≠ commandPort → j'.link.board.queue q = j.link.board.queue q := by
  obtain ⟨data, hfind⟩ := Option.isSome_iff_exists.1 (List.find?_isSome.2 hdone)
  obtain ⟨hdata, skipped, rest, hq, hskip⟩ := List.find?_eq_some_iff_append.1 hfind
  obtain ⟨j', hrun, htraffic, hqueue⟩ :=
    awaitDone_first limit hj hq (fun d hd => by simpa using hskip d hd) hdata
  exact ⟨j', hrun, htraffic, fun q hne => by rw [hqueue, if_neg hne.symm]⟩

end Exchange

end Readout
