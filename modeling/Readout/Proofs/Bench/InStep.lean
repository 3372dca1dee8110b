import Readout.Flash.Program
import Readout.Proofs.Bench.Timeout
import Readout.Proofs.Command.Frames
/-!
# Answers in step with commands

The marker names no command, so an answer that is left in a queue would be taken for the answer to a
later command.  A bench is in step when no answer is left.  Every exchange takes the one answer to
its command before it ends, whether it ends well or not, and so does what is composed of exchanges.

* `Bench.InStep` is the invariant, `Keeps` says of a run that it keeps it;
* `Keeps.bind`: a composed run keeps what its parts keep;
* `keeps_execute`, `keeps_answer`, `keeps_send` and `keeps_readPage` are the exchanges.
-/

namespace Readout

/-- An idle bench with a board that speaks and has no answers left for the host. -/
structure Bench.InStep (b : Bench) : Prop extends b.Idle where
  speaks : b.board.silent = false
  commands : b.board.queue commandPort = []
  pages : b.board.queue firmwarePort = []

/-- How a run may leave a bench in step: it stays in step, with the setting and the answers it had,
no time passes unless the run fails, and the run ends unless the horizon is near. -/
structure Settled (limit : Duration) {α : Type} (b : Bench) (r : Except Stop α) (b' : Bench) :
    Prop where
  inStep : b'.InStep
  fixture : b'.fixture = b.fixture
  answers : b'.board.answers = b.board.answers
  prompt : ∀ a, r = .ok a → b'.clock = b.clock
  ends : r = .error .never → b.horizon < b.clock + limit + Exchange.slice limit

/-- A run keeps the bench in step. -/
def Keeps {α : Type} (limit : Duration) (m : Host Bench α) : Prop :=
  ∀ j, j.link.InStep → Settled limit j.link (m j).1 (m j).2.link

namespace Keeps

variable {α β : Type} {limit : Duration}

theorem pure (a : α) : Keeps limit (Pure.pure a : Host Bench α) :=
  fun _ hj => ⟨hj, rfl, rfl, fun _ _ => rfl, fun h => by cases h⟩

theorem fail (e : Error) : Keeps limit (Host.fail e : Host Bench α) :=
  fun _ hj => ⟨hj, rfl, rfl, fun _ _ => rfl, fun h => by cases h⟩

theorem ofExcept (r : Except Error α) : Keeps limit (Host.ofExcept r : Host Bench α) := by
  cases r with
  | ok a => exact pure a
  | error e => exact fail e

theorem note (e : Event) : Keeps limit (Host.note e : Host Bench Unit) :=
  fun _ hj => ⟨hj, rfl, rfl, fun _ _ => rfl, fun h => by cases h⟩

/-- A composed run keeps what its parts keep. -/
theorem bind {m : Host Bench α} {f : α → Host Bench β} (hm : Keeps limit m)
    (hf : ∀ a, Keeps limit (f a)) : Keeps limit (m >>= f) := by
  intro j hj
  have hfirst := hm j hj
  rcases h : m j with ⟨r, j₁⟩
  rw [h] at hfirst
  cases r with
  | error e =>
    rw [Host.bind_error h]
    exact ⟨hfirst.inStep, hfirst.fixture, hfirst.answers, fun _ he => (by cases he),
      fun he => hfirst.ends (by cases he; rfl)⟩
  | ok a =>
    rw [Host.bind_ok h]
    have hrest := hf a j₁ hfirst.inStep
    have hclock := hfirst.prompt a rfl
    have hhorizon := Bench.horizon_of_fixture hfirst.fixture
    refine ⟨hrest.inStep, hrest.fixture.trans hfirst.fixture, hrest.answers.trans hfirst.answers,
      fun b hb => (hrest.prompt b hb).trans hclock, fun he => ?_⟩
    rw [← hclock, ← hhorizon]
    exact hrest.ends he

theorem ite {p : Prop} [Decidable p] {m m' : Host Bench α} (hm : Keeps limit m)
    (hm' : Keeps limit m') : Keeps limit (if p then m else m') := by
  split
  · exact hm
  · exact hm'

end Keeps

namespace Exchange

variable {limit : Duration}

/-- A bench in step whose board was sent a command: only the queues may tell that it was. -/
structure Asked (b b₁ : Bench) : Prop where
  setting : b₁.setting = b.setting
  answers : b₁.board.answers = b.board.answers
  speaks : b₁.board.silent = false
  idle : b₁.Idle

theorem command_asked {j : Journal Bench} (hj : j.link.InStep) {c : Command} {data : Bytes}
    (hframe : c.frame = .ok data) :
    ∃ j', command c j = (.ok data.length, j') ∧ Asked j.link j'.link ∧
      j'.link.board = j.link.board.send commandPort data := by
  obtain ⟨j₁, hcommand, hset, hboard, -⟩ := command_clear hj.toClear hframe
  refine ⟨j₁, hcommand, ⟨hset, ?_, ?_, hj.toIdle.of_fixture (Bench.fixture_of_setting hset)⟩, hboard⟩
  · rw [hboard, Board.answers_send_command hframe]
  · rw [hboard, Board.silent_send_command hframe, hj.speaks]

/-- A command other than a read leaves one answer, on the command port. -/
theorem command_inStep {j : Journal Bench} (hj : j.link.InStep) {c : Command} {data : Bytes}
    (hframe : c.frame = .ok data) (hname : c.heard.name ≠ Command.readFlash) :
    ∃ j', command c j = (.ok data.length, j') ∧ Asked j.link j'.link ∧
      j'.link.board.queue commandPort =
        [Word.encode (j.link.board.answers.getD c.heard.name [Command.doneMarker])] ∧
      j'.link.board.queue firmwarePort = [] := by
  obtain ⟨j₁, hcommand, hasked, hboard⟩ := command_asked hj hframe
  have hqueue := Board.queue_send_command hframe hj.speaks hname
  refine ⟨j₁, hcommand, hasked, ?_, ?_⟩
  · rw [hboard, hqueue, if_pos rfl, hj.commands]
    rfl
  · rw [hboard, hqueue, if_neg (by decide), hj.pages]

/-- An exchange settles when the wait for its answer leaves none. -/
theorem settled_of_waited {α : Type} {j j₁ j₂ : Journal Bench} (hj : j.link.InStep)
    (hasked : Asked j.link j₁.link) (hw : Waited j₁ j₂)
    (hcommands : j₂.link.board.queue commandPort = [])
    (hpages : j₂.link.board.queue firmwarePort = []) {r : Except Stop α}
    (hprompt : ∀ a, r = .ok a → j₂.link.clock = j.link.clock)
    (hends : r = .error .never → j.link.horizon < j.link.clock + limit + slice limit) :
    Settled limit j.link r j₂.link := by
  have hfixture := hw.fixture.trans (Bench.fixture_of_setting hasked.setting)
  have hquiet := hw.board
  refine ⟨⟨hj.toIdle.of_fixture hfixture, ?_, hcommands, hpages⟩, hfixture, ?_, hprompt, hends⟩
  · rw [← Board.silent_quiet, hquiet, Board.silent_quiet, hasked.speaks]
  · rw [← Board.answers_quiet, hquiet, Board.answers_quiet, hasked.answers]

/-- Whether an answer on the wire completes its command. -/
theorem completes_answer (b : Board) (name : String) :
    completes (Word.encode (b.answers.getD name [Command.doneMarker])) =
      Command.containsDone (b.reply name) := by
  rw [completes, Board.decode_answer]

/-- A command is acknowledged, or ends in a timeout, and its answer is taken all the same. -/
theorem execute_inStep (hlimit : limit ≠ 0) {j : Journal Bench} (hj : j.link.InStep) {c : Command}
    {data : Bytes} (hframe : c.frame = .ok data) (hname : c.heard.name ≠ Command.readFlash) :
    ∃ r j', execute (some limit) c j = (r, j') ∧ Settled limit j.link r j'.link ∧
      (Command.containsDone (j.link.board.reply c.heard.name) = true → r = .ok ()) ∧
      (Command.containsDone (j.link.board.reply c.heard.name) = false →
        r = .error (.error .timeout) ∨ r = .error .never) := by
  obtain ⟨j₁, hcommand, hasked, hqueue, hpages⟩ := command_inStep hj hframe hname
  have hclock := Bench.clock_of_setting hasked.setting
  have hhorizon := Bench.horizon_of_fixture (Bench.fixture_of_setting hasked.setting)
  cases hdone : Command.containsDone (j.link.board.reply c.heard.name) with
  | true =>
    have hnone : ∀ d ∈ ([] : List Bytes), completes d = false := fun d hd => by cases hd
    obtain ⟨j₂, hwait, htraffic, hqueues⟩ := awaitDone_first (some limit) hasked.idle.toClear
      hqueue hnone ((completes_answer _ _).trans hdone)
    refine ⟨.ok (), j₂, ?_, ?_, fun _ => rfl, fun h => by cases h⟩
    · rw [execute, Host.bind_ok hcommand, hwait]
    · exact settled_of_waited hj hasked (.of_traffic htraffic)
        (by rw [hqueues, if_pos rfl]) (by rw [hqueues, if_neg (by decide), hpages])
        (fun _ _ => htraffic.clock.trans hclock) (fun h => by cases h)
  | false =>
    obtain ⟨e, j₂, hwait, hwaited, hempty, hothers, hend⟩ := awaitDone_idle hlimit hasked.idle (by
      rw [hqueue]
      exact fun d hd => List.mem_singleton.1 hd ▸ (completes_answer _ _).trans hdone)
    refine ⟨.error e, j₂, ?_, ?_, fun h => (by cases h), fun _ => ?_⟩
    · rw [execute, Host.bind_ok hcommand, hwait]
    · refine settled_of_waited hj hasked hwaited hempty
        ((hothers _ (by decide)).trans hpages) (fun _ h => by cases h) fun h => ?_
      rw [hclock, hhorizon] at hend
      rcases hend with rfl | ⟨-, hnear⟩
      · cases h
      · exact hnear
    · rcases hend with rfl | ⟨rfl, -⟩
      · exact .inl rfl
      · exact .inr rfl

/-- Only the read of flash is heard as a read. -/
theorem heard_ne_read {c : Command} {data : Bytes} (hframe : c.frame = .ok data)
    (hname : c.name ≠ Command.readFlash) : c.heard.name ≠ Command.readFlash := by
  intro he
  refine hname (Command.eq_of_heard ?_ (by decide) (by decide) he)
  rw [Command.frame, Command.words, Command.word] at hframe
  split at hframe
  · assumption
  · cases hframe

theorem keeps_execute (hlimit : limit ≠ 0) {c : Command} (hname : c.name ≠ Command.readFlash) :
    Keeps limit (execute (some limit) c) := by
  intro j hj
  cases hframe : c.frame with
  | error e =>
    have hrun : execute (some limit) c j = (.error (.error e), j) := by
      rw [execute, command, hframe]
      rfl
    rw [hrun]
    exact Keeps.fail e j hj
  | ok data =>
    obtain ⟨r, j', hrun, hsettled, -⟩ :=
      execute_inStep hlimit hj hframe (heard_ne_read hframe hname)
    rw [hrun]
    exact hsettled

/-- What a host makes of the answer to a command: it is the answer of the board to that very
command. -/
theorem answer_inStep {α : Type} (limit : Duration) {j : Journal Bench} (hj : j.link.InStep)
    {c : Command} {data : Bytes} (hframe : c.frame = .ok data) (hname : c.name ≠ Command.readFlash)
    (limit' : Option Duration) (f : List Word → Except Error α) :
    ∃ j', (command c >>= fun _ => receiveWords commandPort limit' >>= fun ws =>
        Host.ofExcept (f ws)) j = ((f (j.link.board.reply c.heard.name)).mapError .error, j') ∧
      Settled limit j.link ((f (j.link.board.reply c.heard.name)).mapError .error) j'.link := by
  obtain ⟨j₁, hcommand, hasked, hqueue, hpages⟩ :=
    command_inStep hj hframe (heard_ne_read hframe hname)
  have hclock := Bench.clock_of_setting hasked.setting
  obtain ⟨j₂, hreceive, htraffic, hqueues⟩ :=
    tryReceive_waiting hasked.idle.toClear hqueue limit'
  have hwords : receiveWords commandPort limit' j₁ =
      (.ok (j.link.board.reply c.heard.name), j₂) := by
    rw [receiveWords, Host.bind_ok (Host.receive_ok hreceive), Board.decode_answer]
    rfl
  refine ⟨j₂, ?_, ?_⟩
  · rw [Host.bind_ok hcommand, Host.bind_ok hwords]
    cases f (j.link.board.reply c.heard.name) <;> rfl
  · refine settled_of_waited hj hasked (.of_traffic htraffic)
      (by rw [hqueues, if_pos rfl]) (by rw [hqueues, if_neg (by decide), hpages])
      (fun _ _ => htraffic.clock.trans hclock) fun h => ?_
    cases hf : f (j.link.board.reply c.heard.name) with
    | ok a => rw [hf] at h; cases h
    | error e => rw [hf] at h; cases h

theorem keeps_answer {α : Type} {c : Command} (hname : c.name ≠ Command.readFlash)
    (limit' : Option Duration) (f : List Word → Except Error α) :
    Keeps limit (command c >>= fun _ => receiveWords commandPort limit' >>= fun ws =>
      Host.ofExcept (f ws)) := by
  intro j hj
  cases hframe : c.frame with
  | error e =>
    have hrun : (command c >>= fun _ => receiveWords commandPort limit' >>= fun ws =>
        Host.ofExcept (f ws)) j = (.error (.error e), j) := by
      rw [command, hframe]
      rfl
    rw [hrun]
    exact Keeps.fail e j hj
  | ok data =>
    obtain ⟨j', hrun, hsettled⟩ := answer_inStep limit hj hframe hname limit' f
    rw [hrun]
    exact hsettled

/-- A datagram to any other port is not answered. -/
theorem keeps_send {port : Port} (hport : port ≠ commandPort) (data : Bytes) :
    Keeps limit (Host.send port data : Host Bench Nat) := by
  intro j hj
  obtain ⟨j', hsend, hset, hboard, -⟩ := send_clear hj.toClear port data
  have hfixture := Bench.fixture_of_setting hset
  have hquiet : j'.link.board.answers = j.link.board.answers ∧
      j'.link.board.silent = j.link.board.silent := by
    rw [hboard, Board.send, if_neg hport]
    split <;> exact ⟨rfl, rfl⟩
  rw [hsend]
  refine ⟨⟨hj.toIdle.of_fixture hfixture, hquiet.2.trans hj.speaks, ?_, ?_⟩, hfixture, hquiet.1,
    fun _ _ => Bench.clock_of_setting hset, fun h => by cases h⟩
  · rw [hboard, Board.queue_send_of_ne hport, hj.commands]
  · rw [hboard, Board.queue_send_of_ne hport, hj.pages]

/-- A read of flash is answered at once, on the firmware port. -/
theorem keeps_readBack (limit' : Option Duration) (count : Nat) :
    Keeps limit (Flash.readBack limit' count : Host Bench Bytes) := by
  intro j hj
  obtain ⟨data, hframe⟩ := Command.frame_read (UInt8.ofNat count)
  have hname := congrArg Received.name (Command.heard_read (UInt8.ofNat count))
  obtain ⟨j₁, hcommand, hasked, hboard⟩ := command_asked hj hframe
  have hqueue := Board.queue_send_read hframe hj.speaks hname
  have hclock := Bench.clock_of_setting hasked.setting
  have hpage := hqueue firmwarePort
  rw [← hboard, if_pos rfl, hj.pages] at hpage
  obtain ⟨j₂, hreceive, htraffic, hqueues⟩ :=
    tryReceive_waiting hasked.idle.toClear hpage limit'
  rw [Flash.readBack, Host.bind_ok hcommand, Host.receive_ok hreceive]
  refine settled_of_waited hj hasked (.of_traffic htraffic) ?_ (by rw [hqueues, if_pos rfl])
    (fun _ _ => htraffic.clock.trans hclock) (fun h => by cases h)
  rw [hqueues, if_neg (by decide), hboard, hqueue, if_neg (by decide), hj.commands]

theorem keeps_readPage (limit' : Option Duration) (count : Nat) :
    Keeps limit (Flash.readPage limit' count : Host Bench Bytes) :=
  .ite (keeps_readBack limit' count) (.fail _)

end Exchange

end Readout
