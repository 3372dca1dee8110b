import Readout.Proofs.Bench.InStep
import Readout.Proofs.Flash.Parts
import Readout.Station
/-!
# Sessions

A session is a series of calls of the library on one bench.  Each call is made of exchanges, and an
exchange takes its answer whether it ends well or not; so no answer outlives its call, and every
answer is the answer to the command that asked for it.

* `keeps_programPages`, `keeps_writeImagePages`, `keeps_dumpPages` are the loops of the flash;
* `Call.keeps`: every call keeps the bench in step;
* `session_inStep` is what holds after every session.
-/

namespace Readout

namespace Flash

open Exchange

variable {limit : Duration}

/-! ## The flash -/

theorem keeps_seek (hlimit : limit ≠ 0) (a : UInt32) :
    Keeps limit (seek (some limit) a : Host Bench Unit) :=
  keeps_execute hlimit (by show Command.setAddress ≠ Command.readFlash; decide)

theorem keeps_clear (hlimit : limit ≠ 0) : Keeps limit (clear (some limit) : Host Bench Unit) :=
  keeps_execute hlimit (by show Command.clearBuffers ≠ Command.readFlash; decide)

theorem keeps_erase (hlimit : limit ≠ 0) : Keeps limit (erase (some limit) : Host Bench Unit) :=
  keeps_execute hlimit (by show Command.eraseSector ≠ Command.readFlash; decide)

theorem keeps_commitPage (hlimit : limit ≠ 0) :
    Keeps limit (commitPage (some limit) : Host Bench Unit) :=
  keeps_execute hlimit (by show Command.commit ≠ Command.readFlash; decide)

/-- A page keeps the bench in step, verified or not. -/
theorem keeps_programPage (hlimit : limit ≠ 0) (a : UInt32) (sector index : Nat)
    (page : List Word) :
    Keeps limit (programPage (some limit) a sector index page : Host Bench Unit) := by
  refine .bind (keeps_seek hlimit a) fun _ => .bind (keeps_send (by decide) _) fun _ =>
    .bind (keeps_commitPage hlimit) fun _ => .bind (keeps_readPage _ _) fun read => ?_
  dsimp only
  cases compare a sector index page (Word.decode read) with
  | none => exact .pure ()
  | some found => exact .fail _

theorem keeps_programPages (hlimit : limit ≠ 0) (start : UInt32) (pages : List (List Word)) :
    ∀ index, Keeps limit (programPages (some limit) start index pages : Host Bench Unit) := by
  induction pages with
  | nil => exact fun _ => .pure ()
  | cons page rest ih =>
    exact fun index => .bind (.ofExcept _) fun _ =>
      .bind (keeps_programPage hlimit _ _ _ _) fun _ => ih (index + 1)

theorem keeps_write (hlimit : limit ≠ 0) (words : List Word) (start : UInt32) (erasing : Bool) :
    Keeps limit (write (some limit) words start erasing : Host Bench Nat) := by
  rw [write_eq]
  refine .ite (.fail _) (.bind (.ofExcept _) fun _ => ?_)
  exact .bind (keeps_clear hlimit) fun _ => .bind (keeps_seek hlimit start) fun _ =>
    .bind (.ite (keeps_erase hlimit) (.pure ())) fun _ =>
      .bind (keeps_programPages hlimit start _ 0) fun _ => .pure _

theorem keeps_writeBootPage (hlimit : limit ≠ 0) (message : List Word) (page : Nat) :
    Keeps limit (writeBootPage (some limit) message page : Host Bench Nat) := by
  unfold writeBootPage
  cases BootPage.addresses[page]? with
  | none => exact .fail _
  | some address => exact keeps_write hlimit _ address true

theorem keeps_imageRound (hlimit : limit ≠ 0) (start address : UInt32) (total index last : Nat)
    (page : List Word) :
    Keeps limit (imageRound (some limit) start address total index last page : Host Bench Unit) :=
  .bind (.bind (keeps_seek hlimit address) fun _ => .ite (keeps_erase hlimit) (.pure ())) fun _ =>
    .bind (keeps_programPage hlimit _ _ _ _) fun _ => .note _

theorem keeps_writeImagePages (hlimit : limit ≠ 0) (start : UInt32) (total pages : Nat) :
    ∀ index last image, Keeps limit
      (writeImagePages (some limit) start total index last pages image : Host Bench Unit) := by
  induction pages with
  | zero => exact fun _ _ _ => .pure ()
  | succ pages ih =>
    intro index last image
    rw [writeImagePages_succ]
    exact .bind (.ofExcept _) fun _ => .bind (keeps_imageRound hlimit _ _ _ _ _ _) fun _ =>
      ih _ _ _

theorem keeps_writeImage (hlimit : limit ≠ 0) (image : Bytes) (map : FirmwareMap)
    (start : UInt32) : Keeps limit (writeImage (some limit) image map start : Host Bench Nat) := by
  rw [writeImage_eq]
  refine .ite (.fail _) (.bind (.ofExcept _) fun _ => ?_)
  exact .bind (keeps_clear hlimit) fun _ => .bind (.note _) fun _ =>
    .bind (keeps_writeImagePages hlimit start _ _ 0 0 image) fun _ => .pure _

theorem keeps_handOver (asked : Nat) (answer : Bytes) :
    Keeps limit (handOver asked answer : Host Bench Nat) :=
  .bind (.note _) fun _ => .pure _

theorem keeps_dumpPages (hlimit : limit ≠ 0) (start : UInt32) (pages : Nat) :
    ∀ index, Keeps limit (dumpPages (some limit) start index pages : Host Bench Nat) := by
  induction pages with
  | zero => exact fun _ => .pure 0
  | succ pages ih =>
    exact fun index => .bind (keeps_readPage _ _) fun answer => .bind (keeps_handOver _ _) fun _ =>
      .bind (.ofExcept _) fun a => .bind (keeps_seek hlimit a) fun _ =>
        .bind (ih (index + 1)) fun _ => .pure _

theorem keeps_dump (hlimit : limit ≠ 0) (start : UInt32) (words : Nat) :
    Keeps limit (dump (some limit) start words : Host Bench Nat) := by
  refine .bind (.ofExcept _) fun _ => .bind (keeps_clear hlimit) fun _ =>
    .bind (keeps_seek hlimit start) fun _ => .bind (keeps_dumpPages hlimit start _ 0) fun read => ?_
  exact .ite (.pure read) (.bind (keeps_readPage _ _) fun _ => .bind (keeps_handOver _ _) fun _ =>
    .pure _)

end Flash

/-! ## Calls -/

/-- A call of the library that exchanges datagrams with the board. -/
inductive Call
  | execute (c : Command)
  | query (c : Command)
  | compileTime
  | sendRegisters (registers : RegisterMap)
  | storeRegisters (registers : RegisterMap) (page : Nat)
  | write (words : List Word) (start : UInt32) (erasing : Bool)
  | dump (start : UInt32) (words : Nat)
  | writeImage (image : Bytes) (map : Flash.FirmwareMap) (start : UInt32)

namespace Call

/-- The limit for each acknowledgement and answer of a call. -/
def limit (o : Options) : Call → Option Duration
  | execute _ | query _ | compileTime | sendRegisters _ => o.commandTimeout
  | storeRegisters _ _ | write _ _ _ | dump _ _ | writeImage _ _ _ => o.flashTimeout

/-- Make a call; what it returns is dropped. -/
def run (o : Options) : Call → Host Bench Unit
  | execute c => Exchange.execute o.commandTimeout c
  | query c => Exchange.query o.commandTimeout c >>= fun _ => pure ()
  | compileTime => Exchange.compileTime o.commandTimeout >>= fun _ => pure ()
  | sendRegisters registers =>
    Station.sendRegisters { registers, options := o } >>= fun _ => pure ()
  | storeRegisters registers page =>
    Station.storeRegisters { registers, options := o } page >>= fun _ => pure ()
  | write words start erasing => Flash.write o.flashTimeout words start erasing >>= fun _ => pure ()
  | dump start words => Flash.dump o.flashTimeout start words >>= fun _ => pure ()
  | writeImage image map start =>
    Flash.writeImage o.flashTimeout image map start >>= fun _ => pure ()

/-- A read of flash on its own would leave its answer on the firmware port; every other command is
answered on the command port. -/
def IsAnswered : Call → Prop
  | execute c | query c => c.name ≠ Command.readFlash
  | _ => True

theorem keeps {o : Options} {t : Duration} (ht : t ≠ 0) (c : Call) (hlimit : c.limit o = some t)
    (hc : c.IsAnswered) : Keeps t (c.run o) := by
  cases c with
  | execute c =>
    simp only [limit] at hlimit
    rw [run, hlimit]
    exact Exchange.keeps_execute ht hc
  | query c => exact .bind (Exchange.keeps_answer hc _ _) fun _ => .pure ()
  | compileTime =>
    exact .bind (Exchange.keeps_answer (by show Command.askCompileTime ≠ _; decide) _ _)
      fun _ => .pure ()
  | sendRegisters registers => exact .bind (Exchange.keeps_send (by decide) _) fun _ => .pure ()
  | storeRegisters registers page =>
    simp only [limit] at hlimit
    simp only [run, Station.storeRegisters, hlimit]
    exact .bind (Flash.keeps_writeBootPage ht _ page) fun _ => .pure ()
  | write words start erasing =>
    simp only [limit] at hlimit
    rw [run, hlimit]
    exact .bind (Flash.keeps_write ht words start erasing) fun _ => .pure ()
  | dump start words =>
    simp only [limit] at hlimit
    rw [run, hlimit]
    exact .bind (Flash.keeps_dump ht start words) fun _ => .pure ()
  | writeImage image map start =>
    simp only [limit] at hlimit
    rw [run, hlimit]
    exact .bind (Flash.keeps_writeImage ht image map start) fun _ => .pure ()

end Call

/-! ## Sessions -/

/-- The journal after a series of calls, each made whatever became of the ones before. -/
def session (o : Options) (calls : List Call) (j : Journal Bench) : Journal Bench :=
  calls.foldl (fun j c => (c.run o j).2) j

/-- Options under which every call waits for a time that is neither zero nor unlimited. -/
structure Options.Timed (o : Options) : Prop where
  command : ∃ t, o.commandTimeout = some t ∧ t ≠ 0
  flash : ∃ t, o.flashTimeout = some t ∧ t ≠ 0

theorem Options.Timed.limit {o : Options} (h : o.Timed) (c : Call) :
    ∃ t, c.limit o = some t ∧ t ≠ 0 := by
  cases c with
  | execute | query | compileTime | sendRegisters => exact h.command
  | storeRegisters | write | dump | writeImage => exact h.flash

/-- A bench in step with the answers of a board stays so over a session. -/
theorem session_keeps {o : Options} (ho : o.Timed) (calls : List Call)
    (hcalls : ∀ c ∈ calls, c.IsAnswered) :
    ∀ j : Journal Bench, j.link.InStep → (session o calls j).link.InStep ∧
      (session o calls j).link.board.answers = j.link.board.answers := by
  induction calls with
  | nil => exact fun j hj => ⟨hj, rfl⟩
  | cons c rest ih =>
    intro j hj
    obtain ⟨t, hlimit, ht⟩ := ho.limit c
    have hc := c.keeps ht hlimit (hcalls c List.mem_cons_self) j hj
    obtain ⟨hrest, hanswers⟩ := ih (fun d hd => hcalls d (List.mem_cons_of_mem _ hd)) _ hc.inStep
    exact ⟨hrest, hanswers.trans hc.answers⟩

/-- **Sessions stay in step.**  Whatever calls were made on a bench in step and however they ended,
no answer waits for the host; a query is answered with the board's answer to that very command; and
a call that does not return is one that the horizon cuts off before its limit. -/
theorem session_inStep {o : Options} (ho : o.Timed) {j : Journal Bench} (hj : j.link.InStep)
    (calls : List Call) (hcalls : ∀ c ∈ calls, c.IsAnswered) :
    (session o calls j).link.board.queue commandPort = [] ∧
      (session o calls j).link.board.queue firmwarePort = [] ∧
      (∀ c : Command, Command.isName c.name = true → c.name ≠ Command.readFlash →
        (Exchange.query o.commandTimeout c (session o calls j)).1 =
          (Response.ofWords c.name (j.link.board.reply c.heard.name)).mapError .error) ∧
      ∀ (next : Call) (t : Duration), next.IsAnswered → next.limit o = some t →
        (next.run o (session o calls j)).1 = .error .never →
        (session o calls j).link.horizon <
          (session o calls j).link.clock + t + Exchange.slice t := by
  obtain ⟨hstep, hanswers⟩ := session_keeps ho calls hcalls j hj
  refine ⟨hstep.commands, hstep.pages, fun c hname hread => ?_,
    fun next t hnext hlimit hnever => ?_⟩
  · obtain ⟨data, hframe⟩ := Command.exists_frame hname
    obtain ⟨j', hrun, -⟩ := Exchange.answer_inStep 1 hstep hframe hread o.commandTimeout
      (Response.ofWords c.name)
    have hquery : Exchange.query o.commandTimeout c (session o calls j) =
        ((Response.ofWords c.name ((session o calls j).link.board.reply c.heard.name)).mapError
          .error, j') := hrun
    rw [hquery, Board.reply, hanswers]
    rfl
  · obtain ⟨t', hlimit', ht'⟩ := ho.limit next
    have ht : t ≠ 0 := by
      rw [hlimit] at hlimit'
      cases hlimit'
      exact ht'
    exact (next.keeps ht hlimit hnext _ hstep).ends hnever

/-- A board that tells its compile time. -/
def tellingBoard : Board := ({} : Board).answerWith Command.askCompileTime [0x00474354, 7]

/-- A bench with such a board, and with more time than the library waits. -/
def tellingBench : Bench := { board := tellingBoard, horizon := Duration.seconds 60 }

theorem inStep_tellingBench : tellingBench.InStep := by
  have hqueue : ∀ port, tellingBoard.queue port = [] := fun port => by
    simp [tellingBoard, Board.answerWith, Board.queue]
  exact { wired := rfl, sends := rfl, receives := rfl, idle := rfl, speaks := rfl
          commands := hqueue _, pages := hqueue _ }

theorem reply_tellingBoard : tellingBoard.reply Command.askCompileTime = [0x00474354, 7] := by
  rw [Board.reply, tellingBoard, Board.answerWith, Std.HashMap.getD_insert_self]
  rfl

/-- An execution without an acknowledgement ends in a timeout; it and a page that is programmed do
not shift the answer to a later question. -/
theorem session_inStep_compileTime :
    ((Call.execute { name := Command.askCompileTime }).run {} { link := tellingBench }).1 =
        .error (.error .timeout) ∧
      (Exchange.query (some (Duration.seconds 1)) { name := Command.askCompileTime }
        (session {}
          [.execute { name := Command.askCompileTime }, .write [1] 0 true,
            .query { name := Command.askUptime }]
          { link := tellingBench })).1 = .ok (.compileTime 7) := by
  have htimed : Options.Timed {} := ⟨⟨_, rfl, by decide⟩, ⟨_, rfl, by decide⟩⟩
  have hname : Word.ascii (Word.ofAscii Command.askCompileTime) = Command.askCompileTime := by
    decide
  have hread : Word.ascii (Word.ofAscii Command.askCompileTime) ≠ Command.readFlash := by decide
  constructor
  · obtain ⟨data, hframe⟩ := Command.exists_frame (c := { name := Command.askCompileTime })
      (by decide)
    have hsecond : Duration.seconds 1 ≠ 0 := by decide
    obtain ⟨r, j', hrun, -, -, hsilent⟩ := Exchange.execute_inStep hsecond
      (j := { link := tellingBench }) inStep_tellingBench hframe hread
    have hlimit := (session_inStep htimed (j := { link := tellingBench }) inStep_tellingBench []
      (fun _ h => by cases h)).2.2.2 (.execute { name := Command.askCompileTime })
      (Duration.seconds 1) (by show Command.askCompileTime ≠ _; decide) rfl
    have hexecute : ((Call.execute { name := Command.askCompileTime }).run {}
        { link := tellingBench }) = (r, j') := hrun
    have hreply : Command.containsDone
        (tellingBoard.reply (Word.ascii (Word.ofAscii Command.askCompileTime))) = false := by
      rw [hname, reply_tellingBoard]
      decide
    rw [hexecute]
    rcases hsilent hreply with rfl | rfl
    · rfl
    · -- the horizon is far enough away
      exact absurd (hlimit (congrArg Prod.fst hexecute)) (by decide)
  · have hanswer := (session_inStep htimed (j := { link := tellingBench }) inStep_tellingBench
      [.execute { name := Command.askCompileTime }, .write [1] 0 true,
        .query { name := Command.askUptime }]
      (by
        simp only [List.forall_mem_cons, Call.IsAnswered]
        exact ⟨by decide, trivial, by decide, fun _ h => by cases h⟩)).2.2.1
      { name := Command.askCompileTime } (by decide) (by decide)
    refine hanswer.trans ?_
    show (Response.ofWords _ (tellingBoard.reply (Word.ascii (Word.ofAscii _)))).mapError _ = _
    rw [hname, reply_tellingBoard]
    rfl

end Readout
