import Readout.CommandLine.Shell
import Readout.Proofs.Flash.Steps
import Readout.Proofs.Flash.Verdicts
/-!
# Refusals

An operation looks at its arguments before it does anything.  If it refuses them, the link is as it
was, nothing was sent, received or reported, and the registers are the same.  Once it has accepted
them, it may fail because of the link or of what it reads back, but it refuses nothing any more: the
checks of addresses and counts that stand in the loops over pages always pass.

* `Error.IsRefusal` are the errors of arguments, `Refused` an outcome that is one of them;
* `RefusesFirst`: a run that is refused has done nothing; `Unrefused`: no run is refused;
  `RefusesFirst.of_check` composes a check with what follows it;
* `unrefused_programPages` and `unrefused_writeImagePages` are the loops over pages that fit;
* `Station.Operation` are the operations, `host_refused` is a refusal at the desk of a user;
* `refusal_leaves_all` puts them together.
-/

namespace Readout

/-- Errors by which an operation refuses its arguments. -/
inductive Error.IsRefusal : Error → Prop
  | invalidCommand (token : String) : IsRefusal (.invalidCommand token)
  | invalidParameter (cause : InvalidParameter) : IsRefusal (.invalidParameter cause)
  | unalignedAddress (address : UInt32) : IsRefusal (.unalignedAddress address)
  | sectorOverflow (bytes limit : Nat) : IsRefusal (.sectorOverflow bytes limit)
  | invalidPage (page : Nat) : IsRefusal (.invalidPage page)

/-- No error of a link is a refusal. -/
theorem Error.not_isRefusal_ofLink (cause : LinkError) : ¬ (ofLink cause).IsRefusal := by
  intro h
  cases cause <;> cases h

variable {σ α β : Type}

/-- An outcome by which arguments are refused. -/
def Refused (r : Except Stop α) : Prop := ∃ e, Error.IsRefusal e ∧ r = .error (.error e)

/-- No run is refused. -/
def Unrefused (m : Host σ α) : Prop := ∀ j, ¬ Refused (m j).1

/-- A run that is refused has done nothing. -/
def RefusesFirst (m : Host σ α) : Prop := ∀ j, Refused (m j).1 → (m j).2 = j

/-! ## Composition -/

namespace Unrefused

theorem pure (a : α) : Unrefused (Pure.pure a : Host σ α) := by
  rintro j ⟨e, -, h⟩
  cases h

theorem note (e : Event) : Unrefused (Host.note e : Host σ Unit) := by
  rintro j ⟨e', -, h⟩
  cases h

theorem fail {e : Error} (he : ¬ e.IsRefusal) : Unrefused (Host.fail e : Host σ α) := by
  rintro j ⟨e', he', h⟩
  cases h
  exact he he'

theorem ofExcept {r : Except Error α} (h : ∀ e, r = .error e → ¬ e.IsRefusal) :
    Unrefused (Host.ofExcept r : Host σ α) := by
  cases r with
  | ok a => exact Unrefused.pure a
  | error e => exact Unrefused.fail (h e rfl)

theorem bind {m : Host σ α} {f : α → Host σ β} (hm : Unrefused m) (hf : ∀ a, Unrefused (f a)) :
    Unrefused (m >>= f) := by
  intro j
  rcases h : m j with ⟨r, j₁⟩
  cases r with
  | ok a =>
    rw [Host.bind_ok h]
    exact hf a j₁
  | error s =>
    rw [Host.bind_error h]
    rintro ⟨e, he, hs⟩
    cases hs
    exact hm j ⟨e, he, by rw [h]⟩

/-- What fails only as the link does is not refused. -/
theorem of_only {P : Event → Prop} {m : Host σ α} (h : Only P m) : Unrefused m := by
  rintro j ⟨e, he, hr⟩
  obtain ⟨new, -, -, hlink⟩ := h j
  rw [hr] at hlink
  obtain ⟨cause, rfl⟩ := hlink
  exact Error.not_isRefusal_ofLink cause he

end Unrefused

namespace RefusesFirst

theorem fail (e : Error) : RefusesFirst (Host.fail e : Host σ α) := fun _ _ => rfl

theorem of_unrefused {m : Host σ α} (h : Unrefused m) : RefusesFirst m :=
  fun j hr => absurd hr (h j)

/-- What refuses first does so also after a check. -/
theorem of_check (r : Except Error β) {f : β → Host σ α}
    (hf : ∀ b, r = .ok b → RefusesFirst (f b)) : RefusesFirst (Host.ofExcept r >>= f) := by
  cases r with
  | ok b => exact hf b rfl
  | error e => exact RefusesFirst.fail e

end RefusesFirst

/-! ## Exchanges -/

/-- An answer that cannot be decoded is too short. -/
theorem Response.ofWords_error {name : String} {ws : List Word} {e : Error}
    (h : ofWords name ws = .error e) : e = .protocol (.shortResponse name ws.length) := by
  have hsecond : ∀ g : Word → Response, (secondWord name ws).map g = .error e →
      e = .protocol (.shortResponse name ws.length) := by
    intro g hg
    unfold secondWord at hg
    split at hg
    · cases hg
    · cases hg
      rfl
  unfold ofWords at h
  split at h
  · exact hsecond _ h
  split at h
  · exact hsecond _ h
  split at h
  · exact hsecond _ h
  split at h <;> cases h

section
variable [Link σ] {limit : Option Duration}

theorem refusesFirst_command (c : Command) :
    RefusesFirst (Exchange.command c : Host σ Nat) := by
  apply RefusesFirst.of_check
  intro data _
  exact .of_unrefused (.of_only (only_send commandPort data))

theorem refusesFirst_execute (c : Command) :
    RefusesFirst (Exchange.execute limit c : Host σ Unit) := by
  cases hframe : c.frame with
  | ok data => exact .of_unrefused (.of_only (only_execute hframe))
  | error e =>
    rw [Exchange.execute, Exchange.command, hframe]
    exact RefusesFirst.fail e

/-- An answer that is too short is no refusal: the command has been sent. -/
theorem refusesFirst_query (c : Command) :
    RefusesFirst (Exchange.query limit c : Host σ Response) := by
  rw [Exchange.query, Exchange.command, bind_assoc]
  apply RefusesFirst.of_check
  intro data _
  apply RefusesFirst.of_unrefused
  apply Unrefused.bind (.of_only (only_send commandPort data))
  intro _
  have hreceive : Unrefused (Exchange.receiveWords commandPort limit : Host σ (List Word)) :=
    .bind (.of_only (only_receive commandPort limit)) fun _ => .pure _
  apply Unrefused.bind hreceive
  intro ws
  apply Unrefused.ofExcept
  intro e he
  rw [Response.ofWords_error he]
  intro h
  cases h

theorem refusesFirst_sendFile (f : Files) (path : String) (port : Port) :
    RefusesFirst (Station.sendFile f path port : Host σ Nat) := by
  unfold Station.sendFile
  cases f.readText path with
  | error e => exact RefusesFirst.fail _
  | ok text =>
    apply RefusesFirst.of_check
    intro ws _
    exact .of_unrefused (.of_only (only_send port (Word.encode ws)))

end

/-! ## Pages -/

namespace Flash

/-- A page of a span that fits has the address that counting gives it. -/
theorem pageAddress_exact {start : UInt32} {n i : Nat} (hi : i < n)
    (h : start.toNat + pageBytes * n ≤ 2 ^ 32) :
    ∃ a, pageAddress start i = .ok a ∧ a.toNat = start.toNat + pageBytes * i ∧
      a ≠ Command.absentWord := by
  have hpage := span_mono hi h
  refine ⟨_, page_starts hpage, ?_, wordAddress_ne_absentWord hpage⟩
  rw [toNat_wordAddress (page_lt hpage)]
  simp only [pageWords, pageBytes]
  omega

section
variable [Link σ] {limit : Option Duration}

theorem unrefused_exchange {c : Command} (hname : Command.isName c.name = true) :
    Unrefused (Exchange.execute limit c : Host σ Unit) :=
  .of_only (only_exchange hname)

theorem unrefused_clear : Unrefused (clear limit : Host σ Unit) := unrefused_exchange (by decide)

theorem unrefused_seek (a : UInt32) : Unrefused (seek limit a : Host σ Unit) := by
  have hseek : Command.isName Command.setAddress = true := by decide
  exact unrefused_exchange hseek

theorem unrefused_eraseIf (p : Prop) [Decidable p] :
    Unrefused (if p then erase limit else pure () : Host σ Unit) := by
  split
  · exact unrefused_exchange (by decide)
  · exact .pure ()

/-- A page that is read back otherwise than it was written is no refusal. -/
theorem unrefused_programPage (a : UInt32) (s index : Nat) (page : List Word) :
    Unrefused (programPage limit a s index page : Host σ Unit) := by
  have hjudge : ∀ read, Unrefused (judge a s index page read : Host σ Unit) := by
    intro read
    rw [judge]
    cases compare a s index page (Word.decode read) with
    | none => exact .pure ()
    | some found =>
      apply Unrefused.fail
      intro h
      cases h
  have hread : Unrefused (readPage limit pageWords : Host σ Bytes) := by
    obtain ⟨frame, hframe⟩ := Command.frame_read (UInt8.ofNat pageWords)
    rw [readPage_eq (Nat.le_refl _), readBack, Exchange.command, hframe]
    exact .bind (.of_only (only_send commandPort frame)) fun _ =>
      .of_only (only_receive firmwarePort limit)
  have hcommit : Unrefused (commitPage limit : Host σ Unit) := unrefused_exchange (by decide)
  exact .bind (unrefused_seek a) fun _ =>
    .bind (.of_only (only_send firmwarePort (Word.encode page))) fun _ =>
      .bind hcommit fun _ => .bind hread hjudge

/-- The check of the address in every round passes. -/
theorem unrefused_programPages {start : UInt32} (pages : List (List Word)) :
    ∀ index, start.toNat + pageBytes * (index + pages.length) ≤ 2 ^ 32 →
      Unrefused (programPages limit start index pages : Host σ Unit) := by
  induction pages with
  | nil =>
    intro index _
    exact .pure ()
  | cons page rest ih =>
    intro index hspan
    have hnext : index + 1 + rest.length = index + (rest.length + 1) := by omega
    obtain ⟨a, haddress, -⟩ := pageAddress_exact (i := index) (by simp) hspan
    rw [programPages, haddress, Host.ofExcept_ok, pure_bind]
    apply Unrefused.bind (unrefused_programPage a _ index page)
    intro _
    exact ih (index + 1) (by rwa [hnext])

theorem unrefused_writeImagePages {start : UInt32} (total pages : Nat) :
    ∀ index last image, start.toNat + pageBytes * (index + pages) ≤ 2 ^ 32 →
      Unrefused (writeImagePages limit start total index last pages image : Host σ Unit) := by
  induction pages with
  | zero =>
    intro index last image _
    exact .pure ()
  | succ pages ih =>
    intro index last image hspan
    have hnext : index + 1 + pages = index + (pages + 1) := by omega
    obtain ⟨a, haddress, -⟩ := pageAddress_exact (i := index) (by omega) hspan
    have hround : Unrefused (imageRound limit start a total index last (imagePage image) :
        Host σ Unit) :=
      .bind (.bind (unrefused_seek a) fun _ => unrefused_eraseIf _) fun _ =>
        .bind (unrefused_programPage a _ index _) fun _ => .note _
    rw [writeImagePages_succ, haddress, Host.ofExcept_ok, pure_bind]
    apply Unrefused.bind hround
    intro _
    exact ih (index + 1) _ _ (by rwa [hnext])

/-! ## Operations on the flash -/

theorem unrefused_writeParts {words : List Word} {start : UInt32} (erasing : Bool)
    (hspan : start.toNat + pageBytes * pageCount words.length ≤ 2 ^ 32) :
    Unrefused (writeParts limit words start erasing : Host σ Nat) := by
  have hpages : Unrefused
      (programPages limit start 0 (pagesOf (pageCount words.length) words) : Host σ Unit) := by
    apply unrefused_programPages
    rw [pagesOf_eq, List.length_map, List.length_range, Nat.zero_add]
    exact hspan
  exact .bind unrefused_clear fun _ => .bind (unrefused_seek start) fun _ =>
    .bind (unrefused_eraseIf _) fun _ => .bind hpages fun _ => .pure _

theorem unrefused_imageParts (image : Bytes) {pages : Nat} {start : UInt32}
    (hspan : start.toNat + pageBytes * pages ≤ 2 ^ 32) :
    Unrefused (imageParts limit image pages start : Host σ Nat) := by
  have hpages : Unrefused (writeImagePages limit start pages 0 0 pages image : Host σ Unit) := by
    apply unrefused_writeImagePages
    rwa [Nat.zero_add]
  exact .bind unrefused_clear fun _ => .bind (.note _) fun _ => .bind hpages fun _ => .pure _

theorem refusesFirst_write (words : List Word) (start : UInt32) (erasing : Bool) :
    RefusesFirst (write limit words start erasing : Host σ Nat) := by
  rw [write_eq]
  split
  · exact RefusesFirst.fail _
  apply RefusesFirst.of_check
  rintro ⟨⟩ hspan
  exact .of_unrefused
    (unrefused_writeParts erasing ((checkSpan_eq_ok_iff (pageCount_pos _)).1 hspan))

theorem refusesFirst_writeImage (image : Bytes) (map : FirmwareMap) (start : UInt32) :
    RefusesFirst (writeImage limit image map start : Host σ Nat) := by
  rw [writeImage_eq]
  split
  · exact RefusesFirst.fail _
  apply RefusesFirst.of_check
  rintro ⟨⟩ hspan
  exact .of_unrefused (unrefused_imageParts image ((checkSpan_eq_ok_iff map.pages_pos).1 hspan))

theorem refusesFirst_writeBootPage (message : List Word) (page : Nat) :
    RefusesFirst (writeBootPage limit message page : Host σ Nat) := by
  unfold writeBootPage
  split
  · exact RefusesFirst.fail _
  · exact refusesFirst_write _ _ true

/-- At most a sector of words whose pages fit is not refused. -/
theorem unrefused_write {words : List Word} {start : UInt32} (erasing : Bool)
    (hlength : words.length ≤ 16384)
    (hspan : start.toNat + pageBytes * pageCount words.length ≤ 2 ^ 32) :
    Unrefused (write limit words start erasing : Host σ Nat) := by
  have hbytes : ¬ sectorBytes < 4 * words.length := by
    simp only [sectorBytes]
    omega
  rw [write_eq, if_neg hbytes, checkSpan_eq_ok (pageCount_pos _) hspan, Host.ofExcept_ok, pure_bind]
  exact unrefused_writeParts erasing hspan

/-- An image at a sector boundary whose pages fit is not refused. -/
theorem unrefused_writeImage (image : Bytes) {map : FirmwareMap} {start : UInt32}
    (haligned : start.toNat % sectorBytes = 0)
    (hspan : start.toNat + pageBytes * map.pages ≤ 2 ^ 32) :
    Unrefused (writeImage limit image map start : Host σ Nat) := by
  rw [writeImage_eq, if_neg (not_not_intro haligned), checkSpan_eq_ok map.pages_pos hspan,
    Host.ofExcept_ok, pure_bind]
  exact unrefused_imageParts image hspan

end

end Flash

/-! ## At the desk -/

/-- A refusal leaves the desk as it is: the station, the bench, the history and the texts. -/
theorem CommandLine.Shell.host_refused {m : Host Bench α} (hm : RefusesFirst m) {d : Desk}
    {e : Error} (he : e.IsRefusal)
    (h : ((host m).run.run d).1 = .error (.failed { cause := .error e })) :
    ((host m).run.run d).2 = d := by
  have hrun : (host m).run.run d = (ofResult (m d.journal).1).run.run { d with
      journal := (m d.journal).2
      output := d.output ++ (((m d.journal).2.events.toList.drop d.journal.events.size).filterMap
        shown).toArray } := rfl
  rw [hrun] at h ⊢
  have hends := hm d.journal
  generalize m d.journal = run at h hends ⊢
  obtain ⟨r, j⟩ := run
  cases r with
  | ok a => cases h
  | error s =>
    cases s with
    | never => cases h
    | error e' =>
      cases h
      obtain rfl : j = d.journal := hends ⟨e, he, rfl⟩
      have hnone : d.journal.events.toList.drop d.journal.events.size = [] :=
        List.drop_eq_nil_of_le (Nat.le_of_eq Array.length_toList)
      simp only [hnone, List.filterMap_nil, Array.append_empty]
      rfl

/-! ## The operations of a station -/

namespace Station

/-- An operation that looks at its arguments, with the arguments. -/
inductive Operation
  | command (c : Command)
  | execute (c : Command)
  | query (c : Command)
  | sendFile (f : Files) (path : String) (port : Port)
  | write (words : List Word) (start : UInt32) (erasing : Bool)
  | writeImage (image : Bytes) (map : Flash.FirmwareMap) (start : UInt32)
  | storeRegisters (page : Nat)

namespace Operation

/-- What an operation answers: a number of bytes, words or pages, a response, or nothing. -/
@[reducible] def Answer : Operation → Type
  | execute _ => Unit
  | query _ => Response
  | _ => Nat

/-- Carry out an operation. -/
def run [Link σ] (s : Station) : (q : Operation) → Host σ q.Answer
  | command c => Exchange.command c
  | execute c => Exchange.execute s.options.commandTimeout c
  | query c => Exchange.query s.options.commandTimeout c
  | sendFile f path port => Station.sendFile f path port
  | write words start erasing => Flash.write s.options.flashTimeout words start erasing
  | writeImage image map start => Flash.writeImage s.options.flashTimeout image map start
  | storeRegisters page => s.storeRegisters page

theorem refusesFirst_run [Link σ] (s : Station) (q : Operation) :
    RefusesFirst (q.run s : Host σ q.Answer) := by
  cases q with
  | command c => exact refusesFirst_command c
  | execute c => exact refusesFirst_execute c
  | query c => exact refusesFirst_query c
  | sendFile f path port => exact refusesFirst_sendFile f path port
  | write words start erasing => exact Flash.refusesFirst_write words start erasing
  | writeImage image map start => exact Flash.refusesFirst_writeImage image map start
  | storeRegisters page => exact Flash.refusesFirst_writeBootPage s.message page

end Operation

/-- **A refusal leaves everything as it is.**  On every link, an operation that is refused has not
used the link and has not reported anything, and at a desk neither the registers nor anything else
has changed.  A write of at most a sector, and an image at a sector boundary, whose pages end within
the address space are never refused: every page has the address that counting gives it, which is
never the sentinel of the command encoding. -/
theorem refusal_leaves_all (s : Station) :
    (∀ (q : Operation) {σ : Type} [Link σ] (j : Journal σ) (e : Error), e.IsRefusal →
      (q.run s j).1 = .error (.error e) → (q.run s j).2 = j) ∧
    (∀ (q : Operation) (d : CommandLine.Desk) (e : Error), e.IsRefusal →
      ((CommandLine.Shell.host (q.run d.station)).run.run d).1 =
        .error (.failed { cause := .error e }) →
      ((CommandLine.Shell.host (q.run d.station)).run.run d).2 = d) ∧
    (∀ words start erasing, words.length ≤ 16384 →
      start.toNat + 256 * max 1 ((words.length + 63) / 64) ≤ 2 ^ 32 →
        (∀ {σ : Type} [Link σ] (j : Journal σ) (e : Error), e.IsRefusal →
          ((Operation.write words start erasing).run s j).1 ≠ .error (.error e)) ∧
        ∀ i < max 1 ((words.length + 63) / 64), ∃ a, Flash.pageAddress start i = .ok a ∧
          a.toNat = start.toNat + 256 * i ∧ a ≠ 0xFFFFFFFF) ∧
    ∀ image (map : Flash.FirmwareMap) start, start.toNat % 65536 = 0 →
      start.toNat + 256 * map.pages ≤ 2 ^ 32 →
        (∀ {σ : Type} [Link σ] (j : Journal σ) (e : Error), e.IsRefusal →
          ((Operation.writeImage image map start).run s j).1 ≠ .error (.error e)) ∧
        ∀ i < map.pages, ∃ a, Flash.pageAddress start i = .ok a ∧
          a.toNat = start.toNat + 256 * i ∧ a ≠ 0xFFFFFFFF := by
  refine ⟨?_, ?_, ?_, ?_⟩
  · intro q σ _ j e he hr
    exact q.refusesFirst_run s j ⟨e, he, hr⟩
  · intro q d e he h
    exact CommandLine.Shell.host_refused (q.refusesFirst_run d.station) he h
  · intro words start erasing hlength hspan
    constructor
    · intro σ _ j e he hr
      exact Flash.unrefused_write erasing hlength hspan j ⟨e, he, hr⟩
    · intro i hi
      exact Flash.pageAddress_exact hi hspan
  · intro image map start haligned hspan
    constructor
    · intro σ _ j e he hr
      exact Flash.unrefused_writeImage image haligned hspan j ⟨e, he, hr⟩
    · intro i hi
      exact Flash.pageAddress_exact hi hspan

/-- A station before a board. -/
def fresh : CommandLine.Desk := { station := {}, journal := answering {} }

/-- There is no boot page 10.  The last page of the address space can be written, and the last
sector can hold an image. -/
theorem refusal_leaves_all_edges :
    ((Operation.storeRegisters 10).run fresh.station fresh.journal).2 = fresh.journal ∧
      ((CommandLine.Shell.host ((Operation.storeRegisters 10).run fresh.station)).run.run fresh).2 =
        fresh ∧
      ((Operation.write [7] 0xFFFFFF00 true).run fresh.station fresh.journal).1 ≠
        .error (.error (.invalidParameter (.spanPastEnd 1 0xFFFFFF00))) ∧
      ∃ a, Flash.pageAddress 0xFFFF0000 255 = .ok a ∧ a.toNat = 0xFFFFFF00 ∧ a ≠ 0xFFFFFFFF := by
  obtain ⟨hlink, hdesk, hwrite, himage⟩ := refusal_leaves_all fresh.station
  refine ⟨?_, ?_, ?_, ?_⟩
  · exact hlink (.storeRegisters 10) fresh.journal _ (.invalidPage 10) rfl
  · exact hdesk (.storeRegisters 10) fresh _ (.invalidPage 10) rfl
  · exact (hwrite [7] 0xFFFFFF00 true (by decide) (by decide)).1 fresh.journal _
      (.invalidParameter (.spanPastEnd 1 0xFFFFFF00))
  · exact (himage [] ⟨0, 0xFFFF⟩ 0xFFFF0000 (by decide) (by decide)).2 255 (by decide)

end Station

end Readout
