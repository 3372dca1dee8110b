import Readout.Bench.Basic
import Readout.Proofs.Link.Runs
import Readout.Proofs.Register.Replay
import Readout.Station
/-!
# A board that is configured again and again

A station that sends only the registers away from their defaults says nothing of a register that
went back to its default.  So the board keeps for it what it was last sent: after any series of
changes and messages, a register away from its default is on the board what it is in the map, and a
register at its default is what the last message with a changed value said, if there was one.

* `Station.Usage` is a station in use, with what it sent so far;
* `Usage.Followed` ties the board to what was sent, and every call keeps it;
* `sendRegisters_replay` is what the board holds after any message;
* `sendRegisters_unsent`: a register that went back to its default and is not so on the board.
-/

namespace Readout

/-! ## Maps that differ in values -/

namespace RegisterMap

/-- What is seen of registers after a reset shows where they are. -/
theorem view_address_of_reset {m m' : RegisterMap}
    (h : m'.view Register.reset = m.view Register.reset) :
    m'.view Register.address = m.view Register.address := by
  have hview : ∀ m : RegisterMap, (m.view Register.reset).map
      (fun v => (v.1, v.2.1, v.2.2.map Register.address)) = m.view Register.address := by
    intro m
    simp only [view, Block.view, List.map_map, Function.comp_def]
    rfl
  rw [← hview m', h, hview]

/-- Maps that differ in values have the same registers in the same places. -/
theorem exists_located {m m' : RegisterMap} (h : m'.view Register.reset = m.view Register.reset)
    {p : Located} (hp : p ∈ m'.located) :
    ∃ q ∈ m.located, q.block = p.block ∧ q.register.reset = p.register.reset := by
  obtain ⟨b', hb', hblock, hr⟩ := mem_located.1 hp
  obtain ⟨hr, hnamed⟩ := List.mem_filter.1 hr
  have hmem : b'.view Register.reset ∈ m.view Register.reset := by
    rw [← h]
    exact List.mem_map_of_mem hb'
  obtain ⟨b, hb, hview⟩ := List.mem_map.1 hmem
  have haddress : b.address = b'.address := congrArg (·.1) hview
  have hregisters : b.registers.map Register.reset = b'.registers.map Register.reset :=
    congrArg (·.2.2) hview
  have hreset : p.register.reset ∈ b.registers.map Register.reset := by
    rw [hregisters]
    exact List.mem_map_of_mem hr
  obtain ⟨r, hrmem, hrreset⟩ := List.mem_map.1 hreset
  have hunused : r.isUnused = p.register.isUnused := Register.isUnused_of_reset hrreset
  refine ⟨⟨b.address, r⟩, mem_located.2 ⟨b, hb, rfl, ?_⟩, by rw [haddress, hblock], hrreset⟩
  exact List.mem_filter.2 ⟨hrmem, by rw [hunused]; exact hnamed⟩

/-- The value of the register at a place, if it is away from its default. -/
def changed? (m : RegisterMap) (block sub : UInt8) : Option UInt16 :=
  (m.located.find? fun p => p.IsAt block sub ∧ p.register.value ≠ p.register.default).map
    (·.register.value)

theorem changed?_eq {m : RegisterMap} (h : m.Placed) {p : Located} (hp : p ∈ m.located) :
    m.changed? p.block p.register.address =
      if p.register.value = p.register.default then none else some p.register.value := by
  unfold changed?
  cases hfind : m.located.find?
      (fun q => q.IsAt p.block p.register.address ∧ q.register.value ≠ q.register.default) with
  | none =>
    have hdefault : p.register.value = p.register.default := by
      have hnot := List.find?_eq_none.1 hfind p hp
      by_contra hne
      exact hnot (decide_eq_true ⟨⟨rfl, rfl⟩, hne⟩)
    rw [if_pos hdefault]
    rfl
  | some q =>
    have hfound : q.IsAt p.block p.register.address ∧
        q.register.value ≠ q.register.default := by
      simpa using List.find?_some hfind
    have hq := h.eq_of_isAt hp (List.mem_of_find?_eq_some hfind) hfound.1
    rw [hq] at hfound ⊢
    rw [if_neg hfound.2]
    rfl

/-- A board at the defaults of a map. -/
def defaults (m : RegisterMap) : RegisterFile := fun block sub =>
  ((m.located.find? (·.IsAt block sub)).map (·.register.default)).getD 0

theorem Placed.atDefaults {m : RegisterMap} (h : m.Placed) : m.defaults.AtDefaults m := by
  intro p hp
  unfold defaults
  cases hfind : m.located.find? (·.IsAt p.block p.register.address) with
  | none => exact absurd (decide_eq_true ⟨rfl, rfl⟩) (List.find?_eq_none.1 hfind p hp)
  | some q =>
    have hat : q.IsAt p.block p.register.address := by simpa using List.find?_some hfind
    rw [h.eq_of_isAt hp (List.mem_of_find?_eq_some hfind) hat]
    rfl

theorem placed_standard : standard.Placed := placed_of_isMade isMade_standard addresses_standard

end RegisterMap

/-! ## What was sent -/

/-- The register words that an event carries to the board. -/
def Event.configWords : Event → List Word
  | .sent port data (.ok _) => if port = configPort then Word.decode data else []
  | _ => []

/-- The register words of a history. -/
def configWords (events : Array Event) : List Word := events.toList.flatMap Event.configWords

theorem configWords_push (events : Array Event) (e : Event) :
    configWords (events.push e) = configWords events ++ e.configWords := by
  simp [configWords]

namespace Station

/-- A call on the registers of a station. -/
inductive RegisterCall
  | set (block name : String) (value : UInt16)
  | reset
  | setSkips (n : UInt16)
  | loadFile (files : Files) (path : String)
  | send

/-- A station in use over a link. -/
structure Usage (σ : Type) where
  station : Station
  journal : Journal σ
  /-- The registers at each message that was sent, in order. -/
  sent : List RegisterMap := []

variable {σ : Type}

/-- The station with other registers, or as it is if the call was rejected. -/
def Usage.change (u : Usage σ) (r : Except Error RegisterMap) : Usage σ :=
  { u with station.registers := u.station.registers.orKeep r }

/-! ## What the board holds -/

/-- The board holds, in every register, the last changed value that it was sent. -/
structure Usage.Followed (f : RegisterFile) (u : Usage σ) : Prop where
  short : u.station.options.writeAll = false
  shape : u.station.registers.view Register.reset = RegisterMap.standard.view Register.reset
  board : ∀ p ∈ RegisterMap.standard.located,
    f.replay (configWords u.journal.events) p.block p.register.address =
      (u.sent.filterMap (·.changed? p.block p.register.address)).getLast?.getD p.register.default

variable {f : RegisterFile} {u : Usage σ}

theorem Usage.Followed.change (h : u.Followed f) {r : Except Error RegisterMap}
    (hr : ∀ m', r = .ok m' →
      m'.view Register.reset = u.station.registers.view Register.reset) :
    (u.change r).Followed f where
  short := h.short
  shape := (RegisterMap.view_orKeep hr).trans h.shape
  board := h.board

/-- After a message a register has its value if that is away from the default, and otherwise what
it had before. -/
theorem Usage.Followed.replay_message (h : u.Followed f) {p : Located}
    (hp : p ∈ u.station.registers.located) :
    f.replay (configWords u.journal.events ++ u.station.message) p.block p.register.address =
      if p.register.value = p.register.default then
        (u.sent.filterMap (·.changed? p.block p.register.address)).getLast?.getD p.register.default
      else p.register.value := by
  have hplaced : u.station.registers.Placed :=
    RegisterMap.placed_standard.of_view (RegisterMap.view_address_of_reset h.shape)
  obtain ⟨q, hq, hblock, hreset⟩ := RegisterMap.exists_located h.shape hp
  obtain ⟨haddress, hdefault, -, -⟩ := Register.fields_of_reset hreset
  have hboard := h.board q hq
  rw [hblock, haddress, hdefault] at hboard
  rw [RegisterFile.replay_append, Station.message, h.short,
    RegisterFile.replay_words hplaced _ false hp, hboard]
  have hunused := RegisterMap.isUnused_of_located hp
  by_cases hvalue : p.register.value = p.register.default <;>
    simp [Register.isSent, hunused, hvalue]

/-! ## Calls -/

variable [Link σ]

def Usage.call (u : Usage σ) : RegisterCall → Usage σ
  | .set block name value => u.change (u.station.registers.set block name value)
  | .reset => u.change (.ok u.station.registers.reset)
  | .setSkips n => u.change (u.station.registers.setSkips n)
  | .loadFile files path => u.change ((u.station.loadFile files path).map (·.2.registers))
  | .send =>
    match u.station.sendRegisters u.journal with
    | (.ok _, journal) => { u with journal, sent := u.sent ++ [u.station.registers] }
    | (.error _, journal) => { u with journal }

/-- A station after a series of calls, however they ended. -/
def Usage.calls (u : Usage σ) (cs : List RegisterCall) : Usage σ := cs.foldl call u

/-- A message that was sent is in the history, and one that was not is not. -/
theorem configWords_sendRegisters (s : Station) (j : Journal σ) :
    configWords (s.sendRegisters j).2.events =
      configWords j.events ++ if (s.sendRegisters j).1.isOk then s.message else [] := by
  unfold sendRegisters
  rw [Host.send_apply]
  rcases Link.send configPort (Word.encode s.message) j.link with ⟨reply, link⟩
  cases reply with
  | done n =>
    simp only [configWords_push, Event.configWords, if_true, Word.decode_encode]
    rfl
  | failed cause =>
    simp only [configWords_push, Event.configWords]
    rfl
  | never => exact (List.append_nil _).symm

theorem Usage.Followed.send (h : u.Followed f) : (u.call .send).Followed f := by
  have hwords := configWords_sendRegisters u.station u.journal
  unfold Usage.call
  rcases hrun : u.station.sendRegisters u.journal with ⟨r, journal⟩
  rw [hrun] at hwords
  cases r with
  | error e =>
    refine ⟨h.short, h.shape, fun p hp => ?_⟩
    simp only [Except.isOk, Except.toBool, Bool.false_eq_true, if_false, List.append_nil] at hwords
    rw [hwords]
    exact h.board p hp
  | ok n =>
    refine ⟨h.short, h.shape, fun p hp => ?_⟩
    have hplaced : u.station.registers.Placed :=
      RegisterMap.placed_standard.of_view (RegisterMap.view_address_of_reset h.shape)
    obtain ⟨q, hq, hblock, hreset⟩ := RegisterMap.exists_located h.shape.symm hp
    obtain ⟨haddress, hdefault, -, -⟩ := Register.fields_of_reset hreset
    have hmessage := h.replay_message hq
    have hchanged := RegisterMap.changed?_eq hplaced hq
    rw [hblock, haddress, hdefault] at hmessage hchanged
    simp only [Except.isOk, Except.toBool, if_true] at hwords
    rw [hwords, hmessage, List.filterMap_append, List.filterMap_cons, hchanged]
    split <;> simp

theorem Usage.Followed.call (h : u.Followed f) (c : RegisterCall) : (u.call c).Followed f := by
  cases c with
  | set block name value =>
    exact h.change fun _ hm => RegisterMap.view_set Register.ignoresValue_reset hm
  | reset =>
    refine h.change fun m' hm => ?_
    cases hm
    exact RegisterMap.view_reset Register.ignoresValue_reset _
  | setSkips n => exact h.change fun _ hm => RegisterMap.view_set Register.ignoresValue_reset hm
  | loadFile files path =>
    refine h.change fun m' hm => ?_
    unfold loadFile at hm
    cases htext : files.readText path with
    | error e =>
      rw [htext] at hm
      cases hm
    | ok text =>
      rw [htext] at hm
      cases hm
      exact RegisterMap.view_load Register.ignoresValue_reset _ _
  | send => exact h.send

theorem Usage.Followed.calls (h : u.Followed f) (cs : List RegisterCall) :
    (u.calls cs).Followed f := by
  induction cs generalizing u with
  | nil => exact h
  | cons c cs ih => exact ih (h.call c)

/-- **What a board holds that is configured again and again with short messages.**  After a message
a register away from its default is what it is in the map; one at its default is what the last
earlier message with a changed value said, and at its default if there was none. -/
theorem sendRegisters_replay {s : Station} (hstandard : s.registers = .standard)
    (hshort : s.options.writeAll = false) {f : RegisterFile} (hf : f.AtDefaults .standard)
    (link : σ) (cs : List RegisterCall) {n : Nat} {j : Journal σ}
    (hsend : (Usage.calls ⟨s, { link }, []⟩ cs).station.sendRegisters
      (Usage.calls ⟨s, { link }, []⟩ cs).journal = (.ok n, j)) :
    ∀ p ∈ (Usage.calls ⟨s, { link }, []⟩ cs).station.registers.located,
      f.replay (configWords j.events) p.block p.register.address =
        if p.register.value = p.register.default then
          ((Usage.calls ⟨s, { link }, []⟩ cs).sent.filterMap
            (·.changed? p.block p.register.address)).getLast?.getD p.register.default
        else p.register.value := by
  intro p hp
  have hstart : (Usage.mk s { link } [] : Usage σ).Followed f :=
    ⟨hshort, by rw [hstandard], hf⟩
  have hwords := configWords_sendRegisters (Usage.calls ⟨s, { link }, []⟩ cs).station
    (Usage.calls ⟨s, { link }, []⟩ cs).journal
  rw [hsend] at hwords
  simp only [Except.isOk, Except.toBool, if_true] at hwords
  rw [hwords]
  exact (hstart.calls cs).replay_message hp

/-- A station at the defaults, on a bench, that sends short messages. -/
def shortUsage : Usage Bench := ⟨{ options := { writeAll := false } }, { link := {} }, []⟩

/-- The number of skips is changed and sent, and then it is set back. -/
def setBack : List RegisterCall := [.setSkips 5, .send, .setSkips 1]

/-- The register of the number of skips, at its default. -/
def skipsAtDefault : Located :=
  ⟨0x20, .atDefault 1 0x04 Tables.adcSkips "Number of skips to perform CDS over"⟩

theorem sendRegisters_replay_setBack :
    ∃ n j, (shortUsage.calls setBack).station.sendRegisters (shortUsage.calls setBack).journal =
        (.ok n, j) ∧
      RegisterMap.standard.defaults.replay (configWords j.events) 0x20 0x04 = 5 := by
  have hmem : skipsAtDefault ∈ (shortUsage.calls setBack).station.registers.located := by
    decide +kernel
  have hsent : (shortUsage.calls setBack).sent.filterMap (·.changed? 0x20 0x04) = [5] := by
    decide +kernel
  have hok : ((shortUsage.calls setBack).station.sendRegisters
      (shortUsage.calls setBack).journal).1.isOk = true := by decide +kernel
  rcases hrun : (shortUsage.calls setBack).station.sendRegisters
    (shortUsage.calls setBack).journal with ⟨r, j⟩
  rw [hrun] at hok
  cases r with
  | error e => cases hok
  | ok n =>
    refine ⟨n, j, rfl, ?_⟩
    have hboard := sendRegisters_replay (s := shortUsage.station) rfl rfl
      RegisterMap.placed_standard.atDefaults shortUsage.journal.link setBack hrun _ hmem
    replace hboard : RegisterMap.standard.defaults.replay (configWords j.events) 0x20 0x04 =
        if (1 : UInt16) = 1 then
          ((shortUsage.calls setBack).sent.filterMap (·.changed? 0x20 0x04)).getLast?.getD 1
        else 1 := hboard
    rw [hboard, if_pos rfl, hsent]
    rfl

/-- A register that went back to its default is not so on the board after the next message. -/
theorem sendRegisters_unsent :
    (shortUsage.calls (setBack ++ [.send])).sent.length = 2 ∧
    skipsAtDefault ∈ (shortUsage.calls (setBack ++ [.send])).station.registers.located ∧
    RegisterMap.standard.defaults.replay
        (configWords (shortUsage.calls (setBack ++ [.send])).journal.events)
        skipsAtDefault.block skipsAtDefault.register.address = 5 ∧
    skipsAtDefault.register.value = 1 :=
  ⟨by decide +kernel, by decide +kernel, by decide +kernel, rfl⟩

end Station

end Readout
