import Readout.Proofs.Board.Traffic
/-!
# Commands and what a board hears

A board records every command as it understood it.  The encoding keeps a name of three ASCII
characters, the parameter and the second word apart, and the board shows printable characters as
they are; so it records the command that was meant.

* `ofAscii_inj`, `ascii_ofAscii`: the word of a name tells the name, and a printable one is shown;
* `frame_eq_iff`: which commands have the same datagram;
* `commands_send`: what a board adds to its record;
* `frame_recorded`: what is recorded of a command, and which commands are sent at all.
-/

namespace Readout

/-! ## Names -/

theorem Command.isName_iff {name : String} :
    isName name = true ↔ name.toList.length = 3 ∧ ∀ c ∈ name.toList, c.toNat < 128 := by
  simp [isName]

namespace Word

/-- The characters of a name are the low bytes of its word. -/
theorem bytes_name {name : String} (h : Command.isName name = true) :
    (bytes (ofAscii name)).drop 1 = name.toList.map fun c => UInt8.ofNat c.toNat := by
  obtain ⟨hlen, hascii⟩ := Command.isName_iff.1 h
  obtain ⟨x, y, z, hxyz⟩ := List.length_eq_three.1 hlen
  have hname : name = String.ofList [x, y, z] := by rw [← hxyz, String.ofList_toList]
  rw [hxyz] at hascii ⊢
  rw [hname]
  exact bytes_ofAscii (hascii x (by simp)) (hascii y (by simp)) (hascii z (by simp))

/-- The word of a name tells the name. -/
theorem ofAscii_inj {name name' : String} (h : Command.isName name = true)
    (h' : Command.isName name' = true) (hword : ofAscii name = ofAscii name') : name = name' := by
  have hbytes := bytes_name h'
  rw [← hword, bytes_name h] at hbytes
  obtain ⟨hlen, hascii⟩ := Command.isName_iff.1 h
  obtain ⟨hlen', hascii'⟩ := Command.isName_iff.1 h'
  rw [← String.toList_inj]
  refine List.ext_getElem (hlen.trans hlen'.symm) fun i hi hi' => ?_
  have hbyte : UInt8.ofNat name.toList[i].toNat = UInt8.ofNat name'.toList[i].toNat := by
    simpa [hi, hi'] using congrArg (·[i]?) hbytes
  have hx := hascii _ (List.getElem_mem hi)
  have hy := hascii' _ (List.getElem_mem hi')
  rw [← UInt8.toNat_inj, UInt8.toNat_ofNat', UInt8.toNat_ofNat'] at hbyte
  rw [← Char.toNat_inj]
  omega

/-- A printable character is shown as it is. -/
theorem showByte_ofNat {c : Char} (h : 0x20 ≤ c.toNat ∧ c.toNat ≤ 0x7E) :
    showByte (UInt8.ofNat c.toNat) = c := by
  have hbyte : (UInt8.ofNat c.toNat).toNat = c.toNat := by
    rw [UInt8.toNat_ofNat']
    omega
  rw [showByte, hbyte, if_pos h, Char.ofNat_toNat]

/-- A name in printable characters is shown as it is. -/
theorem ascii_ofAscii {name : String} (hlen : name.toList.length = 3)
    (hprint : ∀ c ∈ name.toList, 0x20 ≤ c.toNat ∧ c.toNat ≤ 0x7E) :
    ascii (ofAscii name) = name := by
  have hname : Command.isName name = true :=
    Command.isName_iff.2 ⟨hlen, fun c hc => Nat.lt_of_le_of_lt (hprint c hc).2 (by decide)⟩
  -- no byte is zero, so none is left out
  have hall : ∀ b ∈ name.toList.map (fun c => UInt8.ofNat c.toNat), decide (b ≠ 0) = true := by
    intro b hb
    obtain ⟨c, hc, rfl⟩ := List.mem_map.1 hb
    have hrange := hprint c hc
    rw [decide_eq_true_iff, ne_eq, ← UInt8.toNat_inj, UInt8.toNat_ofNat', UInt8.toNat_zero]
    omega
  have hshown : (name.toList.map fun c => UInt8.ofNat c.toNat).map showByte = name.toList := by
    rw [List.map_map]
    conv_rhs => rw [← List.map_id name.toList]
    exact List.map_congr_left fun c hc => showByte_ofNat (hprint c hc)
  rw [ascii, bytes_name hname, List.filter_eq_self.2 hall, hshown, String.ofList_toList]

end Word

/-! ## Datagrams -/

namespace Command

variable {c c' : Command} {data data' : Bytes}

/-- The datagram of a command is its word, and the second word if there is one. -/
theorem frame_words (h : c.frame = .ok data) : isName c.name = true ∧ ∃ w, c.word = .ok w ∧
    data = Word.encode (w :: (c.second.filter (· ≠ absentWord)).toList) := by
  unfold frame words at h
  cases hword : c.word with
  | error e =>
    rw [hword] at h
    cases h
  | ok w =>
    rw [hword] at h
    cases h
    refine ⟨?_, w, rfl, rfl⟩
    unfold word at hword
    split at hword
    · assumption
    · cases hword

/-- Commands have the same datagram if they differ at most in how they say that there is no
parameter or no second word. -/
theorem frame_eq_iff (h : c.frame = .ok data) (h' : c'.frame = .ok data') :
    data = data' ↔ c.name = c'.name ∧ c.parameter.getD 0 = c'.parameter.getD 0 ∧
      c.second.filter (· ≠ absentWord) = c'.second.filter (· ≠ absentWord) := by
  obtain ⟨hname, w, hw, rfl⟩ := frame_words h
  obtain ⟨hname', w', hw', rfl⟩ := frame_words h'
  obtain ⟨hfield, hparameter⟩ := word_fields hw
  obtain ⟨hfield', hparameter'⟩ := word_fields hw'
  constructor
  · intro hdata
    have hwords := congrArg Word.decode hdata
    rw [Word.decode_encode, Word.decode_encode, List.cons.injEq] at hwords
    obtain ⟨rfl, hsecond⟩ := hwords
    refine ⟨?_, ?_, ?_⟩
    · exact Word.ofAscii_inj hname hname' (hfield.symm.trans hfield')
    · exact hparameter.symm.trans hparameter'
    · simpa using congrArg List.head? hsecond
  · rintro ⟨hsame, hsameParameter, hsameSecond⟩
    rw [word, if_pos hname, hsame, hsameParameter] at hw
    rw [word, if_pos hname', hw] at hw'
    cases hw'
    rw [hsameSecond]

/-- A command is refused exactly if its name is not three ASCII characters. -/
theorem frame_eq_error_iff : c.frame = .error (.invalidCommand c.name) ↔
    ¬ (c.name.toList.length = 3 ∧ ∀ ch ∈ c.name.toList, ch.toNat < 128) := by
  rw [← isName_iff, Bool.not_eq_true, ← words_eq_error_iff]
  unfold frame
  cases c.words <;> simp [Except.map]

end Command

/-! ## The record -/

namespace Board

@[simp] theorem commands_answer (b : Board) (port : Port) (ws : List Word) :
    (b.answer port ws).commands = b.commands := by
  unfold answer
  split <;> rfl

@[simp] theorem commands_acknowledge (b : Board) (name : String) :
    (b.acknowledge name).commands = b.commands := commands_answer b _ _

@[simp] theorem commands_takeFault (b : Board) : b.takeFault.2.commands = b.commands := by
  unfold takeFault
  cases b.fault <;> rfl

/-- What a board does for a command does not touch its record. -/
@[simp] theorem commands_obey (b : Board) (r : Received) : (b.obey r).commands = b.commands := by
  by_cases h : r.name = Command.readFlash
  · rw [obey_read h, answerRead_eq, commands_answer, commands_takeFault]
  · unfold obey
    rw [if_neg h]
    repeat' split
    all_goals simp only [commands_acknowledge]
    all_goals rfl

/-- A board records the command of a datagram as it hears it. -/
theorem commands_send {c : Command} {data : Bytes} (h : c.frame = .ok data) (b : Board) :
    (b.send commandPort data).commands = b.commands.push c.heard := by
  rw [send, if_pos rfl, takeCommand, understand_frame h]
  dsimp only
  rw [commands_obey]

end Board

/-- **A board records what was meant.**  A command whose name is three printable characters has a
datagram, and every board records it with its name, its parameter, zero if it has none, and its
second word, unless that is the one that stands for its absence.  Two commands that are sent have
the same datagram exactly if they agree in this.  All names but those of three ASCII characters are
refused. -/
theorem Command.frame_recorded :
    (∀ (c : Command) (b : Board), c.name.toList.length = 3 →
      (∀ ch ∈ c.name.toList, 0x20 ≤ ch.toNat ∧ ch.toNat ≤ 0x7E) →
        ∃ data, c.frame = .ok data ∧ (b.send commandPort data).commands = b.commands.push
          { name := c.name, parameter := c.parameter.getD 0
            second := c.second.filter (· ≠ absentWord) }) ∧
    (∀ (c c' : Command) (data data' : Bytes), c.frame = .ok data → c'.frame = .ok data' →
      (data = data' ↔ c.name = c'.name ∧ c.parameter.getD 0 = c'.parameter.getD 0 ∧
        c.second.filter (· ≠ absentWord) = c'.second.filter (· ≠ absentWord))) ∧
    ∀ c : Command, c.frame = .error (.invalidCommand c.name) ↔
      ¬ (c.name.toList.length = 3 ∧ ∀ ch ∈ c.name.toList, ch.toNat < 128) := by
  refine ⟨?_, fun c c' data data' h h' => frame_eq_iff h h', fun c => frame_eq_error_iff⟩
  intro c b hlen hprint
  have hname : isName c.name = true :=
    isName_iff.2 ⟨hlen, fun ch hch => Nat.lt_of_le_of_lt (hprint ch hch).2 (by decide)⟩
  obtain ⟨data, hframe⟩ := exists_frame hname
  refine ⟨data, hframe, ?_⟩
  rw [Board.commands_send hframe, heard, Word.ascii_ofAscii hlen hprint]

/-- The second word that stands for its absence is not recorded, and a datagram without a second
word is the same. -/
theorem Command.frame_recorded_absent : ∃ data,
    Command.frame { name := "a ?", parameter := some 255, second := some absentWord } = .ok data ∧
      Command.frame { name := "a ?", parameter := some 255 } = .ok data ∧
      (Board.send {} commandPort data).commands =
        #[{ name := "a ?", parameter := 255, second := none }] := by
  obtain ⟨hrecorded, hsame, -⟩ := Command.frame_recorded
  have hlen : "a ?".toList.length = 3 := rfl
  have hprint : ∀ ch ∈ "a ?".toList, 0x20 ≤ ch.toNat ∧ ch.toNat ≤ 0x7E := by simp
  obtain ⟨data, hframe, hcommands⟩ :=
    hrecorded { name := "a ?", parameter := some 255, second := some absentWord } {} hlen hprint
  obtain ⟨data', hframe', -⟩ :=
    hrecorded { name := "a ?", parameter := some 255 } {} hlen hprint
  have hdata : data = data' := (hsame _ _ _ _ hframe hframe').2 ⟨rfl, rfl, rfl⟩
  refine ⟨data, hframe, by rw [hdata, hframe'], ?_⟩
  rw [hcommands]
  rfl

end Readout
