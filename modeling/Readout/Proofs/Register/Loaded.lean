import Readout.CommandLine.Run
import Readout.Proofs.Ini.Documents
import Readout.Proofs.Link.Runs
import Readout.Proofs.Register.Assigned
import Readout.Proofs.Text.Utf8
/-!
# What a register file assigns

A register is assigned exactly if it is the first of its name in its block and the last line for
its name is the literal of a 16-bit value; nothing else about a register map changes.  A file that
cannot be read as text assigns nothing.

* `Gives` says that lines give a key of a section a 16-bit value, `Block.Loaded` what a block is
  after lines were loaded, and how many registers they assigned;
* `Block.load_loaded`: loading a document does what the lines say that it is made of;
* `Station.loadFile_loads`: a register file is loaded, or rejected without an effect.
-/

namespace Readout

open Text Ini

/-! ## Values -/

/-- The last line for a key of a section gives it the literal of a 16-bit value. -/
def Gives (ls : List Line) (name key : String) (value : UInt16) : Prop :=
  ∃ text, LastValue ls name key text ∧ CInteger.parse? text.toList = some (value.toNat : Int)

theorem Ini.Document.register?_eq_some_iff {d : Document} {name key : String} {value : UInt16} :
    d.register? name key = some value ↔ d.integer? name key = some (value.toNat : Int) := by
  rw [register?]
  constructor
  · intro h
    split at h
    · rename_i n hn
      split at h
      · rename_i hlt
        obtain rfl := Option.some.inj h
        rw [hn, UInt16.toNat_ofNat', Nat.mod_eq_of_lt hlt]
        rfl
      · cases h
    · cases h
  · intro h
    have hlt := value.toNat_lt
    rw [h]
    dsimp only
    rw [if_pos hlt, UInt16.ofNat_toNat]

theorem Ini.Describes.register? {ls : List Line} {d : Document} (h : Describes ls d)
    {name key : String} {value : UInt16} :
    d.register? name key = some value ↔ Gives ls name key value := by
  rw [Document.register?_eq_some_iff, Document.integer?, Option.bind_eq_some_iff]
  simp only [h.value]
  rfl

/-! ## Blocks -/

namespace Block

/-- What a block is after some lines were loaded, and how many of its registers these assigned. -/
structure Loaded (ls : List Line) (b b' : Block) (count : Nat) : Prop where
  address : b'.address = b.address
  name : b'.name = b.name
  length : b'.registers.length = b.registers.length
  assigned : ∀ i r value, b.Foremost i r → Gives ls b.name r.name value →
    b'.registers[i]? = some { r with value }
  kept : ∀ i r, b.registers[i]? = some r →
    (b.Foremost i r → ∀ value, ¬ Gives ls b.name r.name value) → b'.registers[i]? = some r
  count : ∃ places : List Nat, places.Nodup ∧ count = places.length ∧
    ∀ i, i ∈ places ↔ ∃ r value, b.Foremost i r ∧ Gives ls b.name r.name value

variable {ls : List Line} {d : Document}

/-- Keys that are pairwise different assign pairwise different registers. -/
theorem nodup_targets {b : Block} {keys : List String}
    (h : keys.Pairwise fun k k' => sameName k k' = false) :
    ((b.targets d keys).map Prod.fst).Nodup := by
  rw [List.Nodup, List.pairwise_map, targets, List.pairwise_filterMap]
  refine h.imp fun {key key'} hkeys t ht t' ht' heq => ?_
  obtain ⟨i, value⟩ := t
  obtain ⟨j, value'⟩ := t'
  obtain rfl : i = j := heq
  obtain ⟨r, hr, hname⟩ := foremost_of_slot? (target?_eq_some_iff.1 ht).1
  obtain ⟨s, hs, hname'⟩ := foremost_of_slot? (target?_eq_some_iff.1 ht').1
  rw [← hr.unique hs, sameName_congr hname] at hname'
  rw [hkeys] at hname'
  cases hname'

/-- A document assigns what the lines say that it is made of. -/
theorem load_loaded (h : Describes ls d) (b : Block) :
    Loaded ls b (b.load d).1 (b.load d).2 := by
  have hview := view_load (g := Register.reset) Register.ignoresValue_reset d b
  refine ⟨congrArg (·.1) hview, congrArg (·.2.1) hview, ?_, fun i r value hr hvalue => ?_,
    fun i r hr hnot => ?_, ?_⟩
  · have hlength := congrArg (·.2.2.length) hview
    simpa [view] using hlength
  · exact getElem?_load hr (h.register?.2 hvalue)
  · rw [← hr]
    refine getElem?_load_of_forall fun s value hs hvalue => ?_
    obtain rfl : s = r := Option.some.inj (hs.here.symm.trans hr)
    exact hnot hs value (h.register?.1 hvalue)
  · refine ⟨(b.targets d (d.keys b.name)).map Prod.fst, ?_, ?_, fun i => ?_⟩
    · refine nodup_targets ?_
      rw [h.keys]
      exact pairwise_firstSpellings _
    · rw [load_targets, List.length_map]
    · rw [List.mem_map]
      constructor
      · rintro ⟨⟨j, value⟩, hmem, rfl⟩
        obtain ⟨r, hr, hvalue⟩ := mem_targets_iff.1 hmem
        exact ⟨r, value, hr, h.register?.1 hvalue⟩
      · rintro ⟨r, value, hr, hvalue⟩
        exact ⟨(i, value), mem_targets_iff.2 ⟨r, hr, h.register?.2 hvalue⟩, rfl⟩

/-- What was assigned once is not changed by assigning it again. -/
theorem load_load (d : Document) (b : Block) : ((b.load d).1.load d).1 = (b.load d).1 := by
  have hview := view_load (g := Register.name) (fun _ _ => rfl) d b
  have hname : (b.load d).1.name = b.name := congrArg (·.2.1) hview
  have hregisters : ((b.load d).1.load d).1.registers = (b.load d).1.registers := by
    refine List.ext_getElem? fun i => ?_
    by_cases hassigned : ∃ r value, (b.load d).1.Foremost i r ∧
        d.register? (b.load d).1.name r.name = some value
    · obtain ⟨r, value, hr, hvalue⟩ := hassigned
      -- the register that has the place now had it before
      have hslot := hr.slot?
      rw [slot?_of_view hview] at hslot
      obtain ⟨s, hs, hsame⟩ := foremost_of_slot? hslot
      have hbefore := hvalue
      rw [hname, ← d.register?_congr b.name hsame] at hbefore
      have hr' : r = { s with value } :=
        Option.some.inj (hr.here.symm.trans (getElem?_load hs hbefore))
      rw [getElem?_load hr hvalue, hr.here, hr']
    · refine getElem?_load_of_forall fun r value hr hvalue => ?_
      exact hassigned ⟨r, value, hr, hvalue⟩
  have hagain := view_load (g := Register.name) (fun _ _ => rfl) d (b.load d).1
  have haddress : ((b.load d).1.load d).1.address = (b.load d).1.address := congrArg (·.1) hagain
  have hname' : ((b.load d).1.load d).1.name = (b.load d).1.name := congrArg (·.2.1) hagain
  generalize ((b.load d).1.load d).1 = c at *
  cases c
  simp only at haddress hname' hregisters
  rw [haddress, hname', hregisters]

end Block

/-! ## Malformed lines -/

/-- Malformed lines do not matter to the sections of a document. -/
theorem Ini.Document.sections_ofLines_filter (ls : List Line) :
    (ofLines (ls.filter (· ≠ .malformed))).sections = (ofLines ls).sections := by
  have hpush : ∀ (ls : List Line) (t t' : Draft) (n n' : Nat), t.current = t'.current →
      t.document.sections = t'.document.sections →
      (t.pushAll n (ls.filter (· ≠ .malformed))).document.sections =
        (t'.pushAll n' ls).document.sections := by
    intro ls
    induction ls with
    | nil => exact fun _ _ _ _ _ hsections => hsections
    | cons l ls ih =>
      intro t t' n n' hcurrent hsections
      rw [Draft.pushAll]
      cases l with
      | malformed => exact ih t _ n _ hcurrent hsections
      | nothing => exact ih t t' _ _ hcurrent hsections
      | header name =>
        refine ih _ _ _ _ rfl ?_
        exact congrArg (openSection name) hsections
      | assignment key value =>
        refine ih _ _ _ _ hcurrent ?_
        change assignIn t.current key value t.document.sections =
          assignIn t'.current key value t'.document.sections
        rw [hcurrent, hsections]
  exact hpush ls {} {} 1 1 rfl rfl

theorem RegisterMap.load_congr {d d' : Document} (h : d.sections = d'.sections) (m : RegisterMap) :
    m.load d = m.load d' := by
  cases d
  cases d'
  cases h
  rfl

/-! ## Register maps -/

/-- What a register map is after a text was loaded. -/
structure RegisterMap.Loaded (text : List Char) (m m' : RegisterMap) : Prop where
  blocks : List.Forall₂
    (fun b b' => b.Loaded (linesOf text) b' (b.load (Document.parse text)).2) m.blocks m'.blocks
  /-- Loading the text again changes nothing more. -/
  again : m'.load (Document.parse text) = m'
  /-- Without its malformed lines the text does the same. -/
  malformed : m' = m.load (Document.ofLines ((linesOf text).filter (· ≠ .malformed)))

theorem RegisterMap.load_loaded (text : List Char) (m : RegisterMap) :
    m.Loaded text (m.load (Document.parse text)) where
  blocks := by
    rw [load, List.forall₂_map_right_iff, List.forall₂_same]
    exact fun b _ => b.load_loaded (Document.ofLines_describes (linesOf text))
  again := by
    rw [load, load, List.map_map]
    exact congrArg _ (List.map_congr_left fun b _ => b.load_load (Document.parse text))
  malformed := load_congr (Document.sections_ofLines_filter (linesOf text)).symm m

/-! ## Files -/

section Files

variable {f : Files} {path : String}

theorem Files.readText_eq_ok_iff {text : List Char} : f.readText path = .ok text ↔
    ∃ c, f.read path = .ok c ∧ c.bytes = Utf8.encode text := by
  rw [readText]
  cases f.read path with
  | error e => simp [bind, Except.bind]
  | ok c =>
    simp only [bind, Except.bind, Except.ok.injEq, exists_eq_left', ← Utf8.decode?_eq_some_iff]
    cases Utf8.decode? c.bytes <;> simp

theorem Files.readText_notUtf8 {c : Content} (hread : f.read path = .ok c)
    (h : ∀ text, c.bytes ≠ Utf8.encode text) : f.readText path = .error .notUtf8 := by
  have hnone : Utf8.decode? c.bytes = none :=
    Option.eq_none_iff_forall_ne_some.2 fun text htext => h text (Utf8.decode?_eq_some_iff.1 htext)
  rw [readText, hread]
  simp only [bind, Except.bind, hnone]

theorem Files.readText_error {e : IoError} (h : f.read path = .error e) :
    f.readText path = .error e := by
  rw [readText, h]
  rfl

end Files

/-! ## Subcommands -/

namespace CommandLine

/-- A subcommand that cannot load a register file leaves everything as it is. -/
theorem loadRegisters_error {d : Desk} {path : String} {e : Error}
    (h : d.station.loadFile d.journal.link.files path = .error e) :
    (loadRegisters path).run.run d =
      (.error (.failed { trying := ["failed to read " ++ path], cause := .error e }), d) := by
  have hstation : Shell.station.run.run d = (.ok d.station, d) := rfl
  have hfiles : Shell.files.run.run d = (.ok d.journal.link.files, d) := rfl
  have hload : (Shell.trying ("failed to read " ++ path)
      (Shell.ofExcept (d.station.loadFile d.journal.link.files path))).run.run d =
        (.error (.failed { trying := ["failed to read " ++ path], cause := .error e }), d) := by
    rw [h]
    rfl
  rw [loadRegisters, run_bind_ok hstation, run_bind_ok hfiles, run_bind_error hload]

end CommandLine

/-! ## The outcome -/

/-- **What loading a register file does.**  A text assigns the registers that its lines give values,
and only these; the answer is the number of its first malformed line.  A file that cannot be read,
or is no text, is rejected, and nothing is assigned. -/
theorem Station.loadFile_loads (s : Station) (f : Files) (path : String) :
    (∀ text (m : RegisterMap), m.Loaded text (m.load (Document.parse text)) ∧
      (Document.parse text).firstMalformed =
        ((linesOf text).findIdx? (· == .malformed)).map (· + 1)) ∧
    (∀ c text, f.read path = .ok c → c.bytes = Utf8.encode text →
      s.loadFile f path = .ok ((Document.parse text).firstMalformed,
        { s with registers := s.registers.load (Document.parse text) })) ∧
    (∀ name, f.target path = .file name → f.get? name = none →
      s.loadFile f path = .error (.io .noSuchFile)) ∧
    (∀ e, f.read path = .error e → s.loadFile f path = .error (.io e)) ∧
    (∀ c, f.read path = .ok c → (∀ text, c.bytes ≠ Utf8.encode text) →
      s.loadFile f path = .error (.io .notUtf8)) ∧
    ∀ (d : CommandLine.Desk) e, d.station = s → d.journal.link.files = f →
      s.loadFile f path = .error e →
        (CommandLine.loadRegisters path).run.run d =
          (.error (.failed { trying := ["failed to read " ++ path], cause := .error e }), d) := by
  have herror : ∀ e, f.read path = .error e → s.loadFile f path = .error (.io e) := by
    intro e hread
    rw [loadFile, Files.readText_error hread]
  refine ⟨fun text m => ⟨m.load_loaded text, ?_⟩, fun c text hread htext => ?_,
    fun name htarget hget => ?_, herror, fun c hread hnone => ?_, ?_⟩
  · exact (Document.ofLines_describes (linesOf text)).malformed
  · rw [loadFile, Files.readText_eq_ok_iff.2 ⟨c, hread, htext⟩]
  · refine herror _ ?_
    rw [Files.read, Files.open?, htarget]
    dsimp only
    rw [hget]
    rfl
  · rw [loadFile, Files.readText_notUtf8 hread hnone]
  · rintro d e rfl rfl hload
    exact CommandLine.loadRegisters_error hload

/-- A register file, the third line of which is malformed. -/
def skipsFile : String := "[ADCConfigBlock]\nADC_CDS_NSkips = 4\n= 5\n"

/-- A directory with a register file and a file that is no text. -/
def mixedFiles : Files where
  entries := [("skips.ini", { data := Utf8.encode skipsFile.toList }),
    ("noise.ini", { data := [0xFF] })]

theorem Station.loadFile_loads_mixed :
    ({} : Station).loadFile mixedFiles "skips.ini" = .ok (some 3,
        { registers := RegisterMap.standard.load (Document.parse skipsFile.toList) }) ∧
      ({} : Station).loadFile mixedFiles "noise.ini" = .error (.io .notUtf8) ∧
      ({} : Station).loadFile mixedFiles "other.ini" = .error (.io .noSuchFile) := by
  have hskips : mixedFiles.read "skips.ini" = .ok { data := Utf8.encode skipsFile.toList } := by
    decide +kernel
  have hnoise : mixedFiles.read "noise.ini" = .ok { data := [0xFF] } := by decide +kernel
  have hother : mixedFiles.read "other.ini" = .error .noSuchFile := by decide +kernel
  have hnone : Utf8.decode? ({ data := [0xFF] } : Content).bytes = none := by decide +kernel
  have hmalformed : (Document.parse skipsFile.toList).firstMalformed = some 3 := by decide +kernel
  refine ⟨?_, ?_, ?_⟩
  · obtain ⟨-, hload, -⟩ := loadFile_loads {} mixedFiles "skips.ini"
    rw [hload _ skipsFile.toList hskips (List.append_nil _), hmalformed]
  · obtain ⟨-, -, -, -, hload, -⟩ := loadFile_loads {} mixedFiles "noise.ini"
    refine hload _ hnoise fun text htext => ?_
    have hread := Utf8.decode?_eq_some_iff.2 htext
    rw [hnone] at hread
    cases hread
  · obtain ⟨-, -, -, hload, -⟩ := loadFile_loads {} mixedFiles "other.ini"
    exact hload _ hother

/-- The last line of a key counts, in any case and in any of the sections of the name, and a
register whose last line has no 16-bit value keeps its own. -/
example : (Block.load (Document.parse
      "[ADC]\nSkips = 1\nTap = 3\n[adc]\nSKIPS : 0x10 ;\ntap = 65536".toList)
    ⟨0x20, "ADC", [.atDefault 4 0 "Tap" "", .atDefault 1 4 "Skips" ""]⟩) =
      (⟨0x20, "ADC", [.atDefault 4 0 "Tap" "", ⟨4, 16, 1, "Skips", ""⟩]⟩, 1) := by
  decide +kernel

end Readout
