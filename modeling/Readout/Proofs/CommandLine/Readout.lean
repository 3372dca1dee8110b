import Readout.CommandLine.Run
import Readout.Proofs.Capture.Meanwhile
import Readout.Proofs.Capture.Received
import Readout.Proofs.Capture.Watched
/-!
# Reading out an image

The subcommand for images works out how many words come, opens a capture for a frame of as many
pixels, and watches the count of the capture.  Whatever arrives and whenever it does, the watch ends
at the first second at which all words have come or at which none has come for longer than the
limit.  Then the capture is closed, and only then the header is written.

* `Shape.storesAll`: an image capture of a frame drops no word of as many as it has pixels;
  `pixels_frame`: the frame that is asked for has as many as there are words;
* `run_eq` cuts the subcommand in three, `start`, the watch and `finish`, and `start_ok` is what has
  happened before the watch; the last thing before the capture is launched is a sleep, so that the
  seconds of the watch are on time (`start_onGrid`);
* `readOut_isLeast`, `readOut_never` are the watch at a desk, over whatever is due there;
* `finish_closed`: nothing is written unless the capture was closed;
* `readout_ends` puts these together.
-/

namespace Readout

/-! ## The frame -/

/-- The rows divide the words of a readout, since every pixel of a row gives as many. -/
theorem RegisterMap.dvd_wordsToRead {m : RegisterMap} {rows cols skips words : Nat}
    (h : m.wordsToRead rows cols skips = .ok words) : rows ∣ words := by
  have hframe : ∀ p : Prop, [Decidable p] →
      rows ∣ if p then rows * cols * skips else rows * cols := by
    intro p _
    split
    · exact Nat.dvd_mul_right_of_dvd (Nat.dvd_mul_right rows cols) skips
    · exact Nat.dvd_mul_right rows cols
  unfold wordsToRead at h
  obtain ⟨adc, -, h⟩ := of_except_bind_ok h
  obtain ⟨boardSkips, -, h⟩ := of_except_bind_ok h
  obtain ⟨output, -, h⟩ := of_except_bind_ok h
  split at h
  · obtain ⟨samples, -, h⟩ := of_except_bind_ok h
    cases h
    exact Nat.dvd_mul_right_of_dvd (hframe _) _
  · cases h
    exact hframe _

namespace Capture

/-- An image capture of a frame on a free port stores every word of a stream of at most so many
words. -/
def Shape.StoresAll (shape : Shape) (words : Nat) : Prop :=
  ∀ (b : Bench) (path name : String) (port : Port), ".fits".toList <:+: path.toList →
    b.files.target path = .file name →
    (port = 0 ∨ (b.bound.contains port || b.captures.listensOn port) = false) →
    ∃ b₀, b.launch true path port shape = .ok (b.captures.size, b₀) ∧
      ∀ datagrams b₁, Receives b.captures.size name b₀ datagrams b₁ →
        (wordsOf (datagrams.map (·.take maxDatagram))).length ≤ words →
        ∃ b₂ c, b₁.closeCapture b.captures.size =
            .ok ((wordsOf (datagrams.map (·.take maxDatagram))).length, b₂) ∧
          b₂.files.get? name = some c ∧
          ∀ i w, (wordsOf (datagrams.map (·.take maxDatagram)))[i]? = some w →
            (c.bytes.drop (shape.blank.data.length + i * Image.pixelBytes)).take
              Image.pixelBytes = w.bytes

theorem length_wordsOf (datagrams : List Bytes) :
    (wordsOf datagrams).length = (datagrams.map fun data => data.length / 4).sum := by
  rw [wordsOf, List.length_flatMap]
  simp only [Word.length_decode]

theorem Shape.storesAll {shape : Shape} (hrows : 0 < shape.rows) (hcols : 0 < shape.cols) :
    shape.StoresAll (shape.rows.toNat * shape.cols.toNat) := by
  intro b path name port hname htarget hport
  obtain ⟨b₀, hlaunch, hclose⟩ := launch_stored b true hport fun _ => htarget
  refine ⟨b₀, hlaunch, fun datagrams b₁ hrun hroom => ?_⟩
  obtain ⟨b₂, hcount, hstored⟩ := hclose datagrams b₁ hrun
  obtain ⟨-, c, hget, -, -, hpixel⟩ := hstored.image hname ⟨hrows, hcols⟩ rfl
  have hlength : (wordsOf (datagrams.map (·.take maxDatagram))).length =
      (datagrams.map fun data => (data.take maxDatagram).length / 4).sum := by
    rw [length_wordsOf, List.map_map]
    rfl
  refine ⟨b₂, c, ?_, hget, fun i w hi => ?_⟩
  · rw [hcount, hlength]
  · obtain ⟨hlt, -⟩ := List.getElem?_eq_some_iff.1 hi
    have hin : i < shape.pixels := by
      rw [pixels, Nat.mul_comm]
      exact Nat.lt_of_lt_of_le hlt hroom
    rw [hpixel i hin, List.getD_eq_getElem?_getD, hi]
    rfl

/-- A capture that was launched runs, and nothing has arrived for it. -/
theorem launched {b b' : Bench} {images : Bool} {path : String} {port : Port} {shape : Shape}
    {id : Nat} (h : b.launch images path port shape = .ok (id, b')) :
    b'.captures.isValid id = true ∧ b'.captures.words? id = some 0 := by
  obtain ⟨output, files, -, rfl, rfl⟩ := launch_ok h
  constructor
  · rw [Table.isValid_launch]
    simp
  · rw [Table.words?, Table.launch, Table.size, List.getElem?_concat_length]
    rfl

end Capture

namespace CommandLine

open Capture Shell

/-- The frame of a readout of so many words. -/
def ImageRequest.frame (r : ImageRequest) (words : Nat) : Capture.Shape where
  rows := r.rows
  cols := UInt32.ofNat (words / r.rows.toNat)

/-- The frame has as many pixels as there are words. -/
theorem ImageRequest.pixels_frame {r : ImageRequest} {words : Nat} (hwords : r.rows.toNat ∣ words)
    (hwide : words / r.rows.toNat < UInt32.size) :
    (r.frame words).rows.toNat * (r.frame words).cols.toNat = words := by
  show r.rows.toNat * (UInt32.ofNat (words / r.rows.toNat)).toNat = words
  rw [UInt32.toNat_ofNat_of_lt' hwide, Nat.mul_div_cancel' hwords]

/-- A frame is opened if its width is a number of 32 bits. -/
theorem ImageRequest.shape_run (r : ImageRequest) (words : Nat) (d : Desk) :
    (words / r.rows.toNat < UInt32.size →
      (r.shape words).run.run d = (.ok (r.frame words), d)) ∧
    ∀ shape d', (r.shape words).run.run d = (.ok shape, d') →
      shape = r.frame words ∧ words / r.rows.toNat < UInt32.size ∧ d' = d := by
  unfold ImageRequest.shape
  dsimp only
  split
  · rename_i hwide
    refine ⟨fun _ => rfl, fun shape d' h => ?_⟩
    cases h
    exact ⟨rfl, hwide, rfl⟩
  · rename_i hwide
    refine ⟨fun h => absurd h hwide, fun shape d' h => ?_⟩
    cases h

/-! ## Steps at the desk -/

/-- The desk with another bench. -/
def Desk.withBench (d : Desk) (b : Bench) : Desk :=
  { d with journal := { d.journal with link := b } }

namespace Shell

variable {α : Type} {d d' : Desk} {b : Bench}

theorem bench_run : bench.run.run d = (.ok d.journal.link, d) := rfl

theorem of_ofExcept_ok {x : Except Error α} {a : α}
    (h : (Shell.ofExcept x).run.run d = (.ok a, d')) : x = .ok a ∧ d' = d := by
  cases x with
  | error e => cases h
  | ok a' =>
    cases h
    exact ⟨rfl, rfl⟩

theorem atBench_ok {act : Bench → Except Error (α × Bench)} {a : α}
    (h : act d.journal.link = .ok (a, b)) : (atBench act).run.run d = (.ok a, d.withBench b) := by
  rw [atBench, run_bind_ok bench_run, h]
  rfl

theorem atBench_error {act : Bench → Except Error (α × Bench)} {e : Error}
    (h : act d.journal.link = .error e) :
    (atBench act).run.run d = (.error (.failed { cause := .error e }), d) := by
  rw [atBench, run_bind_ok bench_run, h]
  rfl

theorem of_atBench_ok {act : Bench → Except Error (α × Bench)} {a : α}
    (h : (atBench act).run.run d = (.ok a, d')) :
    act d.journal.link = .ok (a, d'.journal.link) := by
  cases hact : act d.journal.link with
  | error e =>
    rw [atBench_error hact] at h
    cases h
  | ok found =>
    obtain ⟨a', b⟩ := found
    rw [atBench_ok hact] at h
    cases h
    rfl

theorem tryCatch_ok {act : Shell α} {handler : Ending → Shell α} {a : α}
    (h : act.run.run d = (.ok a, d')) : (tryCatch act handler).run.run d = (.ok a, d') := by
  rw [ExceptT.run_tryCatch, StateT.run_bind, h]
  rfl

theorem tryCatch_error {act : Shell α} {handler : Ending → Shell α} {e : Ending}
    (h : act.run.run d = (.error e, d')) :
    (tryCatch act handler).run.run d = (handler e).run.run d' := by
  rw [ExceptT.run_tryCatch, StateT.run_bind, h]
  rfl

/-- The desk after a run of the host. -/
theorem host_run (m : Host Bench α) (d : Desk) : ∃ d', d'.journal = (m d.journal).2 ∧
    (host m).run.run d = (ofResult (m d.journal).1).run.run d' :=
  ⟨_, rfl, rfl⟩

theorem sleep_done {time : Duration} (h : d.journal.link.sleep time = (.done (), b)) :
    (sleep time).run.run d = (.ok (), d.withBench b) := by
  rw [sleep, run_bind_ok bench_run, h]
  rfl

theorem sleep_never {time : Duration} (h : d.journal.link.sleep time = (.never, b)) :
    (sleep time).run.run d = (.error .never, d.withBench b) := by
  rw [sleep, run_bind_ok bench_run, h]
  rfl

/-- A run that leaves the clock at the end of a granule if it goes well. -/
def EndsOnGrid (act : Shell α) : Prop :=
  ∀ d a d', act.run.run d = (.ok a, d') → d'.journal.link.OnGrid

theorem endsOnGrid_bind {β : Type} {act : Shell β} {f : β → Shell α} (h : ∀ b, EndsOnGrid (f b)) :
    EndsOnGrid (act >>= f) := by
  intro d a d' hrun
  obtain ⟨b, d₁, -, hrest⟩ := of_run_bind_ok hrun
  exact h b d₁ a d' hrest

theorem endsOnGrid_sleep (time : Duration) : EndsOnGrid (sleep time) := by
  intro d a d' hrun
  obtain ⟨hdone, hnever⟩ := d.journal.link.sleep_eq time
  rcases Nat.lt_or_ge d.journal.link.horizon (d.journal.link.clock + time) with hout | hin
  · obtain ⟨b, hsleep⟩ := hnever hout
    rw [sleep_never hsleep] at hrun
    cases hrun
  · rw [sleep_done (hdone hin)] at hrun
    cases hrun
    exact d.journal.link.onGrid_pass time

end Shell

/-! ## The parts of the subcommand -/

namespace ImageRequest

/-- What comes before the watch; the answer is the number of the capture, and of the words. -/
def start (r : ImageRequest) : Shell (Nat × Nat) := do
  if (← files).has r.file then
    refuse (r.file ++ " already exists, please specify a different name for the output")
  if r.rows = 0 then refuse "--nrows must be positive"
  r.configure
  let registers := (← station).registers
  let words ← ofExcept
    (registers.wordsToRead r.rows.toNat r.cols.toNat r.skips.toNat)
  let id ← launch r.file r.port (← r.shape words)
  printLine ("Reading " ++ toString words ++ " samples.")
  return (id, words)

/-- Write the header of an image of so many words, and tell how many they are. -/
def writeHeader (r : ImageRequest) (compileTime : String) (read : Nat) : Shell Unit := do
  let acquisition : Acquisition :=
    { measurements := r.skips, amplifier := r.amplifier, exposure := r.exposure
      duration := r.duration, compileTime }
  let described := (← station).describe (← files) r.file acquisition (← bench).seconds
  setFiles (← trying "failed to write image header" (ofExcept described))
  printLine ""
  printLine ("Read a total of " ++ toString read ++ " words.")

/-- What comes after the watch. -/
def finish (r : ImageRequest) (id : Nat) : Shell Unit := do
  let read ← closeCapture id
  let compileTime ← compileTimeText
  r.writeHeader compileTime read

/-- The watch of a readout that begins at a time. -/
def watch (r : ImageRequest) (words clock : Nat) : Watch where
  total := words
  limit := r.stall.map Duration.seconds
  changed := clock

theorem run_eq (r : ImageRequest) : r.run = (do
    let (id, words) ← r.start
    let b ← bench
    readOut id (Link.patience b) (r.watch words b.clock)
    r.finish id) := by
  unfold run start finish writeHeader
  simp only [bind_assoc]
  refine congrArg _ (funext fun f => ?_)
  split <;> split <;> simp only [bind_assoc, pure_bind, watch]

variable {r : ImageRequest} {d d' : Desk} {id words : Nat}

/-- The last thing that is done to the settings is to sleep. -/
theorem endsOnGrid_configure (r : ImageRequest) : EndsOnGrid r.configure := by
  have hsleep : EndsOnGrid (do
      let _ ← host (← station).sendRegisters
      sleep (Duration.seconds 1)) :=
    endsOnGrid_bind fun s => endsOnGrid_bind fun _ => endsOnGrid_sleep _
  unfold configure
  refine endsOnGrid_bind fun _ => ?_
  dsimp only
  cases r.samples with
  | none =>
    split
    · exact endsOnGrid_bind fun _ => endsOnGrid_bind fun _ => hsleep
    · exact hsleep
  | some samples =>
    split
    · exact endsOnGrid_bind fun _ => endsOnGrid_bind fun _ => endsOnGrid_bind fun _ => hsleep
    · exact endsOnGrid_bind fun _ => hsleep

/-- Before the watch a capture was launched, for a frame of just the words of the readout. -/
theorem start_ok (h : r.start.run.run d = (.ok (id, words), d')) :
    ∃ (b : Bench) (images : Bool) (shape : Capture.Shape),
      b.launch images r.file r.port shape = .ok (id, d'.journal.link) ∧ shape.rows = r.rows ∧
      shape.rows.toNat * shape.cols.toNat = words ∧ b.OnGrid := by
  unfold start at h
  obtain ⟨f, d₁, -, h⟩ := of_run_bind_ok h
  dsimp only at h
  -- both refusals end the run
  split at h
  · obtain ⟨_, _, hrefused, -⟩ := of_run_bind_ok h
    cases hrefused
  · split at h
    · obtain ⟨_, _, hrefused, -⟩ := of_run_bind_ok h
      cases hrefused
    · obtain ⟨_, d₂, hconfigure, h⟩ := of_run_bind_ok h
      obtain ⟨s, d₃, hstation, h⟩ := of_run_bind_ok h
      obtain ⟨n, d₄, hwords, h⟩ := of_run_bind_ok h
      obtain ⟨shape, d₅, hshape, h⟩ := of_run_bind_ok h
      obtain ⟨id', d₆, hlaunch, h⟩ := of_run_bind_ok h
      cases h
      cases hstation
      unfold launch at hlaunch
      obtain ⟨s', d₇, hstation, hlaunch⟩ := of_run_bind_ok hlaunch
      cases hstation
      obtain ⟨hread, rfl⟩ := of_ofExcept_ok hwords
      obtain ⟨rfl, hwide, rfl⟩ := (shape_run r _ _).2 _ _ hshape
      exact ⟨_, _, _, of_atBench_ok hlaunch, rfl,
        pixels_frame (RegisterMap.dvd_wordsToRead hread) hwide,
        endsOnGrid_configure r _ _ _ hconfigure⟩

/-- No time passes between the sleep and the watch. -/
theorem start_onGrid (h : r.start.run.run d = (.ok (id, words), d')) :
    d'.journal.link.OnGrid := by
  obtain ⟨b, images, shape, hlaunch, -, -, hgrid⟩ := start_ok h
  obtain ⟨output, files, -, -, hlink⟩ := launch_ok hlaunch
  rw [hlink]
  exact hgrid

end ImageRequest

/-! ## The watch -/

section Watch

variable {id words : Nat} {limit : Option Nat} {b : Bench} {d : Desk} {k n : Nat}

theorem seconds_le {i k : Nat} (h : i ≤ k) : Duration.seconds i ≤ Duration.seconds k := by
  rw [Duration.seconds, Duration.seconds]
  exact Nat.mul_le_mul_right _ h

/-- The desks at which a bench has slept for so many seconds. -/
def At (b : Bench) (k : Nat) (d : Desk) : Prop := d.journal.link = b.afterSeconds k

/-- A look at a desk a second later. -/
theorem nextLook_run (hgrid : b.OnGrid) (hd : At b k d) (hin : b.clock + Duration.seconds (k + 1) ≤ b.horizon) :
    ∃ d', At b (k + 1) d' ∧ (nextLook id).run.run d =
      (.ok (b.clock + Duration.seconds (k + 1), b.countAfter id (k + 1)), d') := by
  have hsleep : d.journal.link.sleep (Duration.seconds 1) = (.done (), b.afterSeconds (k + 1)) := by
    rw [hd, Bench.afterSeconds_succ]
    refine (Bench.sleep_eq _ _).1 ?_
    rwa [Bench.clock_add_second hgrid, Bench.horizon_afterSeconds]
  refine ⟨d.withBench (b.afterSeconds (k + 1)), rfl, ?_⟩
  rw [nextLook, run_bind_ok (sleep_done hsleep), run_bind_ok bench_run,
    ← Bench.clock_afterSeconds hgrid]
  rfl

/-- A look beyond the horizon. -/
theorem nextLook_never (hgrid : b.OnGrid) (hd : At b k d)
    (hout : b.horizon < b.clock + Duration.seconds (k + 1)) :
    ∃ d', (nextLook id).run.run d = (.error .never, d') := by
  obtain ⟨b', hsleep⟩ := (Bench.sleep_eq (b.afterSeconds k) (Duration.seconds 1)).2
    (by rwa [Bench.clock_add_second hgrid, Bench.horizon_afterSeconds])
  rw [← hd] at hsleep
  exact ⟨d.withBench b', by rw [nextLook, run_bind_error (sleep_never hsleep)]⟩

/-- What is shown at every look. -/
def showBar (w : Watch) : Shell Unit := print (ProgressBar.ofCounts w.words w.total)

theorem sampled_nextLook (hgrid : b.OnGrid)
    (hin : ∀ k < n, b.clock + Duration.seconds (k + 1) ≤ b.horizon) :
    Watch.Sampled (nextLook id) showBar b.clock (b.countAfter id) (At b) n := by
  intro k hk d hd
  obtain ⟨d', hd', hlook⟩ := nextLook_run hgrid hd (hin k hk)
  exact ⟨d', hlook, fun w => ⟨_, rfl, hd'⟩⟩

/-- A host before the horizon has patience for a look every second. -/
theorem lt_patience (h : Duration.seconds n ≤ b.horizon - b.clock) : n < Link.patience b := by
  have hmilliseconds : n * Duration.milliseconds 1 ≤ Duration.seconds n :=
    Nat.mul_le_mul_left n (by decide)
  have hlooks : n ≤ (b.horizon - b.clock) / Duration.milliseconds 1 :=
    (Nat.le_div_iff_mul_le (by decide)).2 (Nat.le_trans hmilliseconds h)
  rw [Bench.patience_eq]
  omega

theorem readOut_eq (id patience : Nat) (w : Watch) : readOut id patience w = (do
    match ← w.follow (nextLook id) showBar patience with
    | (_, some .complete) => return
    | (w, some .stalled) =>
      printLine ""
      warnLine ("Readout stalled after " ++ toString w.words ++ " of " ++ toString w.total ++
        " words")
    | (_, none) => throw .never) := rfl

/-- **The watch at a desk** ends at the first second with a verdict, whatever is due. -/
theorem readOut_isLeast (hgrid : b.OnGrid) (hd : At b 0 d) (hzero : b.countAfter id 0 = 0)
    (hk : IsLeast {i | Watch.Ends words limit (b.countAfter id) i} k)
    (hin : b.clock + Duration.seconds k ≤ b.horizon) :
    ∃ d', At b k d' ∧ (readOut id (Link.patience b)
      { total := words, limit := limit.map Duration.seconds, changed := b.clock }).run.run d =
        (.ok (), d') := by
  have hbefore : ∀ i < k, b.clock + Duration.seconds (i + 1) ≤ b.horizon := by
    intro i hi
    exact Nat.le_trans (Nat.add_le_add_left (seconds_le hi) _) hin
  obtain ⟨d₁, hd₁, hfollow⟩ := Watch.follow_isLeast hk (sampled_nextLook hgrid hbefore) hd
    (lt_patience (Nat.le_sub_of_add_le' hin))
  rw [Watch.after_zero hzero] at hfollow
  rw [readOut_eq, run_bind_ok hfollow]
  split
  · exact ⟨d₁, hd₁, rfl⟩
  · exact ⟨_, by exact hd₁, rfl⟩
  · rename_i hnone
    split at hnone <;> cases hnone

/-- A watch without a verdict before the horizon does not end. -/
theorem readOut_never (hgrid : b.OnGrid) (hd : At b 0 d) (hzero : b.countAfter id 0 = 0)
    (hwords : 0 < words)
    (hlive : ∀ i, Watch.Ends words limit (b.countAfter id) i →
      b.horizon < b.clock + Duration.seconds i) :
    ∃ d', (readOut id (Link.patience b)
      { total := words, limit := limit.map Duration.seconds, changed := b.clock }).run.run d =
        (.error .never, d') := by
  -- the last look is the one before the horizon
  obtain ⟨n, hbefore, hlast⟩ : ∃ n, Duration.seconds n ≤ b.horizon - b.clock ∧
      b.horizon - b.clock < Duration.seconds (n + 1) := by
    refine ⟨(b.horizon - b.clock) / 1000000000, ?_, ?_⟩
    · rw [Duration.seconds]
      exact Nat.div_mul_le_self _ _
    · rw [Duration.seconds, Nat.mul_comm]
      exact Nat.lt_mul_div_succ _ (by decide)
  have hin : ∀ k, 0 < k → k ≤ n → b.clock + Duration.seconds k ≤ b.horizon := by
    intro k hpos hk
    have hlook : Duration.seconds k ≤ b.horizon - b.clock := Nat.le_trans (seconds_le hk) hbefore
    have hsecond : 0 < Duration.seconds k := Nat.mul_pos hpos (by decide)
    have hclock : b.clock < b.horizon := Nat.lt_of_sub_pos (Nat.lt_of_lt_of_le hsecond hlook)
    calc b.clock + Duration.seconds k ≤ b.clock + (b.horizon - b.clock) :=
          Nat.add_le_add_left hlook b.clock
      _ = b.horizon := Nat.add_sub_cancel' (Nat.le_of_lt hclock)
  have hopen : ∀ i ≤ n, ¬ Watch.Ends words limit (b.countAfter id) i := by
    intro i hi hends
    rcases Nat.eq_zero_or_pos i with rfl | hpos
    · have hall := hends.resolve_right Watch.not_stalls_zero
      omega
    · exact Nat.not_le.2 (hlive i hends) (hin i hpos hi)
  obtain ⟨_, d', -, -, hfollow⟩ := Watch.follow_error hopen
    (sampled_nextLook hgrid fun k hk => hin (k + 1) k.succ_pos hk) hd
    (fun s hs => nextLook_never hgrid hs (by omega)) (lt_patience hbefore)
  rw [Watch.after_zero hzero] at hfollow
  exact ⟨d', by rw [readOut_eq, run_bind_error hfollow]⟩

end Watch

/-! ## After the watch -/

/-- Asking for the compile time gives a text, if it ends; captures only take what arrives. -/
theorem compileTimeText_run (d : Desk) : ∃ outcome d',
    compileTimeText.run.run d = (outcome, d') ∧ d.journal.link.Collects d'.journal.link ∧
      (outcome = .error .never ∨ ∃ text, outcome = .ok text) := by
  have hask := Host.compileTime_collects d.station.options.commandTimeout d.journal
  obtain ⟨d', hjournal, hhost⟩ :=
    host_run (Exchange.compileTime d.station.options.commandTimeout) d
  have hstation : station.run.run d = (.ok d.station, d) := rfl
  rw [← hjournal] at hask
  rw [compileTimeText, run_bind_ok hstation]
  cases hresult : (Exchange.compileTime d.station.options.commandTimeout d.journal).1 with
  | ok word =>
    rw [hresult] at hhost
    refine ⟨.ok (Calendar.timestamp word.toNat), d', tryCatch_ok ?_, hask, .inr ⟨_, rfl⟩⟩
    rw [run_bind_ok hhost]
    rfl
  | error stop =>
    rw [hresult] at hhost
    cases stop with
    | error e => exact ⟨.ok "unknown", d', tryCatch_error (run_bind_error hhost), hask, .inr ⟨_, rfl⟩⟩
    | never => exact ⟨.error .never, d', tryCatch_error (run_bind_error hhost), hask, .inl rfl⟩

theorem closeCapture_run {d : Desk} {id n : Nat} (hvalid : d.journal.link.captures.isValid id = true)
    (hcount : d.journal.link.captures.words? id = some n) :
    ∃ d', (closeCapture id).run.run d = (.ok n, d') ∧
      d'.journal.link.captures.isValid id = false ∧
      d'.journal.link.captures.words? id = some n := by
  have hclose := Diary.closeCapture_of_isValid hvalid
  rw [hcount, Option.getD_some] at hclose
  refine ⟨_, atBench_ok hclose, ?_, ?_⟩
  · show (Table.stop _ id _).1.isValid id = false
    simp
  · show (Table.stop _ id _).1.words? id = some n
    simp [hcount]

/-- **The header is written only after the capture was closed.** -/
theorem ImageRequest.finish_closed (r : ImageRequest) (id : Nat) (d : Desk) :
    (d.journal.link.captures.isValid id = false →
      (r.finish id).run.run d = (.error (.failed { cause := .error (.invalidTask id) }), d)) ∧
    ∀ n, d.journal.link.captures.isValid id = true →
      d.journal.link.captures.words? id = some n → ∃ d₁ d₂,
        (closeCapture id).run.run d = (.ok n, d₁) ∧
        d₁.journal.link.captures.isValid id = false ∧
        d₂.journal.link.captures.isValid id = false ∧
        d₂.journal.link.captures.words? id = some n ∧
        ((r.finish id).run.run d = (.error .never, d₂) ∨
          ∃ text, (r.finish id).run.run d = (r.writeHeader text n).run.run d₂) := by
  constructor
  · intro hinvalid
    have hclose : (closeCapture id).run.run d =
        (.error (.failed { cause := .error (.invalidTask id) }), d) :=
      atBench_error (Diary.closeCapture_of_invalid hinvalid)
    rw [finish, run_bind_error hclose]
  · intro n hvalid hcount
    obtain ⟨d₁, hclose, hclosed, hcount₁⟩ := closeCapture_run hvalid hcount
    obtain ⟨outcome, d₂, htext, hcollects, hends⟩ := compileTimeText_run d₁
    refine ⟨d₁, d₂, hclose, hclosed, ?_, hcollects.evolves.final id n hclosed hcount₁, ?_⟩
    · rw [hcollects.valid, hclosed]
    · rw [finish, run_bind_ok hclose]
      rcases hends with rfl | ⟨text, rfl⟩
      · exact .inl (run_bind_error htext)
      · exact .inr ⟨text, run_bind_ok htext⟩

/-! ## The whole subcommand -/

namespace ImageRequest

variable {r : ImageRequest} {d d₀ : Desk} {b : Bench} {id words k : Nat}

/-- A run that comes to the watch goes on with it, and then with what comes after. -/
theorem run_watch (hstart : r.start.run.run d = (.ok (id, words), d₀)) (hb : d₀.journal.link = b) :
    r.run.run.run d = (do
      readOut id (Link.patience b) (r.watch words b.clock)
      r.finish id).run.run d₀ := by
  rw [run_eq, run_bind_ok hstart]
  dsimp only
  rw [run_bind_ok bench_run, hb]

theorem run_isLeast (hstart : r.start.run.run d = (.ok (id, words), d₀))
    (hb : d₀.journal.link = b) (hzero : b.countAfter id 0 = 0)
    (hk : IsLeast {i | Watch.Ends words r.stall (b.countAfter id) i} k)
    (hin : b.clock + Duration.seconds k ≤ b.horizon) :
    ∃ d₁, At b k d₁ ∧ r.run.run.run d = (r.finish id).run.run d₁ := by
  obtain ⟨d₁, hd₁, hread⟩ := readOut_isLeast (hb ▸ start_onGrid hstart) hb hzero hk hin
  exact ⟨d₁, hd₁, (run_watch hstart hb).trans (run_bind_ok hread)⟩

theorem run_never (hstart : r.start.run.run d = (.ok (id, words), d₀))
    (hb : d₀.journal.link = b) (hzero : b.countAfter id 0 = 0) (hwords : 0 < words)
    (hlive : ∀ i, Watch.Ends words r.stall (b.countAfter id) i →
      b.horizon < b.clock + Duration.seconds i) :
    ∃ d₁, r.run.run.run d = (.error .never, d₁) := by
  obtain ⟨d₁, hread⟩ := readOut_never (hb ▸ start_onGrid hstart) hb hzero hwords hlive
  exact ⟨d₁, (run_watch hstart hb).trans (run_bind_error hread)⟩

/-- The capture of a readout that has begun runs until it is closed, and counts from nothing. -/
theorem count_started (hstart : r.start.run.run d = (.ok (id, words), d₀))
    (hb : d₀.journal.link = b) : b.countAfter id 0 = 0 ∧ Monotone (b.countAfter id) ∧
      ∀ k d₁, At b k d₁ → d₁.journal.link.captures.isValid id = true ∧
        d₁.journal.link.captures.words? id = some (b.countAfter id k) := by
  obtain ⟨b', images, shape, hlaunch, -⟩ := start_ok hstart
  rw [hb] at hlaunch
  obtain ⟨hvalid, hcount⟩ := launched hlaunch
  refine ⟨?_, Bench.monotone_countAfter hvalid, fun k d₁ hd₁ => ?_⟩
  · show (b.captures.words? id).getD 0 = 0
    rw [hcount]
    rfl
  · have hlater := b.afterSeconds_collects k
    obtain ⟨n, hn, -⟩ := hlater.evolves.words id 0 hcount
    rw [hd₁, hlater.valid, Bench.countAfter, hn]
    exact ⟨hvalid, rfl⟩

/-- The frame of a readout that is narrow enough has a pixel for every word. -/
theorem shape_storesAll {m : RegisterMap}
    (hread : m.wordsToRead r.rows.toNat r.cols.toNat r.skips.toNat = .ok words) (hwords : 0 < words)
    (hwide : words / r.rows.toNat < UInt32.size) :
    ∃ shape, (∀ d, (r.shape words).run.run d = (.ok shape, d)) ∧ shape.rows = r.rows ∧
      shape.rows.toNat * shape.cols.toNat = words ∧ shape.StoresAll words := by
  have hpixels := pixels_frame (RegisterMap.dvd_wordsToRead hread) hwide
  have hsome : ∀ n : UInt32, n.toNat ≠ 0 → 0 < n := fun n hn => Nat.pos_of_ne_zero hn
  have hrows : 0 < (r.frame words).rows := hsome _ fun h => by
    rw [h, Nat.zero_mul] at hpixels
    omega
  have hcols : 0 < (r.frame words).cols := hsome _ fun h => by
    rw [h, Nat.mul_zero] at hpixels
    omega
  refine ⟨r.frame words, fun d => (shape_run r words d).1 hwide, rfl, hpixels, ?_⟩
  have hstores := Shape.storesAll hrows hcols
  rwa [hpixels] at hstores

/-- **Reading out an image.**  The frame that is asked for has a pixel for every word, so that an
image capture of it drops none.  Whatever a counter of words does that never goes back, a watch over
it ends after finitely many looks, a second each: at the first one at which all words have come or
the count has been the same for longer than the limit, and without a limit at the first one at which
all words have come.  The subcommand begins, watches and finishes.  At a desk the counter is that of
the capture, whatever is due; the subcommand goes on where the watch ends, unless the horizon comes
first.  A look takes no time: what it reports and its verdict are of the time at which it began.  Then the capture is closed before the header is written, and if it cannot be closed, the
header is not written. -/
theorem readout_ends :
    (∀ (m : RegisterMap) (r : ImageRequest) (words : Nat),
      m.wordsToRead r.rows.toNat r.cols.toNat r.skips.toNat = .ok words → 0 < words →
      words / r.rows.toNat < UInt32.size →
        ∃ shape, (∀ d, (r.shape words).run.run d = (.ok shape, d)) ∧ shape.rows = r.rows ∧
          shape.rows.toNat * shape.cols.toNat = words ∧ shape.StoresAll words) ∧
    (∀ (total : Nat) (limit : Option Nat) (counter : Nat → Nat), counter 0 = 0 →
      Monotone counter → (limit = none → ∃ i, total ≤ counter i) →
        ∃ k, (∀ l ∈ limit, k ≤ total * (l + 1)) ∧
          IsLeast {i | Watch.Ends total limit counter i} k ∧
          (limit = none → IsLeast {i | total ≤ counter i} k) ∧
          (counter k < total → Watch.Stalls limit counter k) ∧
          ∀ {ε σ : Type} (next : ExceptT ε (StateM σ) (Nat × Nat))
            (report : Watch → ExceptT ε (StateM σ) Unit) (reached : Nat → σ → Prop)
            (start patience : Nat) (s : σ), Watch.Sampled next report start counter reached k →
              reached 0 s → k < patience → ∃ w s', w.words = counter k ∧ reached k s' ∧
                (Watch.follow next report patience { total, limit := limit.map Duration.seconds
                                                     changed := start }).run.run s =
                  (.ok (w, some (if total ≤ counter k then .complete else .stalled)), s')) ∧
    (∀ r : ImageRequest, r.run = do
      let (id, words) ← r.start
      let b ← bench
      readOut id (Link.patience b) (r.watch words b.clock)
      r.finish id) ∧
    (∀ (r : ImageRequest) (d d₀ : Desk) (b : Bench) (id words : Nat),
      r.start.run.run d = (.ok (id, words), d₀) → d₀.journal.link = b → 0 < words →
        (∃ (b' : Bench) (images : Bool) (shape : Capture.Shape),
          b'.launch images r.file r.port shape = .ok (id, b) ∧ shape.rows = r.rows ∧
            shape.rows.toNat * shape.cols.toNat = words) ∧
        b.countAfter id 0 = 0 ∧ Monotone (b.countAfter id) ∧
        (∀ k, IsLeast {i | Watch.Ends words r.stall (b.countAfter id) i} k →
          b.clock + Duration.seconds k ≤ b.horizon →
            ∃ d₁, At b k d₁ ∧ d₁.journal.link.captures.isValid id = true ∧
              d₁.journal.link.captures.words? id = some (b.countAfter id k) ∧
              r.run.run.run d = (r.finish id).run.run d₁) ∧
        ((∀ k, Watch.Ends words r.stall (b.countAfter id) k →
          b.horizon < b.clock + Duration.seconds k) →
            ∃ d₁, r.run.run.run d = (.error .never, d₁))) ∧
    ∀ (r : ImageRequest) (id : Nat) (d : Desk),
      (d.journal.link.captures.isValid id = false →
        (r.finish id).run.run d = (.error (.failed { cause := .error (.invalidTask id) }), d)) ∧
      ∀ n, d.journal.link.captures.isValid id = true →
        d.journal.link.captures.words? id = some n → ∃ d₁ d₂,
          (closeCapture id).run.run d = (.ok n, d₁) ∧
          d₁.journal.link.captures.isValid id = false ∧
          d₂.journal.link.captures.isValid id = false ∧
          d₂.journal.link.captures.words? id = some n ∧
          ((r.finish id).run.run d = (.error .never, d₂) ∨
            ∃ text, (r.finish id).run.run d = (r.writeHeader text n).run.run d₂) := by
  refine ⟨?_, ?_, run_eq, ?_, finish_closed⟩
  · intro m r words hread hwords hwide
    exact shape_storesAll hread hwords hwide
  · intro total limit counter hzero hmono hcomes
    exact Watch.follow_ends hzero hmono hcomes
  · intro r d d₀ b id words hstart hb hwords
    obtain ⟨hzero, hmono, hcount⟩ := count_started hstart hb
    obtain ⟨b', images, shape, hlaunch, hrows, hframe, -⟩ := start_ok hstart
    refine ⟨⟨b', images, shape, hb ▸ hlaunch, hrows, hframe⟩, hzero, hmono, fun k hk hin => ?_,
      fun hlive => ?_⟩
    · obtain ⟨d₁, hd₁, hrun⟩ := run_isLeast hstart hb hzero hk hin
      obtain ⟨hvalid, hwords₁⟩ := hcount k d₁ hd₁
      exact ⟨d₁, hd₁, hvalid, hwords₁, hrun⟩
    · exact run_never hstart hb hzero hwords hlive

/-- Two rows of three pixels, of two raw samples each. -/
def dozen : ImageRequest := { rows := 2, cols := 3, samples := some 1, stall := some 2 }

/-- A desk with an empty register file, where twelve words arrive: five after two seconds and a half,
and seven two seconds later. -/
def darkroom : Desk where
  station := {}
  journal :=
    { link :=
        { horizon := Duration.seconds 10
          files := { entries := [("config.ini", {})] }
          schedule :=
            [⟨Duration.milliseconds 2500, .stream 0x1202 (List.replicate 5 [0, 0, 0, 1])⟩,
              ⟨Duration.milliseconds 4500, .stream 0x1202 (List.replicate 7 [0, 0, 0, 2])⟩] } }

/-- The watch sees the last words at its fourth look; for a second there was no new one. -/
theorem readout_ends_dozen : ∃ d₀ d₁ d₂ d₃,
    dozen.start.run.run darkroom = (.ok (0, 12), d₀) ∧ At d₀.journal.link 4 d₁ ∧
      (closeCapture 0).run.run d₁ = (.ok 12, d₂) ∧
      d₃.journal.link.captures.isValid 0 = false ∧
      (dozen.run.run.run darkroom = (.error .never, d₃) ∨ ∃ text,
        dozen.run.run.run darkroom = (dozen.writeHeader text 12).run.run d₃) := by
  -- what can be evaluated, before the desk gets a name
  have hwords : (dozen.start.run.run darkroom).1.toOption = some (0, 12) := by decide +kernel
  have hcount : List.map ((dozen.start.run.run darkroom).2.journal.link.countAfter 0)
      [0, 3, 4] = [0, 5, 12] := by decide +kernel
  have hin : (dozen.start.run.run darkroom).2.journal.link.clock + Duration.seconds 4 ≤
      (dozen.start.run.run darkroom).2.journal.link.horizon := by decide +kernel
  rcases hstart : dozen.start.run.run darkroom with ⟨outcome, d₀⟩
  rw [hstart] at hwords hcount hin
  have hok : outcome = .ok (0, 12) := by
    cases outcome with
    | error e => cases hwords
    | ok found => exact congrArg _ (Option.some.inj hwords)
  subst hok
  simp only [List.map_cons, List.cons.injEq] at hcount
  obtain ⟨hnone, hfive, hall, -⟩ := hcount
  obtain ⟨-, -, hmono, hends, -⟩ :=
    readout_ends.2.2.2.1 dozen darkroom d₀ _ 0 12 hstart rfl (by decide)
  have hleast : IsLeast {i | Watch.Ends 12 dozen.stall (d₀.journal.link.countAfter 0) i} 4 := by
    refine ⟨.inl (Nat.le_of_eq hall.symm), fun i hi => ?_⟩
    by_contra hearly
    have hfew := hmono (show i ≤ 3 by omega)
    rcases hi with hcomes | ⟨l, hl, hlate, hsame⟩
    · omega
    · obtain rfl : 2 = l := Option.some.inj hl
      obtain rfl : i = 3 := by omega
      have := hsame 0 (Nat.zero_le _) (Nat.zero_le _)
      omega
  obtain ⟨d₁, hd₁, hvalid, hcount₁, hrun⟩ := hends 4 hleast hin
  rw [hall] at hcount₁
  obtain ⟨d₂, d₃, hclose, -, hclosed, -, hfinish⟩ :=
    (readout_ends.2.2.2.2 dozen 0 d₁).2 12 hvalid hcount₁
  refine ⟨d₀, d₁, d₂, d₃, rfl, hd₁, hclose, hclosed, ?_⟩
  rw [hrun]
  exact hfinish

end ImageRequest

end CommandLine

end Readout
