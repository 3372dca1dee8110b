import Readout.Proofs.Capture.Received
import Readout.Proofs.Image.Added
import Readout.Proofs.Text.HexLines
import Readout.Station
/-!
# Captured words that are sent again

A capture in lines writes its words as hexadecimal digits without a mark, and a file that is sent is
read as C literals.  So the words that are sent are the captured ones only if these are small.

* `readText_lines`: the text that such a capture leaves;
* `sendFile_lines`: what is sent from it;
* `resend_outcome`: from the launch of a capture to the datagram that its file gives;
* `resend_changed`: a word that another one is sent for.
-/

namespace Readout.Capture

/-! ## The file -/

/-- The file of a capture in lines is the text of its words. -/
theorem linesOf_eq (datagrams : List Bytes) :
    linesOf datagrams =
      (Text.hexLines (wordsOf datagrams)).map fun c => UInt8.ofNat c.toNat := by
  unfold linesOf wordsOf Text.hexLines Output.hexLine
  rw [List.map_flatMap, List.flatMap_assoc]

theorem readText_lines {f : Files} {path name : String} {datagrams : List Bytes}
    (hpath : f.target path = .file name)
    (hget : f.get? name = some { data := linesOf datagrams }) :
    f.readText path = .ok (Text.hexLines (wordsOf datagrams)) := by
  have hread : f.read path = .ok { data := linesOf datagrams } := by
    rw [Files.read, Files.open?_ok.2 ⟨hpath, hget⟩]
    rfl
  have hbytes : Content.bytes { data := linesOf datagrams } = linesOf datagrams :=
    List.append_nil _
  have htext : Text.Utf8.decode? (linesOf datagrams) =
      some (Text.hexLines (wordsOf datagrams)) := by
    rw [linesOf_eq]
    exact Text.Utf8.decode?_ascii (Text.ascii_hexLines _)
  unfold Files.readText
  rw [hread]
  dsimp only [bind, Except.bind]
  rw [hbytes, htext]

/-! ## The datagram -/

variable {σ : Type} [Link σ]

/-- The words that the lines are read as are sent in one datagram.  A line that is no word is the
error, and nothing is sent. -/
theorem sendFile_lines {f : Files} {path name : String} {datagrams : List Bytes}
    (hpath : f.target path = .file name)
    (hget : f.get? name = some { data := linesOf datagrams }) (target : Port) :
    (Station.sendFile f path target : Host σ Nat) =
      match rereadAll (wordsOf datagrams) with
      | .ok ws => Host.send target (Word.encode ws)
      | .error e => Host.fail e := by
  unfold Station.sendFile
  rw [readText_lines hpath hget]
  dsimp only
  rw [dataWords_lines]
  cases rereadAll (wordsOf datagrams) with
  | ok ws => rfl
  | error e => rfl

/-! ## From launch to resend -/

theorem encodingOf_text {images : Bool} {path : String} {shape : Shape}
    (himage : ¬ (".fits".toList <:+: path.toList ∧ 0 < shape.rows ∧ 0 < shape.cols))
    (hname : ".txt".toList <:+: path.toList) : encodingOf images path shape = .text := by
  rw [encodingOf_eq, if_neg himage, if_pos hname]

/-- A capture on a free port records from its launch. -/
theorem launch_recording (b : Bench) (images : Bool) {path : String} {port : Port} {shape : Shape}
    {name : String}
    (hport : port = 0 ∨ (b.bound.contains port || b.captures.listensOn port) = false)
    (hpath : encodingOf images path shape ≠ .discard → b.files.target path = .file name) :
    ∃ b₀ task, b.launch images path port shape = .ok (b.captures.size, b₀) ∧
      Recording b.captures.size name shape (encodingOf images path shape) [] b₀ task := by
  obtain ⟨output, files, hstart, hstores, -, -⟩ := Output.start_stores images shape hpath
  exact ⟨_, { port := if port = 0 then none else some port, output }, launch_eq hport hstart,
    List.getElem?_concat_length, rfl, rfl, hstores⟩

theorem network_launch {b b' : Bench} {images : Bool} {path : String} {port : Port} {shape : Shape}
    {n : Nat} (h : b.launch images path port shape = .ok (n, b')) : b'.network = b.network := by
  obtain ⟨output, files, -, -, rfl⟩ := launch_ok h
  rfl

/-- A capture in lines is launched, and closed after any run, and then its file is sent on any link:
the words are those that the lines of the captured words are read as.  They are the captured words
exactly if each of those is below eight. -/
theorem resend_outcome (b : Bench) (images : Bool) {path : String} {port : Port} {shape : Shape}
    {name : String}
    (hport : port = 0 ∨ (b.bound.contains port || b.captures.listensOn port) = false)
    (himage : ¬ (".fits".toList <:+: path.toList ∧ 0 < shape.rows ∧ 0 < shape.cols))
    (hname : ".txt".toList <:+: path.toList) (hpath : b.files.target path = .file name) :
    ∃ b₀, b.launch images path port shape = .ok (b.captures.size, b₀) ∧
      ∀ datagrams b₁, Receives b.captures.size name b₀ datagrams b₁ →
        ∀ ws, ws = wordsOf (datagrams.map (·.take maxDatagram)) →
          ∃ n b₂, b₁.closeCapture b.captures.size = .ok (n, b₂) ∧
            (∀ (σ : Type) [Link σ] (target : Port),
              (Station.sendFile b₂.files path target : Host σ Nat) =
                match rereadAll ws with
                | .ok ws' => Host.send target (Word.encode ws')
                | .error e => Host.fail e) ∧
            (rereadAll ws = .ok ws ↔ ∀ w ∈ ws, w < 8) := by
  obtain ⟨b₀, task, hlaunch, hbegun⟩ := launch_recording b images hport fun _ => hpath
  refine ⟨b₀, hlaunch, fun datagrams b₁ hrun ws hws => ?_⟩
  obtain ⟨task₁, hrec⟩ := hbegun.receives hrun
  obtain ⟨b₂, hclose, hfiles⟩ := hrec.close
  rw [encodingOf_text himage hname] at hrec
  have hget := hrec.output.finish_text
  rw [← hfiles] at hget
  subst hws
  exact ⟨_, b₂, hclose,
    fun σ _ target => sendFile_lines (Files.target_file b₂.files hpath) hget target,
    rereadAll_eq_self_iff _⟩

/-- Two small words, the second in a datagram with one byte too many. -/
theorem resend_outcome_small : ∃ b₀ b₂ : Bench, ∃ n,
    Bench.launch {} true "sequencer.txt" 0 ⟨0, 0⟩ = .ok (0, b₀) ∧
      (b₀.feed 0 [[0, 0, 0, 7], [0, 0, 0, 1, 9]]).closeCapture 0 = .ok (n, b₂) ∧
      (Station.sendFile b₂.files "sequencer.txt" 0x2000 : Host Bench Nat) =
        Host.send 0x2000 [0, 0, 0, 7, 0, 0, 0, 1] := by
  obtain ⟨b₀, hlaunch, hresend⟩ := @resend_outcome {} true "sequencer.txt" 0 ⟨0, 0⟩ "sequencer.txt"
    (.inl rfl) (fun h => absurd h.2 (by decide)) ⟨"sequencer".toList, [], rfl⟩ rfl
  have hfeed : b₀.network.refusal? [[0, 0, 0, 7], [0, 0, 0, 1, 9]] = none := by
    rw [network_launch hlaunch]
    decide
  obtain ⟨n, b₂, hclose, hsent, hself⟩ := hresend _ _ (receives_feed hfeed) [7, 1] rfl
  have hsmall : ∀ w ∈ ([7, 1] : List Word), w < 8 := by
    intro w hw
    rcases List.mem_pair.1 hw with rfl | rfl <;> decide
  refine ⟨b₀, b₂, n, hlaunch, hclose, ?_⟩
  rw [hsent, hself.2 hsmall]
  rfl

/-- A bench tells datagrams apart. -/
theorem eq_of_send {port : Port} {data data' : Bytes}
    (h : (Host.send port data : Host Bench Nat) = Host.send port data') : data = data' := by
  have hevents (data : Bytes) : ((Host.send port data : Host Bench Nat) ⟨{}, #[]⟩).2.events =
      #[.sent port data (.ok data.length)] := rfl
  have hsame := congrArg (fun run => (run ⟨({} : Bench), #[]⟩).2.events) h
  rw [hevents, hevents] at hsame
  injection hsame with hsame
  injection hsame with hsame
  injection hsame

/-- A word that needs two digits: 16 is captured, and 8 is sent. -/
theorem resend_changed : ∃ b₀ b₂ : Bench,
    Bench.launch {} true "sequencer.txt" 0 ⟨0, 0⟩ = .ok (0, b₀) ∧
      (b₀.feed 0 [Word.encode [16]]).closeCapture 0 = .ok (1, b₂) ∧
      (Station.sendFile b₂.files "sequencer.txt" 0x2000 : Host Bench Nat) =
        Host.send 0x2000 (Word.encode [8]) ∧
      (Station.sendFile b₂.files "sequencer.txt" 0x2000 : Host Bench Nat) ≠
        Host.send 0x2000 (Word.encode [16]) := by
  obtain ⟨b₀, task, hlaunch, hbegun⟩ := @launch_recording {} true "sequencer.txt" 0 ⟨0, 0⟩
    "sequencer.txt" (.inl rfl) (fun _ => rfl)
  rw [encodingOf_text (fun h => absurd h.2 (by decide)) ⟨"sequencer".toList, [], rfl⟩] at hbegun
  have hfeed : b₀.network.refusal? [Word.encode [16]] = none := by
    rw [network_launch hlaunch]
    decide
  obtain ⟨task₁, hrec⟩ := hbegun.receives (receives_feed hfeed)
  obtain ⟨b₂, hclose, hfiles⟩ := hrec.close
  have hget := hrec.output.finish_text
  rw [← hfiles] at hget
  have hreread : rereadAll [16] = .ok [8] := by
    have hword : Text.reread 16 = some 8 := (Text.parseWord?_hexDigits 16).symm.trans rfl
    rw [rereadAll, List.mapM_cons, hword]
    rfl
  have hsent : (Station.sendFile b₂.files "sequencer.txt" 0x2000 : Host Bench Nat) =
      Host.send 0x2000 (Word.encode [8]) := by
    rw [sendFile_lines rfl hget]
    have hwords : wordsOf ([Word.encode [16]].map (·.take maxDatagram)) = [16] := rfl
    rw [hwords, hreread]
  refine ⟨b₀, b₂, hlaunch, hclose, hsent, fun hclaimed => ?_⟩
  exact absurd (eq_of_send (hsent.symm.trans hclaimed)) (by decide)

end Readout.Capture
