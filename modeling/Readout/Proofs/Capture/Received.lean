import Mathlib.Algebra.GroupWithZero.Nat
import Readout.Proofs.Capture.Diary
import Readout.Proofs.Capture.Stored
/-!
# What a capture receives

From its launch to its close a capture is given datagrams, and the other things that happen on the
bench leave it and its file alone.

* `Receives` is such a run, with the datagrams of it in order; feeding a capture is one, and
  `apart_give`, `apart_close` and `apart_launch` say what the other captures may do meanwhile;
* `Recording` is what a capture has counted and stored: a datagram keeps it up, and so it holds
  after every run;
* `launch_stored`: what a close after a run answers, and what the file then holds.
-/

namespace Readout

namespace Bench

/-- A capture is given a datagram. -/
def give (b : Bench) (id : Nat) (data : Bytes) : Bench :=
  { b with
    captures := (b.captures.take id data b.files).1
    files := (b.captures.take id data b.files).2 }

variable {b : Bench} {id : Nat}

theorem give_of_invalid (h : b.captures.isValid id = false) (data : Bytes) :
    b.give id data = b := by
  unfold give
  rw [Capture.Table.take_of_invalid _ h]

theorem give_of_running {task : Capture.Task} (hget : b.captures.tasks[id]? = some task)
    (hrun : task.running = true) (data : Bytes) :
    b.give id data =
      { b with
        captures := ⟨b.captures.tasks.set id (Capture.Table.Task.take data b.files task).1⟩
        files := (Capture.Table.Task.take data b.files task).2 } := by
  unfold give
  rw [Capture.Table.take_of_running _ hget hrun]

end Bench

namespace Capture

/-! ## Runs -/

/-- A capture and its file are left alone. -/
structure Apart (id : Nat) (name : String) (b b' : Bench) : Prop where
  task : b'.captures.tasks[id]? = b.captures.tasks[id]?
  file : b.files.SameAt name b'.files

/-- A run in which a capture is given datagrams. -/
inductive Receives (id : Nat) (name : String) (b : Bench) : List Bytes → Bench → Prop
  | start : Receives id name b [] b
  | datagram {datagrams : List Bytes} {b' : Bench} (data : Bytes) :
      Receives id name b datagrams b' → Receives id name b (datagrams ++ [data]) (b'.give id data)
  | apart {datagrams : List Bytes} {b' b'' : Bench} :
      Receives id name b datagrams b' → Apart id name b' b'' → Receives id name b datagrams b''

variable {id : Nat} {name : String} {b b' : Bench}

theorem receives_arrive {port : Port} (h : b.captures.idOn? port = some id) (data : Bytes) :
    Receives id name b [data] (b.arrive port data) := by
  have hgive : b.arrive port data = b.give id data := by
    unfold Bench.arrive
    rw [h]
    rfl
  rw [hgive]
  exact .datagram data .start

theorem receives_feed {datagrams : List Bytes} (h : b.network.refusal? datagrams = none) :
    Receives id name b datagrams (b.feed id datagrams) := by
  have hfeed : b.feed id datagrams = datagrams.foldl (fun b data => b.give id data) b := by
    unfold Bench.feed
    rw [h]
    rfl
  rw [hfeed]
  clear h hfeed
  -- From the end, since a run is extended there.
  induction datagrams using List.reverseRecOn with
  | nil => exact .start
  | append_singleton datagrams data ih =>
    rw [List.foldl_append]
    exact .datagram data ih

/-! ## What leaves a capture alone -/

/-- A capture that writes to another file leaves a file alone. -/
theorem sameAt_give (hspares : ∀ task, b.captures.tasks[id]? = some task → task.output.Spares name)
    (data : Bytes) : b.files.SameAt name (b.give id data).files := by
  cases hvalid : b.captures.isValid id with
  | false =>
    rw [Bench.give_of_invalid hvalid]
    exact .refl name _
  | true =>
    obtain ⟨task, hget, hrun⟩ := Table.exists_of_isValid hvalid
    rw [Bench.give_of_running hget hrun]
    exact Output.sameAt_take (hspares task hget) _ _

/-- A datagram for another capture, which writes to another file. -/
theorem apart_give {other : Nat} (hother : other ≠ id)
    (hspares : ∀ task, b.captures.tasks[other]? = some task → task.output.Spares name)
    (data : Bytes) : Apart id name b (b.give other data) := by
  refine ⟨?_, sameAt_give hspares data⟩
  cases hvalid : b.captures.isValid other with
  | false => rw [Bench.give_of_invalid hvalid]
  | true =>
    obtain ⟨task, hget, hrun⟩ := Table.exists_of_isValid hvalid
    rw [Bench.give_of_running hget hrun]
    exact List.getElem?_set_ne hother

/-- The close of another capture, which writes to another file. -/
theorem apart_close {other n : Nat} (hother : other ≠ id)
    (hspares : ∀ task, b.captures.tasks[other]? = some task → task.output.Spares name)
    (hclose : b.closeCapture other = .ok (n, b')) : Apart id name b b' := by
  cases hvalid : b.captures.isValid other with
  | false =>
    rw [Diary.closeCapture_of_invalid hvalid] at hclose
    cases hclose
  | true =>
    obtain ⟨task, hget, hrun⟩ := Table.exists_of_isValid hvalid
    rw [Diary.closeCapture_of_isValid hvalid, Table.stop_of_running _ hget hrun] at hclose
    cases hclose
    exact ⟨List.getElem?_set_ne hother, Output.sameAt_finish (hspares task hget) _⟩

/-- The launch of a capture after another one, which writes to another file. -/
theorem apart_launch {images : Bool} {path : String} {port : Port} {shape : Shape} {n : Nat}
    (hlaunch : b.launch images path port shape = .ok (n, b')) (hid : id < b.captures.size)
    (hpath : b.files.target path ≠ .file name) : Apart id name b b' := by
  obtain ⟨output, files, hstart, -, rfl⟩ := launch_ok hlaunch
  exact ⟨List.getElem?_append_left hid, (Output.sameAt_start hstart hpath).1⟩

/-! ## What a capture records -/

/-- A capture has counted and stored a stream of datagrams. -/
structure Recording (id : Nat) (name : String) (shape : Shape) (e : Encoding)
    (datagrams : List Bytes) (b : Bench) (task : Task) : Prop where
  listed : b.captures.tasks[id]? = some task
  running : task.running = true
  words : task.words = (datagrams.map fun data => data.length / 4).sum
  output : Output.Stores shape name b.files datagrams e task.output

variable {shape : Shape} {e : Encoding} {datagrams : List Bytes} {task : Task}

/-- A datagram is cut before it is counted and stored. -/
theorem Recording.give (h : Recording id name shape e datagrams b task) (data : Bytes) :
    ∃ task', Recording id name shape e (datagrams ++ [data.take maxDatagram]) (b.give id data)
      task' := by
  rw [Bench.give_of_running h.listed h.running]
  refine ⟨(Table.Task.take data b.files task).1, ?_, h.running, ?_, h.output.take _⟩
  · rw [Table.getElem?_set_of_some id h.listed, if_pos rfl]
  · rw [List.map_append, List.sum_append, ← h.words]
    simp [Table.Task.take]

theorem Recording.apart (h : Recording id name shape e datagrams b task)
    (hapart : Apart id name b b') : Recording id name shape e datagrams b' task :=
  ⟨hapart.task.trans h.listed, h.running, h.words, h.output.sameAt hapart.file⟩

theorem Recording.receives (h : Recording id name shape e [] b task)
    (hrun : Receives id name b datagrams b') :
    ∃ task', Recording id name shape e (datagrams.map (·.take maxDatagram)) b' task' := by
  induction hrun with
  | start => exact ⟨task, h⟩
  | datagram data _ ih =>
    obtain ⟨task', hrec⟩ := ih
    rw [List.map_append]
    exact hrec.give data
  | apart _ hapart ih =>
    obtain ⟨task', hrec⟩ := ih
    exact ⟨task', hrec.apart hapart⟩

/-- A capture that stores nothing leaves every file alone. -/
theorem Recording.sameAt_discard (h : Recording id name shape .discard [] b task)
    (hrun : Receives id name b datagrams b') : b.files.SameAt name b'.files := by
  induction hrun with
  | start => exact .refl name _
  | @datagram datagrams b' data hbefore ih =>
    obtain ⟨task', hrec⟩ := h.receives hbefore
    refine ih.trans (sameAt_give (fun other hother => ?_) data)
    have heq : other = task' := Option.some.inj (hother.symm.trans hrec.listed)
    rw [heq, hrec.output.eq_discard]
    trivial
  | apart _ hapart ih => exact ih.trans hapart.file

/-- A capture that records is closed with its count, and its output is finished. -/
theorem Recording.close (h : Recording id name shape e datagrams b task) :
    ∃ b', b.closeCapture id = .ok ((datagrams.map fun data => data.length / 4).sum, b') ∧
      b'.files = task.output.finish b.files := by
  have hvalid : b.captures.isValid id = true := by
    rw [Table.isValid_eq, h.listed, Option.map_some, h.running]
    rfl
  have hwords : b.captures.words? id = some (datagrams.map fun data => data.length / 4).sum := by
    rw [Table.words?, h.listed, Option.map_some, h.words]
  have hclose := Diary.closeCapture_of_isValid hvalid
  rw [hwords, Table.stop_of_running _ h.listed h.running] at hclose
  exact ⟨_, hclose, rfl⟩

/-! ## From launch to close -/

/-- What the file of a capture holds after a stream of datagrams, by its name and the shape of the
frame. -/
structure Stored (images : Bool) (path : String) (shape : Shape) (name : String)
    (datagrams : List Bytes) (before opened closed : Files) : Prop where
  /-- The file has its length from the start, and only its pixels change. -/
  image : ".fits".toList <:+: path.toList → 0 < shape.rows ∧ 0 < shape.cols → images = true →
    opened.get? name = some shape.blank ∧ ∃ c, closed.get? name = some c ∧
      c.length = shape.blank.length ∧
      (∀ k, k < shape.blank.data.length ∨
          shape.blank.data.length + shape.pixels * Image.pixelBytes ≤ k →
        c.bytes[k]? = shape.blank.bytes[k]?) ∧
      ∀ i, i < shape.pixels →
        (c.bytes.drop (shape.blank.data.length + i * Image.pixelBytes)).take Image.pixelBytes =
          ((wordsOf datagrams).getD i 0).bytes
  /-- No file is made, and none is changed. -/
  discard : ".fits".toList <:+: path.toList → 0 < shape.rows ∧ 0 < shape.cols → images = false →
    opened = before ∧ closed.get? name = before.get? name
  text : ¬ (".fits".toList <:+: path.toList ∧ 0 < shape.rows ∧ 0 < shape.cols) →
    ".txt".toList <:+: path.toList → closed.get? name = some { data := linesOf datagrams }
  binary : ¬ (".fits".toList <:+: path.toList ∧ 0 < shape.rows ∧ 0 < shape.cols) →
    ¬ ".txt".toList <:+: path.toList →
    closed.get? name = some { data := shape.preamble ++ datagrams.flatten }

theorem launch_eq {images : Bool} {path : String} {port : Port} {output : Output} {files : Files}
    (hport : port = 0 ∨ (b.bound.contains port || b.captures.listensOn port) = false)
    (hstart : Output.start images path shape b.files = .ok (output, files)) :
    b.launch images path port shape = .ok (b.captures.size,
      { b with
        captures := (b.captures.launch (if port = 0 then none else some port) output).2
        files }) := by
  have hfree : ¬ (port ≠ 0 ∧ (b.bound.contains port || b.captures.listensOn port) = true) := by
    rintro ⟨hne, hbound⟩
    rw [hport.resolve_left hne] at hbound
    cases hbound
  unfold Bench.launch
  dsimp only
  rw [if_neg hfree, hstart]
  rfl

/-- A capture on a free port of a file that can be made is launched.  Whatever it is given then, and
whenever it is closed, the answer is the number of whole words, and the file holds the stream.  An
image is meant to have fewer than `2 ^ 62` pixels, as no file has room for more. -/
theorem launch_stored (b : Bench) (images : Bool) {path : String} {port : Port} {shape : Shape}
    {name : String}
    (hport : port = 0 ∨ (b.bound.contains port || b.captures.listensOn port) = false)
    (hpath : encodingOf images path shape ≠ .discard → b.files.target path = .file name) :
    ∃ b₀, b.launch images path port shape = .ok (b.captures.size, b₀) ∧
      ∀ datagrams b₁, Receives b.captures.size name b₀ datagrams b₁ →
        ∃ b₂, b₁.closeCapture b.captures.size =
            .ok ((datagrams.map fun data => (data.take maxDatagram).length / 4).sum, b₂) ∧
          Stored images path shape name (datagrams.map (·.take maxDatagram)) b.files b₀.files
            b₂.files := by
  obtain ⟨output, files, hstart, hstores, himage, hdiscard⟩ :=
    Output.start_stores images shape hpath
  refine ⟨_, launch_eq hport hstart, fun datagrams b₁ hrun => ?_⟩
  have hbegun : Recording b.captures.size name shape (encodingOf images path shape) []
      { b with
        captures := (b.captures.launch (if port = 0 then none else some port) output).2
        files } { port := if port = 0 then none else some port, output } :=
    ⟨List.getElem?_concat_length, rfl, rfl, hstores⟩
  obtain ⟨task, hrec⟩ := hbegun.receives hrun
  obtain ⟨b₂, hclose, hfiles⟩ := hrec.close
  rw [List.map_map] at hclose
  have hencoding := encodingOf_eq images path shape
  refine ⟨b₂, hclose, ?_, ?_, ?_, ?_⟩
  · intro hname hshape himages
    rw [if_pos ⟨hname, hshape⟩, if_pos himages] at hencoding
    rw [hencoding] at hrec
    obtain ⟨c, hget, hfilled⟩ := hrec.output.finish_image
    rw [← hfiles] at hget
    exact ⟨himage hencoding, c, hget, hfilled.length, fun k hk => hfilled.outside hk,
      fun i hi => hfilled.pixel hi⟩
  · intro hname hshape himages
    rw [if_pos ⟨hname, hshape⟩, if_neg (Bool.eq_false_iff.1 himages)] at hencoding
    rw [hencoding] at hrec hbegun
    have hsame := hbegun.sameAt_discard hrun
    rw [hrec.output.eq_discard] at hfiles
    rw [hfiles]
    exact ⟨hdiscard hencoding, hsame.get?.trans (congrArg (·.get? name) (hdiscard hencoding))⟩
  · intro hnot hname
    rw [if_neg hnot, if_pos hname] at hencoding
    rw [hencoding] at hrec
    rw [hfiles]
    exact hrec.output.finish_text
  · intro hnot hname
    rw [if_neg hnot, if_neg hname] at hencoding
    rw [hencoding] at hrec
    rw [hfiles]
    exact hrec.output.finish_binary

/-- An image of two pixels, from three datagrams: the last byte of the first is no word, and the
third comes when the image is full. -/
theorem launch_stored_pair : ∃ b₀ b₂ : Bench, ∃ c : Content,
    Bench.launch {} true "frame.fits" 0 ⟨1, 2⟩ = .ok (0, b₀) ∧
      (b₀.feed 0 [[0, 0, 0, 1, 9], [0, 0, 0, 2], [0, 0, 0, 3]]).closeCapture 0 = .ok (3, b₂) ∧
      b₂.files.get? "frame.fits" = some c ∧
      (c.bytes.drop ((Shape.blank ⟨1, 2⟩).data.length + 1 * Image.pixelBytes)).take
        Image.pixelBytes = [0, 0, 0, 2] := by
  obtain ⟨b₀, hlaunch, hclose⟩ := @launch_stored {} true "frame.fits" 0 ⟨1, 2⟩ "frame.fits"
    (.inl rfl) (fun _ => rfl)
  have hnetwork : b₀.network = .delivering := by
    obtain ⟨output, files, -, -, rfl⟩ := launch_ok hlaunch
    rfl
  have hfeed : b₀.network.refusal? [[0, 0, 0, 1, 9], [0, 0, 0, 2], [0, 0, 0, 3]] = none := by
    rw [hnetwork]
    decide
  obtain ⟨b₂, hcount, hstored⟩ := hclose _ _ (receives_feed hfeed)
  obtain ⟨-, c, hget, -, -, hpixel⟩ := hstored.image ⟨"frame".toList, [], rfl⟩ (by decide) rfl
  exact ⟨b₀, b₂, c, hlaunch, hcount, hget,
    (hpixel 1 (by decide)).trans (by decide)⟩

end Capture

end Readout
