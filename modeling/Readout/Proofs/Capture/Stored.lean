import Mathlib.Data.List.Infix
import Readout.Capture.Output
import Readout.Proofs.Image.Pixels
/-!
# What an output stores

An output writes to one file, and at any time the file and what is still in the buffer are what the
datagrams so far ask for.

* `Files.SameAt` says that a file is as it was before; an output leaves all files but its own so;
* `Writer.Holds` is what a writer has been given: `Holds.write` and `Holds.flush`;
* `Output.Stores` is what an output holds after a stream of datagrams: `start_stores`, then
  `Stores.take` for every datagram, and `Stores.finish` in the end.
-/

namespace Readout

/-! ## Open files -/

namespace Files

variable {f f' f'' : Files} {name : String}

/-- A file is as it was, and so are the handles that lead to it. -/
structure SameAt (name : String) (f f' : Files) : Prop where
  get? : f'.get? name = f.get? name
  handle : f'.handle name = f.handle name

theorem SameAt.refl (name : String) (f : Files) : SameAt name f f := ⟨rfl, rfl⟩

theorem SameAt.trans (h : SameAt name f f') (h' : SameAt name f' f'') : SameAt name f f'' :=
  ⟨h'.get?.trans h.get?, h'.handle.trans h.handle⟩

theorem sameAt_put {other : String} (h : name ≠ other) (f : Files) (c : Content) :
    SameAt name f (f.put other c) :=
  ⟨by rw [get?_put, if_neg h], rfl⟩

theorem sameAt_update {h : Handle} (hne : name ≠ h.name) (f : Files) (change : Content → Content) :
    SameAt name f (f.update h change) := by
  unfold update
  split
  · split
    · exact sameAt_put hne f _
    · exact .refl name f
  · exact .refl name f

/-- A file that is there is changed through a handle that leads to it. -/
theorem update_handle {c : Content} (h : f.get? name = some c) (change : Content → Content) :
    f.update (f.handle name) change = f.put name (change c) := by
  unfold update
  rw [show (f.handle name).name = name from rfl, h]
  exact if_pos rfl

theorem get?_put_self (f : Files) (name : String) (c : Content) :
    (f.put name c).get? name = some c := by
  rw [get?_put, if_pos rfl]

theorem create_eq (h : f.target path = .file name) :
    f.create path = .ok (f.handle name, f.put name {}) := by
  unfold create
  rw [h]

end Files

namespace Capture

/-! ## Writers -/

namespace Writer

variable {w : Writer} {name : String} {f : Files} {bs : Bytes}

/-- What a writer has been given is in its file up to the offset, and then in the buffer. -/
structure Holds (w : Writer) (name : String) (f : Files) (bs : Bytes) : Prop where
  file : w.file = f.handle name
  stored : ∃ stored, f.get? name = some { data := stored } ∧ stored.length = w.offset ∧
    stored ++ w.buffer = bs

theorem Holds.sameAt (h : w.Holds name f bs) {f' : Files} (hf : f.SameAt name f') :
    w.Holds name f' bs := by
  obtain ⟨stored, hget, hrest⟩ := h.stored
  exact ⟨h.file.trans hf.handle.symm, stored, hf.get?.trans hget, hrest⟩

theorem holds_create (f : Files) (name : String) :
    Holds { file := f.handle name } name (f.put name {}) [] :=
  ⟨rfl, [], f.get?_put_self name {}, rfl, rfl⟩

theorem Holds.flush (h : w.Holds name f bs) :
    (w.flush f).1.Holds name (w.flush f).2 bs ∧ (w.flush f).2.get? name = some { data := bs } := by
  obtain ⟨hfile, stored, hget, hoffset, rfl⟩ := h
  have hwritten : (w.flush f).2 = f.put name { data := stored ++ w.buffer } := by
    unfold Writer.flush
    rw [hfile, Files.update_handle hget, ← hoffset, Content.writeAt_end]
  have hnow : (w.flush f).2.get? name = some { data := stored ++ w.buffer } := by
    rw [hwritten, Files.get?_put_self]
  refine ⟨⟨?_, _, hnow, ?_, List.append_nil _⟩, hnow⟩
  · rw [hwritten]
    exact hfile
  · rw [List.length_append, hoffset]
    rfl

/-- A write empties the buffer first if it must, and always before it writes past it. -/
theorem write_cases (w : Writer) (new : Bytes) (f : Files) :
    ∃ w' f', ((w', f') = w.flush f ∨ (w', f') = (w, f)) ∧
      (capacity ≤ new.length → w'.buffer = []) ∧
      w.write new f =
        if capacity ≤ new.length then
          ({ w' with offset := w'.offset + new.length },
            f'.update w'.file fun c => c.writeAt w'.offset new)
        else ({ w' with buffer := w'.buffer ++ new }, f') := by
  by_cases hfull : capacity < w.buffer.length + new.length
  · refine ⟨(w.flush f).1, (w.flush f).2, .inl rfl, fun _ => rfl, ?_⟩
    unfold Writer.write
    rw [if_pos hfull]
  · refine ⟨w, f, .inr rfl, fun hlong => List.eq_nil_of_length_eq_zero (by omega), ?_⟩
    unfold Writer.write
    rw [if_neg hfull]

theorem Holds.write (h : w.Holds name f bs) (new : Bytes) :
    (w.write new f).1.Holds name (w.write new f).2 (bs ++ new) := by
  obtain ⟨w', f', hroom, hempty, hwrite⟩ := w.write_cases new f
  have hholds : w'.Holds name f' bs := by
    obtain hflush | hsame := hroom
    · have := h.flush.1
      rwa [← hflush] at this
    · cases hsame
      exact h
  rw [hwrite]
  obtain ⟨hfile, stored, hget, hoffset, rfl⟩ := hholds
  split
  · rename_i hlong
    rw [hempty hlong, hfile, Files.update_handle hget, ← hoffset, Content.writeAt_end,
      List.append_nil]
    refine ⟨rfl, _, Files.get?_put_self _ _ _, ?_, List.append_nil _⟩
    rw [List.length_append]
  · exact ⟨hfile, stored, hget, hoffset, (List.append_assoc _ _ _).symm⟩

theorem sameAt_flush {other : String} (h : other ≠ w.file.name) (f : Files) :
    f.SameAt other (w.flush f).2 := Files.sameAt_update h f _

theorem sameAt_write {other : String} (h : other ≠ w.file.name) (new : Bytes) (f : Files) :
    f.SameAt other (w.write new f).2 := by
  obtain ⟨w', f', hroom, -, hwrite⟩ := w.write_cases new f
  obtain ⟨hfile, hsame⟩ : w'.file = w.file ∧ f.SameAt other f' := by
    obtain hflush | hsame := hroom
    · cases hflush
      exact ⟨rfl, sameAt_flush h f⟩
    · cases hsame
      exact ⟨rfl, .refl other f⟩
  rw [hwrite]
  split
  · exact hsame.trans (Files.sameAt_update (by rw [hfile]; exact h) f' _)
  · exact hsame

end Writer

/-! ## Encodings -/

theorem holds_iff (part text : List Char) : holds part text = true ↔ part <:+: text := by
  induction text with
  | nil => cases part <;> simp [holds]
  | cons c text ih =>
    rw [holds, Bool.or_eq_true, ih, List.isPrefixOf_iff_prefix, List.infix_cons_iff]

theorem isKnown_iff (s : Shape) : s.isKnown = true ↔ 0 < s.rows ∧ 0 < s.cols := by
  simp [Shape.isKnown]

/-- How a capture is stored, from the name of its file. -/
theorem encodingOf_eq (images : Bool) (path : String) (shape : Shape) :
    encodingOf images path shape =
      if ".fits".toList <:+: path.toList ∧ 0 < shape.rows ∧ 0 < shape.cols then
        if images then .image else .discard
      else if ".txt".toList <:+: path.toList then .text
      else .binary := by
  unfold encodingOf
  simp only [holds_iff, isKnown_iff]

/-! ## Outputs -/

/-- The whole words of a stream of datagrams. -/
def wordsOf (datagrams : List Bytes) : List Word := datagrams.flatMap Word.decode

/-- The lines of a stream of datagrams, one for every whole word. -/
def linesOf (datagrams : List Bytes) : Bytes :=
  datagrams.flatMap fun data => (Word.decode data).flatMap Output.hexLine

namespace Shape

/-- The image of the shape, as it is made. -/
def blank (s : Shape) : Content := Image.blank s.cols.toNat s.rows.toNat

def pixels (s : Shape) : Nat := s.cols.toNat * s.rows.toNat

/-- The image of the shape, open in a file. -/
def sink (s : Shape) (file : Handle) : Image.Sink :=
  { file, offset := s.blank.data.length, pixels := s.pixels }

/-- What fills the last block of the image. -/
def padding (s : Shape) : Bytes :=
  List.replicate (Image.wholeBlocks (s.pixels * Image.pixelBytes) - s.pixels * Image.pixelBytes) 0

/-- The bytes before a stream that is stored as it comes. -/
def preamble (s : Shape) : Bytes := if s.isKnown then Word.encode [s.cols, s.rows] else []

/-- A file is the image of the shape, filled with words from the start. -/
def Filled (s : Shape) (file : Handle) (ws : List Word) (c : Content) : Prop :=
  (s.sink file).Shows s.blank.data (Image.fill s.pixels ws) s.padding c

theorem filled_blank (s : Shape) (file : Handle) : s.Filled file [] s.blank := by
  have hfill : Image.fill s.pixels [] = List.replicate s.pixels 0 := by simp [Image.fill]
  unfold Filled
  rw [hfill]
  exact Image.shows_blank file s.cols.toNat s.rows.toNat

variable {s : Shape} {file : Handle} {ws : List Word} {c : Content}

theorem Filled.length (h : s.Filled file ws c) : c.length = s.blank.length :=
  (Image.Sink.Shows.length h).trans (Image.Sink.Shows.length (s.filled_blank file)).symm

theorem Filled.outside (h : s.Filled file ws c) {k : Nat}
    (hk : k < s.blank.data.length ∨
      s.blank.data.length + s.pixels * Image.pixelBytes ≤ k) :
    c.bytes[k]? = s.blank.bytes[k]? :=
  (Image.Sink.Shows.getElem?_outside h hk).trans
    (Image.Sink.Shows.getElem?_outside (s.filled_blank file) hk).symm

theorem Filled.pixel (h : s.Filled file ws c) {i : Nat} (hi : i < s.pixels) :
    (c.bytes.drop (s.blank.data.length + i * Image.pixelBytes)).take Image.pixelBytes =
      (ws.getD i 0).bytes :=
  Image.Sink.Shows.pixel h (Image.getElem?_fill hi ws)

end Shape

namespace Output

variable {shape : Shape} {name : String} {f : Files} {datagrams : List Bytes}

/-- What an output of an encoding holds after a stream of datagrams. -/
inductive Stores (shape : Shape) (name : String) (f : Files) (datagrams : List Bytes) :
    Encoding → Output → Prop
  | image {next : Nat} {c : Content} (hnext : next = min shape.pixels (wordsOf datagrams).length)
      (hget : f.get? name = some c) (hfilled : shape.Filled (f.handle name) (wordsOf datagrams) c) :
      Stores shape name f datagrams .image (.image (shape.sink (f.handle name)) next)
  | text {w : Writer} (h : w.Holds name f (linesOf datagrams)) :
      Stores shape name f datagrams .text (.text w)
  | binary {w : Writer} (h : w.Holds name f (shape.preamble ++ datagrams.flatten)) :
      Stores shape name f datagrams .binary (.binary w)
  | discard : Stores shape name f datagrams .discard .discard

variable {e : Encoding} {o : Output}

/-- An output does not see what happens to other files. -/
theorem Stores.sameAt (h : Stores shape name f datagrams e o) {f' : Files}
    (hf : f.SameAt name f') : Stores shape name f' datagrams e o := by
  cases h with
  | image hnext hget hfilled =>
    rw [← hf.handle] at hfilled ⊢
    exact .image hnext (hf.get?.trans hget) hfilled
  | text h => exact .text (h.sameAt hf)
  | binary h => exact .binary (h.sameAt hf)
  | discard => exact .discard

theorem wordsOf_append (datagrams : List Bytes) (data : Bytes) :
    wordsOf (datagrams ++ [data]) = wordsOf datagrams ++ Word.decode data := by
  simp [wordsOf]

/-- An image that is full takes no more words. -/
theorem stores_take_full {next : Nat} {c : Content} (hfull : shape.pixels ≤ next)
    (hnext : next = min shape.pixels (wordsOf datagrams).length)
    (hget : f.get? name = some c) (hfilled : shape.Filled (f.handle name) (wordsOf datagrams) c)
    (data : Bytes) :
    Stores shape name ((image (shape.sink (f.handle name)) next).take data f).2
      (datagrams ++ [data]) .image ((image (shape.sink (f.handle name)) next).take data f).1 := by
  have htake : (image (shape.sink (f.handle name)) next).take data f =
      (image (shape.sink (f.handle name)) next, f) := if_pos hfull
  have hle : shape.pixels ≤ (wordsOf datagrams).length := by omega
  rw [htake]
  refine .image ?_ hget ?_
  · rw [wordsOf_append, List.length_append]
    omega
  · rw [wordsOf_append, Shape.Filled, Image.fill_append_of_le hle]
    exact hfilled

/-- An image takes as many words as it has pixels left. -/
theorem stores_take_room {next : Nat} {c : Content} (hroom : next < shape.pixels)
    (hnext : next = min shape.pixels (wordsOf datagrams).length)
    (hget : f.get? name = some c) (hfilled : shape.Filled (f.handle name) (wordsOf datagrams) c)
    (data : Bytes) :
    Stores shape name ((image (shape.sink (f.handle name)) next).take data f).2
      (datagrams ++ [data]) .image ((image (shape.sink (f.handle name)) next).take data f).1 := by
  obtain ⟨new, hnew⟩ : ∃ new, new = (Word.decode data).take (shape.pixels - next) := ⟨_, rfl⟩
  have htake : (image (shape.sink (f.handle name)) next).take data f =
      (image (shape.sink (f.handle name)) (next + new.length),
        f.put name ((shape.sink (f.handle name)).put next new c)) := by
    rw [← Files.update_handle hget, hnew]
    exact if_neg (Nat.not_le.2 hroom)
  have hlen : next = (wordsOf datagrams).length := by omega
  have hfill : Image.patch next new (Image.fill shape.pixels (wordsOf datagrams)) =
      Image.fill shape.pixels (wordsOf (datagrams ++ [data])) := by
    rw [wordsOf_append, ← Image.fill_append_take, ← hlen, ← hnew, ← Image.patch_fill, ← hnext]
  have hput := hfilled.put next new
  rw [hfill] at hput
  rw [htake]
  refine .image ?_ (f.get?_put_self name _) hput
  rw [wordsOf_append, List.length_append, hnew, List.length_take]
  omega

/-- A datagram is stored after those that came before. -/
theorem Stores.take (h : Stores shape name f datagrams e o) (data : Bytes) :
    Stores shape name (o.take data f).2 (datagrams ++ [data]) e (o.take data f).1 := by
  cases h with
  | @image next c hnext hget hfilled =>
    rcases Nat.lt_or_ge next shape.pixels with hroom | hfull
    · exact stores_take_room hroom hnext hget hfilled data
    · exact stores_take_full hfull hnext hget hfilled data
  | text h =>
    have hlines : linesOf (datagrams ++ [data]) =
        linesOf datagrams ++ (Word.decode data).flatMap hexLine := by simp [linesOf]
    refine .text ?_
    rw [hlines]
    exact h.write _
  | binary h =>
    have hbytes : shape.preamble ++ (datagrams ++ [data]).flatten =
        shape.preamble ++ datagrams.flatten ++ data := by simp
    refine .binary ?_
    rw [hbytes]
    exact h.write _
  | discard => exact .discard

/-! ## The end of an output -/

theorem Stores.finish_image (h : Stores shape name f datagrams .image o) :
    ∃ c, (o.finish f).get? name = some c ∧
      shape.Filled (f.handle name) (wordsOf datagrams) c := by
  cases h with
  | image hnext hget hfilled => exact ⟨_, hget, hfilled⟩

theorem Stores.finish_text (h : Stores shape name f datagrams .text o) :
    (o.finish f).get? name = some { data := linesOf datagrams } := by
  cases h with
  | text h => exact h.flush.2

theorem Stores.finish_binary (h : Stores shape name f datagrams .binary o) :
    (o.finish f).get? name = some { data := shape.preamble ++ datagrams.flatten } := by
  cases h with
  | binary h => exact h.flush.2

theorem Stores.eq_discard (h : Stores shape name f datagrams .discard o) : o = .discard := by
  cases h
  rfl

/-! ## The start of an output -/

theorem isKnown_of_image {images : Bool} {path : String}
    (h : encodingOf images path shape = .image) : 0 < shape.rows ∧ 0 < shape.cols := by
  rw [encodingOf_eq] at h
  split at h
  · rename_i hshape
    exact hshape.2
  · split at h <;> cases h

theorem create_sink {path : String} (hrows : 0 < shape.rows) (hcols : 0 < shape.cols)
    (h : f.target path = .file name) :
    Image.Sink.create path shape.cols.toNat shape.rows.toNat f =
      .ok (shape.sink (f.handle name), (f.put name {}).put name shape.blank) := by
  have hpos : ¬ (shape.cols.toNat = 0 ∨ shape.rows.toNat = 0) := by
    have : 0 < shape.rows.toNat := hrows
    have : 0 < shape.cols.toNat := hcols
    omega
  unfold Image.Sink.create
  rw [if_neg hpos, Files.create_eq h]
  rfl

/-- An output begins if its path leads to a file, or if it needs none. -/
theorem start_stores (images : Bool) {path : String} (shape : Shape)
    (h : encodingOf images path shape ≠ .discard → f.target path = .file name) :
    ∃ o f', Output.start images path shape f = .ok (o, f') ∧
      Stores shape name f' [] (encodingOf images path shape) o ∧
      (encodingOf images path shape = .image → f'.get? name = some shape.blank) ∧
      (encodingOf images path shape = .discard → f' = f) := by
  unfold Output.start
  cases he : encodingOf images path shape with
  | image =>
    have htarget := h (by rw [he]; exact nofun)
    obtain ⟨hrows, hcols⟩ := isKnown_of_image he
    dsimp only
    rw [create_sink hrows hcols htarget]
    exact ⟨_, _, rfl, .image (Nat.min_zero _).symm (Files.get?_put_self _ _ _)
      (shape.filled_blank _), fun _ => Files.get?_put_self _ _ _, nofun⟩
  | text =>
    have htarget := h (by rw [he]; exact nofun)
    dsimp only
    rw [Files.create_eq htarget]
    exact ⟨_, _, rfl, .text (Writer.holds_create f name), nofun,
      nofun⟩
  | binary =>
    have htarget := h (by rw [he]; exact nofun)
    have hstart := Writer.holds_create f name
    dsimp only
    rw [Files.create_eq htarget]
    dsimp only
    split
    · rename_i hknown
      refine ⟨_, _, rfl, .binary ?_, nofun, nofun⟩
      rw [Shape.preamble, if_pos hknown, List.flatten_nil, List.append_nil]
      exact hstart.write _
    · rename_i hunknown
      refine ⟨_, _, rfl, .binary ?_, nofun, nofun⟩
      rw [Shape.preamble, if_neg hunknown]
      exact hstart
  | discard => exact ⟨_, _, rfl, .discard, nofun, fun _ => rfl⟩

/-! ## Other files -/

/-- An output writes to another file. -/
def Spares (name : String) : Output → Prop
  | image sink _ => name ≠ sink.file.name
  | text w => name ≠ w.file.name
  | binary w => name ≠ w.file.name
  | discard => True

theorem sameAt_take (h : o.Spares name) (data : Bytes) (f : Files) :
    f.SameAt name (o.take data f).2 := by
  cases o with
  | image sink next =>
    rcases Nat.lt_or_ge next sink.pixels with hroom | hfull
    · have htake : ((image sink next).take data f).2 =
          sink.write next ((Word.decode data).take (sink.pixels - next)) f :=
        congrArg Prod.snd (if_neg (Nat.not_le.2 hroom))
      rw [htake]
      exact Files.sameAt_update h f _
    · have htake : ((image sink next).take data f).2 = f := congrArg Prod.snd (if_pos hfull)
      rw [htake]
      exact .refl name f
  | text w => exact Writer.sameAt_write h _ f
  | binary w => exact Writer.sameAt_write h _ f
  | discard => exact .refl name f

theorem sameAt_create {path : String} {file : Handle} {f' : Files}
    (hcreate : f.create path = .ok (file, f')) (h : f.target path ≠ .file name) :
    f.SameAt name f' ∧ name ≠ file.name := by
  unfold Files.create at hcreate
  split at hcreate
  case h_4 other htarget =>
    have hne : name ≠ other := by
      rintro rfl
      exact h htarget
    cases hcreate
    exact ⟨Files.sameAt_put hne f _, hne⟩
  all_goals cases hcreate

theorem sameAt_createSink {path : String} {width height : Nat} {sink : Image.Sink} {f' : Files}
    (hcreate : Image.Sink.create path width height f = .ok (sink, f'))
    (h : f.target path ≠ .file name) : f.SameAt name f' ∧ name ≠ sink.file.name := by
  unfold Image.Sink.create at hcreate
  split at hcreate
  · cases hcreate
  · split at hcreate
    · cases hcreate
    · rename_i hfile
      obtain ⟨hsame, hne⟩ := sameAt_create hfile h
      cases hcreate
      exact ⟨hsame.trans (Files.sameAt_put hne _ _), hne⟩

/-- An output that begins in another file. -/
theorem sameAt_start {images : Bool} {path : String} {f' : Files}
    (hstart : Output.start images path shape f = .ok (o, f')) (h : f.target path ≠ .file name) :
    f.SameAt name f' ∧ o.Spares name := by
  unfold Output.start at hstart
  split at hstart
  case h_1 =>
    cases hstart
    exact ⟨.refl name f, trivial⟩
  case h_2 =>
    cases hcreate : Image.Sink.create path shape.cols.toNat shape.rows.toNat f with
    | error e =>
      rw [hcreate] at hstart
      cases hstart
    | ok r =>
      rw [hcreate] at hstart
      cases hstart
      exact sameAt_createSink hcreate h
  case h_3 =>
    split at hstart
    · cases hstart
    · rename_i hcreate
      cases hstart
      exact sameAt_create hcreate h
  case h_4 =>
    split at hstart
    · cases hstart
    · rename_i hcreate
      obtain ⟨hsame, hne⟩ := sameAt_create hcreate h
      -- The shape fits the buffer, so nothing is written yet.
      split at hstart
      · cases hstart
        exact ⟨hsame, hne⟩
      · cases hstart
        exact ⟨hsame, hne⟩

theorem sameAt_finish (h : o.Spares name) (f : Files) : f.SameAt name (o.finish f) := by
  cases o with
  | image sink next => exact .refl name f
  | text w => exact Writer.sameAt_flush h f
  | binary w => exact Writer.sameAt_flush h f
  | discard => exact .refl name f

end Output

end Capture

end Readout
