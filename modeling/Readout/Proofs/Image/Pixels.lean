import Mathlib.Data.List.Basic
import Readout.Image.Fits
/-!
# An image as an array of pixels

A write of bytes inside a file leaves the bytes around them alone, and so does a write of pixels
inside an image.

* `Content.bytes_writeAt` is a write in terms of the bytes of the file; `bytes_writeAt_inside` and
  `writeAt_end` are the two places that outputs write at;
* `patch` is an array of pixels after some were written, `fill` is the one that a stream fills;
* `Sink.Shows` ties the file of an image to its pixels: `shows_blank` for a new image, and
  `shows_put` for a write of pixels.
-/

namespace Readout

/-! ## Bytes -/

namespace Content

/-- A gap before the bytes that are written is filled with zeros. -/
theorem bytes_writeAt (c : Content) (offset : Nat) {bs : Bytes} (h : bs ≠ []) :
    (c.writeAt offset bs).bytes =
      c.bytes.take offset ++ List.replicate (offset - c.length) 0 ++ bs ++
        c.bytes.drop (offset + bs.length) := by
  have hb : bs.isEmpty = false := by simpa using h
  have hgap : offset - c.data.length =
      min (offset - c.data.length) c.hole + (offset - c.length) := by
    simp only [length]
    omega
  have hhole : c.length - (c.data.take offset ++ List.replicate (offset - c.data.length) 0 ++ bs ++
      c.data.drop (offset + bs.length)).length =
      c.hole - (offset + bs.length - c.data.length) := by
    simp only [length, List.length_append, List.length_take, List.length_replicate,
      List.length_drop]
    omega
  simp only [writeAt, hb, Bool.false_eq_true, if_false]
  rw [bytes, hhole, hgap, List.replicate_add]
  simp only [bytes, List.take_append, List.drop_append, List.take_replicate, List.drop_replicate,
    List.append_assoc]

/-- Bytes take the place of as many bytes inside a file. -/
theorem bytes_writeAt_inside {c : Content} {before old after : Bytes}
    (h : c.bytes = before ++ old ++ after) {bs : Bytes} (hlen : bs.length = old.length) :
    (c.writeAt before.length bs).bytes = before ++ bs ++ after := by
  by_cases hbs : bs = []
  · subst hbs
    have hold : old = [] := List.eq_nil_of_length_eq_zero hlen.symm
    show c.bytes = before ++ [] ++ after
    rw [h, hold]
  · have hgap : before.length - c.length = 0 := by
      rw [← length_bytes, h, List.length_append, List.length_append]
      omega
    have hdrop : before.length + bs.length = (before ++ old).length := by
      rw [List.length_append, hlen]
    rw [bytes_writeAt c _ hbs, hgap, h, hdrop, List.drop_left, List.append_assoc before old,
      List.take_left]
    simp

/-- Bytes come after those of a file without a hole. -/
theorem writeAt_end (stored bs : Bytes) :
    Content.writeAt { data := stored } stored.length bs = { data := stored ++ bs } := by
  cases bs with
  | nil => simp [writeAt]
  | cons b bs =>
    have hdrop : stored.drop (stored.length + (b :: bs).length) = [] :=
      List.drop_eq_nil_of_le (Nat.le_add_right _ _)
    simp only [writeAt, List.isEmpty_cons, Bool.false_eq_true, if_false, hdrop, length,
      List.take_length, Nat.sub_self, List.replicate_zero, List.append_nil, List.length_append,
      Nat.add_zero, Nat.sub_eq_zero_of_le (Nat.le_add_right _ _)]

end Content

/-! ## Words -/

theorem Word.encode_replicate_zero (n : Nat) :
    Word.encode (List.replicate n 0) = List.replicate (n * 4) 0 := by
  induction n with
  | zero => rfl
  | succ n ih =>
    rw [List.replicate_succ, Nat.succ_mul, Nat.add_comm, List.replicate_add, ← ih]
    rfl

namespace Image

/-! ## Arrays of pixels -/

/-- An array of pixels after others were written from number `first` on, as far as it goes. -/
def patch (first : Nat) (new pixels : List Word) : List Word :=
  pixels.take first ++ new.take (pixels.length - first) ++ pixels.drop (first + new.length)

theorem length_patch (first : Nat) (new pixels : List Word) :
    (patch first new pixels).length = pixels.length := by
  simp only [patch, List.length_append, List.length_take, List.length_drop]
  omega

theorem getElem?_patch (first : Nat) (new pixels : List Word) (i : Nat) :
    (patch first new pixels)[i]? =
      if first ≤ i ∧ i < first + new.length ∧ i < pixels.length then new[i - first]?
      else pixels[i]? := by
  rcases Nat.lt_or_ge i pixels.length with hlen | hlen
  swap
  · rw [if_neg (by omega), List.getElem?_eq_none hlen,
      List.getElem?_eq_none (by rw [length_patch]; exact hlen)]
  unfold patch
  rcases Nat.lt_or_ge i first with hbefore | hfirst
  · rw [if_neg (by omega), List.append_assoc,
      List.getElem?_append_left (by rw [List.length_take]; omega),
      List.getElem?_take_of_lt hbefore]
  have htake : (pixels.take first).length = first := by
    rw [List.length_take]
    omega
  rcases Nat.lt_or_ge i (first + new.length) with hnew | hafter
  · rw [if_pos ⟨hfirst, hnew, hlen⟩,
      List.getElem?_append_left (by rw [List.length_append, htake, List.length_take]; omega),
      List.getElem?_append_right (by omega), htake, List.getElem?_take_of_lt (by omega)]
  · have hall : new.take (pixels.length - first) = new := List.take_of_length_le (by omega)
    rw [if_neg (by omega), hall, List.getElem?_append_right
      (by rw [List.length_append, htake]; exact hafter), List.length_append, htake,
      List.getElem?_drop, Nat.add_sub_cancel' hafter]

/-- The pixels of an image of `n` pixels that a stream of words fills from the start. -/
def fill (n : Nat) (ws : List Word) : List Word := ws.take n ++ List.replicate (n - ws.length) 0

theorem length_fill (n : Nat) (ws : List Word) : (fill n ws).length = n := by
  simp only [fill, List.length_append, List.length_take, List.length_replicate]
  omega

theorem getElem?_fill {n i : Nat} (h : i < n) (ws : List Word) :
    (fill n ws)[i]? = some (ws.getD i 0) := by
  unfold fill
  rcases Nat.lt_or_ge i ws.length with hi | hi
  · rw [List.getElem?_append_left (by rw [List.length_take]; omega), List.getElem?_take_of_lt h]
    simp [hi]
  · have hlen : (ws.take n).length = ws.length := by
      rw [List.length_take]
      omega
    rw [List.getElem?_append_right (by omega), hlen, List.getElem?_replicate_of_lt (by omega)]
    simp [hi]

/-- More words of the stream are written after those that came before. -/
theorem patch_fill (n : Nat) (ws new : List Word) :
    patch (min n ws.length) new (fill n ws) = fill n (ws ++ new) := by
  refine List.ext_getElem? fun i => ?_
  rcases Nat.lt_or_ge i n with hi | hi
  · rw [getElem?_patch, getElem?_fill hi, getElem?_fill hi, length_fill, List.getD_eq_getElem?_getD,
      List.getD_eq_getElem?_getD]
    rcases Nat.lt_or_ge i ws.length with hold | hnew
    · rw [if_neg (by omega), List.getElem?_append_left hold]
    · have hmin : min n ws.length = ws.length := Nat.min_eq_right (by omega)
      rw [hmin, List.getElem?_append_right hnew, List.getElem?_eq_none hnew]
      split
      · rw [List.getElem?_eq_getElem (by omega)]
        rfl
      · rw [List.getElem?_eq_none (by omega)]
  · rw [List.getElem?_eq_none (by rw [length_patch, length_fill]; exact hi),
      List.getElem?_eq_none (by rw [length_fill]; exact hi)]

/-- Words that do not fit the image do not count. -/
theorem fill_append_take (n : Nat) (ws new : List Word) :
    fill n (ws ++ new.take (n - ws.length)) = fill n (ws ++ new) := by
  have hrest : n - (ws ++ new.take (n - ws.length)).length = n - (ws ++ new).length := by
    simp only [List.length_append, List.length_take]
    omega
  unfold fill
  rw [hrest, List.take_append, List.take_append, List.take_take, Nat.min_self]

/-- Words that come to an image that is full do not count. -/
theorem fill_append_of_le {n : Nat} {ws : List Word} (h : n ≤ ws.length) (new : List Word) :
    fill n (ws ++ new) = fill n ws := by
  have hnone : n - ws.length = 0 := Nat.sub_eq_zero_of_le h
  rw [← fill_append_take, hnone, List.take_zero, List.append_nil]

/-! ## The file of an image -/

theorem le_wholeBlocks (n : Nat) : n ≤ wholeBlocks n := by
  unfold wholeBlocks blockBytes
  omega

namespace Sink

/-- A file is an image: a header, its pixels, and what fills the last block. -/
structure Shows (s : Sink) (header pixels padding) (c : Content) : Prop where
  bytes : c.bytes = header ++ Word.encode pixels ++ padding
  header : header.length = s.offset
  pixels : pixels.length = s.pixels

variable {s : Sink} {header padding : Bytes} {pixels : List Word} {c : Content}

theorem Shows.length (h : s.Shows header pixels padding c) :
    c.length = s.offset + s.pixels * pixelBytes + padding.length := by
  rw [← Content.length_bytes, h.bytes, List.length_append, List.length_append, h.header,
    Word.length_encode, h.pixels, pixelBytes]
  omega

/-- The bytes outside the pixels are those of the header and the padding. -/
theorem Shows.getElem?_outside (h : s.Shows header pixels padding c) {k : Nat}
    (hk : k < s.offset ∨ s.offset + s.pixels * pixelBytes ≤ k) : c.bytes[k]? =
      if k < s.offset then header[k]? else padding[k - (s.offset + s.pixels * pixelBytes)]? := by
  have hlen : (header ++ Word.encode pixels).length = s.offset + s.pixels * pixelBytes := by
    rw [List.length_append, h.header, Word.length_encode, h.pixels, pixelBytes, Nat.mul_comm]
  rw [h.bytes]
  split
  · rename_i hheader
    rw [List.append_assoc, List.getElem?_append_left (by rw [h.header]; exact hheader)]
  · rename_i hheader
    rw [List.getElem?_append_right (by rw [hlen]; exact hk.resolve_left hheader), hlen]

/-- The bytes of a pixel, by its number. -/
theorem Shows.pixel (h : s.Shows header pixels padding c) {i : Nat} {w : Word}
    (hi : pixels[i]? = some w) :
    (c.bytes.drop (s.offset + i * pixelBytes)).take pixelBytes = w.bytes := by
  obtain ⟨hlt, hw⟩ := List.getElem?_eq_some_iff.1 hi
  have hsplit : pixels = pixels.take i ++ w :: pixels.drop (i + 1) := by
    rw [← hw, ← List.drop_eq_getElem_cons hlt, List.take_append_drop]
  have hbytes : c.bytes = (header ++ Word.encode (pixels.take i)) ++
      (w.bytes ++ (Word.encode (pixels.drop (i + 1)) ++ padding)) := by
    have hencode : Word.encode pixels =
        Word.encode (pixels.take i) ++ (w.bytes ++ Word.encode (pixels.drop (i + 1))) :=
      (congrArg Word.encode hsplit).trans (Word.encode_append _ _)
    rw [h.bytes, hencode]
    simp only [List.append_assoc]
  have hoffset : s.offset + i * pixelBytes = (header ++ Word.encode (pixels.take i)).length := by
    rw [List.length_append, h.header, Word.length_encode, List.length_take, pixelBytes]
    omega
  rw [hoffset, hbytes, List.drop_left]
  show (w.bytes ++ _).take w.bytes.length = w.bytes
  exact List.take_left

/-- A write of pixels writes them into the array and changes nothing else. -/
theorem Shows.put (h : s.Shows header pixels padding c) (first : Nat) (new : List Word) :
    s.Shows header (patch first new pixels) padding (s.put first new c) := by
  refine ⟨?_, h.header, by rw [length_patch, h.pixels]⟩
  unfold Sink.put
  split
  · have hnone : patch first new pixels = pixels := by
      refine List.ext_getElem? fun i => ?_
      rw [getElem?_patch, if_neg (by rw [h.pixels]; omega)]
    rw [hnone, h.bytes]
  · rename_i hfirst
    have hlen := h.pixels
    have hold : pixels = pixels.take first ++ ((pixels.drop first).take new.length ++
        pixels.drop (first + new.length)) := by
      rw [← List.drop_drop, List.take_append_drop, List.take_append_drop]
    have hbytes : c.bytes = (header ++ Word.encode (pixels.take first)) ++
        Word.encode ((pixels.drop first).take new.length) ++
          (Word.encode (pixels.drop (first + new.length)) ++ padding) := by
      have hencode := congrArg Word.encode hold
      rw [Word.encode_append, Word.encode_append] at hencode
      rw [h.bytes, hencode]
      simp only [List.append_assoc]
    have hoffset : s.offset + first * pixelBytes =
        (header ++ Word.encode (pixels.take first)).length := by
      rw [List.length_append, h.header, Word.length_encode, List.length_take, pixelBytes]
      omega
    have hnew : (Word.encode (new.take (s.pixels - first))).length =
        (Word.encode ((pixels.drop first).take new.length)).length := by
      simp only [Word.length_encode, List.length_take, List.length_drop, hlen]
      omega
    rw [hoffset, Content.bytes_writeAt_inside hbytes hnew, patch, hlen, Word.encode_append,
      Word.encode_append]
    simp only [List.append_assoc]

end Sink

/-- The pixels of a new image are zero. -/
theorem shows_blank (file : Handle) (width height : Nat) :
    Sink.Shows { file, offset := (blank width height).data.length, pixels := width * height }
      (blank width height).data (List.replicate (width * height) 0)
      (List.replicate (wholeBlocks (width * height * pixelBytes) - width * height * pixelBytes) 0)
      (blank width height) where
  bytes := by
    have hsplit := Nat.add_sub_cancel' (le_wholeBlocks (width * height * pixelBytes))
    show _ ++ List.replicate (wholeBlocks (width * height * pixelBytes)) 0 = _
    rw [Word.encode_replicate_zero, List.append_assoc, ← List.replicate_add]
    exact congrArg (fun n => _ ++ List.replicate n 0) hsplit.symm
  header := rfl
  pixels := List.length_replicate

end Image

end Readout
