import Readout.Proofs.Capture.Stored
import Readout.Proofs.Image.Added
/-!
# Writes of pixels in any order

The pixels of an image may be written piece by piece, in any order, again, and beyond the end of the
image.  The file stays an image of its shape, and a pixel is what the last write over it says.

* `Stroke` is a write of pixels, `latest?` what the last of many writes gives a pixel;
* `getElem?_paint`: the array of pixels after strokes;
* `Sink.Open` is an image in a directory: `Sink.Open.write` for a stroke, `Sink.Open.paint` for all;
* `strokes_paint`: from the creation of an image over any strokes to the bytes of its file.
-/

namespace Readout.Image

/-! ## Strokes -/

/-- A write of pixels: the number of the first one, and their values. -/
structure Stroke where
  first : Nat
  pixels : List Word

/-- What a stroke gives pixel `i`, if it covers it. -/
def Stroke.at? (s : Stroke) (i : Nat) : Option Word :=
  if s.first ≤ i then s.pixels[i - s.first]? else none

/-- What the last stroke over pixel `i` gives it. -/
def latest? (strokes : List Stroke) (i : Nat) : Option Word :=
  strokes.reverse.findSome? (·.at? i)

/-- An array of pixels after strokes. -/
def paint (strokes : List Stroke) (pixels : List Word) : List Word :=
  strokes.foldl (fun ps s => patch s.first s.pixels ps) pixels

theorem getElem?_stroke (s : Stroke) {pixels : List Word} {i : Nat} (h : i < pixels.length) :
    (patch s.first s.pixels pixels)[i]? = (s.at? i).or pixels[i]? := by
  rw [getElem?_patch, Stroke.at?]
  by_cases hfirst : s.first ≤ i
  · by_cases hlast : i < s.first + s.pixels.length
    · rw [if_pos ⟨hfirst, hlast, h⟩, if_pos hfirst, List.getElem?_eq_getElem (by omega)]
      rfl
    · have hbeyond : s.pixels[i - s.first]? = none := List.getElem?_eq_none (by omega)
      rw [if_neg (by omega), if_pos hfirst, hbeyond, Option.none_or]
  · rw [if_neg (by omega), if_neg hfirst]
    rfl

/-- Pixel `i` is what the last stroke over it says, and as it was if there is none. -/
theorem getElem?_paint (strokes : List Stroke) {pixels : List Word} {i : Nat}
    (h : i < pixels.length) :
    (paint strokes pixels)[i]? = (latest? strokes i).or pixels[i]? := by
  induction strokes generalizing pixels with
  | nil => rfl
  | cons s rest ih =>
    have hpatch : i < (patch s.first s.pixels pixels).length := by rwa [length_patch]
    have hrest := ih hpatch
    rw [getElem?_stroke s h] at hrest
    have hlatest : latest? (s :: rest) i = (latest? rest i).or (s.at? i) := by
      simp [latest?, List.findSome?_append]
    rw [hlatest, Option.or_assoc]
    exact hrest

/-! ## The file -/

namespace Sink

/-- Write strokes to the file of an image, one after the other. -/
def writeAll (s : Sink) (strokes : List Stroke) (f : Files) : Files :=
  strokes.foldl (fun f stroke => s.write stroke.first stroke.pixels f) f

/-- An open image leads to its file, which shows its header, its pixels and its padding. -/
structure Open (s : Sink) (header pixels padding) (f : Files) : Prop where
  handle : f.handle s.file.name = s.file
  shows : ∃ c, f.get? s.file.name = some c ∧ s.Shows header pixels padding c

variable {s : Sink} {header padding : Bytes} {pixels : List Word} {f : Files}

/-- A write of pixels leaves an open image open, with other pixels. -/
theorem Open.write (h : s.Open header pixels padding f) (first : Nat) (new : List Word) :
    s.Open header (patch first new pixels) padding (s.write first new f) := by
  obtain ⟨c, hget, hshows⟩ := h.shows
  have hwrite : s.write first new f = f.put s.file.name (s.put first new c) := by
    rw [Sink.write, ← h.handle]
    exact Files.update_handle hget _
  rw [hwrite]
  exact ⟨h.handle, _, Files.get?_put_self _ _ _, hshows.put first new⟩

theorem Open.writeAll (strokes : List Stroke) :
    ∀ {pixels f}, s.Open header pixels padding f →
      s.Open header (paint strokes pixels) padding (s.writeAll strokes f) := by
  induction strokes with
  | nil => exact fun h => h
  | cons stroke rest ih => exact fun h => ih (h.write stroke.first stroke.pixels)

/-- Strokes leave all other files as they are. -/
theorem writeAll_other (strokes : List Stroke) {other : String} (h : other ≠ s.file.name) :
    ∀ f, (s.writeAll strokes f).get? other = f.get? other := by
  induction strokes with
  | nil => exact fun f => rfl
  | cons stroke rest ih =>
    intro f
    have hwrite := (Files.sameAt_update h f (s.put stroke.first stroke.pixels)).get?
    exact (ih _).trans hwrite

/-- A new image is open, and its pixels are zero. -/
theorem create_open {path name : String} (hpath : f.target path = .file name) {width height : Nat}
    (hwidth : 0 < width) (hheight : 0 < height) :
    ∃ s f', create path width height f = .ok (s, f') ∧ s.file.name = name ∧ s.offset = 2880 ∧
      s.pixels = width * height ∧
      s.Open (blank width height).data (List.replicate (width * height) 0)
        (List.replicate (wholeBlocks (width * height * pixelBytes) - width * height * pixelBytes) 0)
        f' ∧
      ∀ other, other ≠ name → f'.get? other = f.get? other := by
  have hpos : ¬ (width = 0 ∨ height = 0) := by omega
  let s : Sink := ⟨f.handle name, (blank width height).data.length, width * height⟩
  refine ⟨s, (f.put name {}).put name (blank width height), ?_, ?_, ?_, ?_, ⟨?_, ?_⟩, ?_⟩
  · rw [create, if_neg hpos, Files.create_eq hpath]
    rfl
  · rfl
  · exact length_primary width height
  · rfl
  · rfl
  · exact ⟨_, Files.get?_put_self _ _ _, shows_blank _ width height⟩
  · intro other hother
    have hempty := (Files.sameAt_put hother f {}).get?
    exact (Files.sameAt_put hother _ _).get?.trans hempty

end Sink

/-- **An image is an array of pixels.**  Strokes over a new image, in any order and also beyond its
end, leave the length of its file, its header and the zeros behind its pixels as they were made.  A
pixel is what the last stroke over it says, most significant byte first, and zero if there is none.
The other files stay as they are. -/
theorem strokes_paint {f : Files} {path name : String} (hpath : f.target path = .file name)
    {width height : Nat} (hwidth : 0 < width) (hheight : 0 < height) (strokes : List Stroke) :
    ∃ s f' c, Sink.create path width height f = .ok (s, f') ∧
      (s.writeAll strokes f').get? name = some c ∧
      c.bytes.length = 2880 + 2880 * ((4 * (width * height) + 2879) / 2880) ∧
      c.bytes.take 2880 = Header.encode (Header.primary width height) ∧
      (∀ i < width * height,
        (c.bytes.drop (2880 + 4 * i)).take 4 = ((latest? strokes i).getD 0).bytes) ∧
      (∀ k, 2880 + 4 * (width * height) ≤ k → k < c.bytes.length → c.bytes[k]? = some 0) ∧
      ∀ other, other ≠ name → (s.writeAll strokes f').get? other = f.get? other := by
  obtain ⟨s, f', hcreate, hname, hoffset, hpixels, hopen, hothers⟩ :=
    Sink.create_open hpath hwidth hheight
  obtain ⟨c, hget, hshows⟩ := (hopen.writeAll strokes).shows
  have hpixelBytes : width * height * pixelBytes = 4 * (width * height) := Nat.mul_comm _ _
  have hlength := hshows.length
  rw [hoffset, hpixels, List.length_replicate, hpixelBytes] at hlength
  have hblocks : 4 * (width * height) ≤ wholeBlocks (4 * (width * height)) := le_wholeBlocks _
  rw [hname] at hget
  refine ⟨s, f', c, hcreate, hget, ?length, ?header, ?pixels, ?padding, ?others⟩
  case length =>
    rw [Content.length_bytes, hlength]
    simp only [wholeBlocks, blockBytes] at hblocks ⊢
    omega
  case header =>
    have hheader : (blank width height).data.length = 2880 := length_primary width height
    rw [hshows.bytes, List.append_assoc, ← hheader]
    exact List.take_left
  case pixels =>
    intro i hi
    have hcovered : i < (List.replicate (width * height) (0 : Word)).length := by
      rwa [List.length_replicate]
    have hpixel := getElem?_paint strokes hcovered
    rw [List.getElem?_replicate_of_lt hi] at hpixel
    have hvalue : (latest? strokes i).or (some 0) = some ((latest? strokes i).getD 0) := by
      cases latest? strokes i <;> rfl
    have hbytes := hshows.pixel (hpixel.trans hvalue)
    rw [hoffset, pixelBytes, Nat.mul_comm i] at hbytes
    exact hbytes
  case padding =>
    intro k hfirst hlast
    rw [Content.length_bytes, hlength] at hlast
    have houtside := hshows.getElem?_outside (k := k) (by rw [hoffset, hpixels, hpixelBytes]; omega)
    rw [hoffset, hpixels, hpixelBytes, if_neg (by omega),
      List.getElem?_replicate_of_lt (by omega)] at houtside
    exact houtside
  case others =>
    intro other hother
    rw [← hothers other hother]
    exact Sink.writeAll_other strokes (by rwa [hname]) f'

/-- The last of three strokes covers the last pixel and reaches beyond the image, and the second one
lies beyond it altogether. -/
theorem strokes_paint_clipped : ∃ s f' c,
    Sink.create "a.fits" 2 2 {} = .ok (s, f') ∧
      (s.writeAll [⟨0, [1, 2, 3, 4]⟩, ⟨4, [5]⟩, ⟨3, [6, 7]⟩] f').get? "a.fits" = some c ∧
      c.bytes.length = 5760 ∧ (c.bytes.drop 2888).take 4 = [0, 0, 0, 3] ∧
      (c.bytes.drop 2892).take 4 = [0, 0, 0, 6] ∧ c.bytes[2896]? = some 0 := by
  have hpath : Files.target {} "a.fits" = .file "a.fits" := rfl
  have hpos : 0 < 2 := by decide
  obtain ⟨s, f', c, hcreate, hget, hlength, -, hpixels, hpadding, -⟩ :=
    strokes_paint hpath hpos hpos [⟨0, [1, 2, 3, 4]⟩, ⟨4, [5]⟩, ⟨3, [6, 7]⟩]
  have hlength : c.bytes.length = 5760 := hlength
  exact ⟨s, f', c, hcreate, hget, hlength, hpixels 2 (by decide), hpixels 3 (by decide),
    hpadding 2896 (by decide) (by rw [hlength]; decide)⟩

end Readout.Image
