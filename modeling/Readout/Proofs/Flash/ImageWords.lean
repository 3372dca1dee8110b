import Readout.Flash.Firmware
import Readout.Proofs.Flash.Pages
/-!
# The words of an image

An image is a string of bytes, the flash a run of words.  Byte `o` of an image is byte `o % 4` of
word `o / 4`, least significant first, and what lies past the end of the image is erased.

* `byte_imageWords` is that correspondence;
* `imagePage_drop`: the page that the rest of an image begins with is a page of its words.
-/

namespace Readout.Flash

/-- Byte `k` of a word in an image, least significant first. -/
def imageByte (w : Word) (k : Nat) : UInt8 := UInt8.ofNat (w.toNat / 256 ^ k)

theorem byte_cases {k : Nat} (hk : k < 4) : k = 0 ∨ k = 1 ∨ k = 2 ∨ k = 3 := by omega

theorem imageByte_imageWord (a b c d : UInt8) {k : Nat} (hk : k < 4) :
    imageByte (imageWord a b c d) k = [a, b, c, d][k] := by
  have ha := a.toNat_lt; have hb := b.toNat_lt; have hc := c.toNat_lt; have hd := d.toNat_lt
  rw [← UInt8.toNat_inj, imageByte, imageWord, Word.ofBytes]
  rcases byte_cases hk with rfl | rfl | rfl | rfl
  all_goals
    simp only [UInt8.toNat_ofNat', UInt32.toNat_ofNat', List.getElem_cons_zero,
      List.getElem_cons_succ]
    omega

theorem imageByte_erased {k : Nat} (hk : k < 4) : imageByte erasedWord k = 0xFF := by
  rcases byte_cases hk with rfl | rfl | rfl | rfl <;> decide

/-- A word goes before words that hold the bytes after it. -/
theorem byte_cons (a b c d : UInt8) {ws : List Word} {r : Bytes}
    (h : ∀ o, imageByte (padded ws (o / 4)) (o % 4) = r.getD o 0xFF) (o : Nat) :
    imageByte (padded (imageWord a b c d :: ws) (o / 4)) (o % 4) =
      (a :: b :: c :: d :: r).getD o 0xFF := by
  rcases Nat.lt_or_ge o 4 with ho | ho
  · rw [Nat.div_eq_of_lt ho, Nat.mod_eq_of_lt ho]
    show imageByte (imageWord a b c d) o = _
    rw [imageByte_imageWord a b c d ho]
    rcases byte_cases ho with rfl | rfl | rfl | rfl <;> rfl
  · obtain ⟨n, rfl⟩ : ∃ n, o = n + 4 := ⟨o - 4, by omega⟩
    rw [Nat.add_div_right n (by decide), Nat.add_mod_right]
    exact h n

theorem byte_nil (o : Nat) : imageByte (padded [] (o / 4)) (o % 4) = ([] : Bytes).getD o 0xFF :=
  imageByte_erased (Nat.mod_lt _ (by decide))

/-- The bytes of an image are the bytes of its words. -/
theorem byte_imageWords (image : Bytes) (o : Nat) :
    imageByte (padded (imageWords image) (o / 4)) (o % 4) = image.getD o 0xFF := by
  induction image using imageWords.induct generalizing o with
  | case1 a b c d r ih => exact byte_cons a b c d ih o
  | case2 => exact byte_nil o
  | case3 a =>
    refine (byte_cons a 0xFF 0xFF 0xFF byte_nil o).trans ?_
    rcases o with _ | _ | _ | _ | _ <;> rfl
  | case4 a b =>
    refine (byte_cons a b 0xFF 0xFF byte_nil o).trans ?_
    rcases o with _ | _ | _ | _ | _ <;> rfl
  | case5 a b c =>
    refine (byte_cons a b c 0xFF byte_nil o).trans ?_
    rcases o with _ | _ | _ | _ | _ <;> rfl

/-! ## Pages -/

theorem imageWords_take (image : Bytes) (n : Nat) :
    imageWords (image.take (4 * n)) = (imageWords image).take n := by
  induction n generalizing image with
  | zero => rfl
  | succ n ih =>
    rw [Nat.mul_succ]
    rcases image with _ | ⟨a, _ | ⟨b, _ | ⟨c, _ | ⟨d, r⟩⟩⟩⟩
    iterate 4 simp [imageWords]
    exact congrArg (imageWord a b c d :: ·) (ih r)

theorem imageWords_drop (image : Bytes) (n : Nat) :
    imageWords (image.drop (4 * n)) = (imageWords image).drop n := by
  induction n generalizing image with
  | zero => rfl
  | succ n ih =>
    rw [Nat.mul_succ]
    rcases image with _ | ⟨a, _ | ⟨b, _ | ⟨c, _ | ⟨d, r⟩⟩⟩⟩
    iterate 4 simp [imageWords]
    exact ih r

/-- The page that the rest of an image begins with is a page of its words. -/
theorem imagePage_drop (image : Bytes) (k : Nat) :
    imagePage (image.drop (pageBytes * k)) = pageAt (imageWords image) k := by
  have hbytes : pageBytes * k = 4 * (pageWords * k) := by simp only [pageBytes, pageWords]; omega
  rw [imagePage, show pageBytes = 4 * pageWords from rfl, imageWords_take, padPage_take,
    Nat.mul_assoc, imageWords_drop]
  refine List.map_congr_left fun i _ => ?_
  rw [padded_drop, Nat.mul_zero, Nat.zero_add]

end Readout.Flash
