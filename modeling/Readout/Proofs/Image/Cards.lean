import Mathlib.Algebra.BigOperators.Group.List.Basic
import Mathlib.Order.Bounds.Basic
import Readout.Proofs.Image.Pixels
/-!
# Headers are read back

A header ends at the first card that reads `END` and nothing else.  No card that is written reads so,
whatever its keyword, its value and its comment: a keyword of the fixed form has its equals sign in
the ninth place, and every other card begins with another letter.

* `Card.ne_endBytes`, `Card.printing`: what a written card can be;
* `Header.chunks_flatten`: whole cards are cut off one by one;
* `Header.Inner` are the cards that a header can hold, `Header.cards_assemble` and
  `Header.length?_assemble` read a header of them, whatever follows it;
* `Header.laid_assemble`: how long a header is, and what fills it;
* `Header.read_encode` puts these together for a list of cards.
-/

namespace Readout.Image

/-! ## Written cards -/

namespace Card

/-- A card begins with the characters that its text begins with, if they are printed. -/
theorem bytes_lead {c : Card} {lead rest : List Char} (h : c.text = lead ++ rest)
    (hprint : ∀ ch ∈ lead, isPrinting ch = true) (hlen : lead.length ≤ size) :
    ∃ tail, c.bytes = lead.map (fun ch => UInt8.ofNat ch.toNat) ++ tail := by
  have hfilter : c.text.filter isPrinting = lead ++ rest.filter isPrinting := by
    rw [h, List.filter_append, List.filter_eq_self.2 hprint]
  have htake : ∀ more : Bytes, (lead.map (fun ch => UInt8.ofNat ch.toNat) ++ more).take size =
      lead.map (fun ch => UInt8.ofNat ch.toNat) ++ more.take (size - lead.length) := by
    intro more
    rw [List.take_append, List.length_map, List.take_of_length_le (by rwa [List.length_map])]
  rw [bytes, hfilter, List.map_append, fit, htake, List.append_assoc]
  exact ⟨_, rfl⟩

/-- A card that begins with another letter than `END` is not the end. -/
theorem ne_endBytes_of_letter {c : Card} {letter : Char} {rest : List Char}
    (h : c.text = letter :: rest) (hprint : isPrinting letter = true)
    (hletter : UInt8.ofNat letter.toNat ≠ 0x45) : c.bytes ≠ endBytes := by
  have hlead : c.text = [letter] ++ rest := h
  obtain ⟨tail, hbytes⟩ := bytes_lead hlead (by simpa using hprint) (Nat.le_add_left 1 79)
  intro hend
  have hfirst := congrArg (·[0]?) (hbytes.symm.trans hend)
  exact hletter (Option.some.inj hfirst)

theorem isPrinting_of_isKeywordChar {ch : Char} (h : isKeywordChar ch = true) :
    isPrinting ch = true := by
  simp only [isKeywordChar, Bool.or_eq_true, Bool.and_eq_true, decide_eq_true_eq, beq_iff_eq,
    Char.le_def, UInt32.le_iff_toNat_le] at h
  rw [isPrinting, Bool.and_eq_true, decide_eq_true_eq, decide_eq_true_eq]
  rcases h with ((⟨hlo, hhi⟩ | ⟨hlo, hhi⟩) | rfl) | rfl
  · exact ⟨Nat.le_trans (by decide) hlo, Nat.le_trans hhi (by decide)⟩
  · exact ⟨Nat.le_trans (by decide) hlo, Nat.le_trans hhi (by decide)⟩
  · decide
  · decide

/-- A card with an equals sign in the ninth place, after a keyword, is not the end. -/
theorem ne_endBytes_of_plain {c : Card} {keyword rest : List Char}
    (hplain : isPlainKeyword keyword = true)
    (h : c.text = Text.padRight 8 ' ' keyword ++ '=' :: rest) : c.bytes ≠ endBytes := by
  rw [isPlainKeyword, Bool.and_eq_true, decide_eq_true_eq, List.all_eq_true] at hplain
  obtain ⟨hshort, hchars⟩ := hplain
  have hlen : (Text.padRight 8 ' ' keyword).length = 8 := by
    rw [Text.length_padRight]
    omega
  have hprint : ∀ ch ∈ Text.padRight 8 ' ' keyword ++ ['='], isPrinting ch = true := by
    intro ch hch
    simp only [Text.padRight, List.mem_append, List.mem_replicate, List.mem_singleton] at hch
    rcases hch with (hch | ⟨-, rfl⟩) | rfl
    · exact isPrinting_of_isKeywordChar (hchars ch hch)
    · decide
    · decide
  have hlead : c.text = (Text.padRight 8 ' ' keyword ++ ['=']) ++ rest :=
    h.trans (List.append_cons _ _ _)
  obtain ⟨tail, hbytes⟩ := bytes_lead hlead hprint (by rw [List.length_append, hlen]; decide)
  intro hend
  have hninth := congrArg (·[8]?) (hbytes.symm.trans hend)
  rw [List.map_append, List.append_assoc, List.getElem?_append_right (by simp [hlen]),
    List.length_map, hlen] at hninth
  exact absurd (Option.some.inj hninth) (by decide)

/-- No card that is written ends a header. -/
theorem ne_endBytes (c : Card) : c.bytes ≠ endBytes := by
  obtain ⟨keyword, hkeyword⟩ : ∃ keyword, keyword = c.keywordText := ⟨_, rfl⟩
  by_cases hremark : isRemark keyword = true
  · have htext : c.text = Text.padRight 8 ' ' keyword ++ c.comment.toList := by
      unfold text
      rw [← hkeyword]
      exact if_pos hremark
    simp only [isRemark, Bool.or_eq_true, beq_iff_eq] at hremark
    rcases hremark with rfl | rfl
    · exact ne_endBytes_of_letter htext (by decide) (by decide)
    · exact ne_endBytes_of_letter htext (by decide) (by decide)
  -- Cards with a value may be followed by a comment.
  have htext : ∃ more, c.text =
      (if isPlainKeyword keyword then
        Text.padRight 8 ' ' keyword ++ '=' :: ' ' :: valueField c.value
      else "HIERARCH ".toList ++ keyword ++ " = ".toList ++ freeValue c.value) ++ more := by
    unfold text
    rw [← hkeyword]
    dsimp only
    rw [if_neg hremark]
    split
    · exact ⟨[], (List.append_nil _).symm⟩
    · exact ⟨_, List.append_assoc _ _ _⟩
  obtain ⟨more, htext⟩ := htext
  by_cases hplain : isPlainKeyword keyword = true
  · rw [if_pos hplain, List.append_assoc] at htext
    exact ne_endBytes_of_plain hplain htext
  · rw [if_neg hplain] at htext
    exact ne_endBytes_of_letter htext (by decide) (by decide)

/-- Every byte of a card is printable ASCII. -/
theorem printing (c : Card) {b : UInt8} (h : b ∈ c.bytes) : 0x20 ≤ b.toNat ∧ b.toNat ≤ 0x7E := by
  rcases List.mem_append.1 h with hwritten | hfilled
  · obtain ⟨ch, hch, rfl⟩ := List.mem_map.1 (List.mem_of_mem_take hwritten)
    have hprint := (List.mem_filter.1 hch).2
    rw [isPrinting, Bool.and_eq_true, decide_eq_true_eq, decide_eq_true_eq] at hprint
    rw [UInt8.toNat_ofNat', Nat.mod_eq_of_lt (by omega)]
    exact hprint
  · rw [List.eq_of_mem_replicate hfilled]
    decide

end Card

/-! ## Whole blocks -/

theorem dvd_wholeBlocks (n : Nat) : blockBytes ∣ wholeBlocks n := Nat.dvd_mul_left _ _

theorem wholeBlocks_le {n m : Nat} (hdvd : blockBytes ∣ m) (h : n ≤ m) : wholeBlocks n ≤ m := by
  obtain ⟨k, rfl⟩ := hdvd
  unfold wholeBlocks blockBytes at *
  omega

theorem wholeBlocks_mono {n m : Nat} (h : n ≤ m) : wholeBlocks n ≤ wholeBlocks m :=
  wholeBlocks_le (dvd_wholeBlocks m) (h.trans (le_wholeBlocks m))

theorem length_padBlocks (fill : UInt8) (bs : Bytes) :
    (padBlocks fill bs).length = wholeBlocks bs.length := by
  have hle := le_wholeBlocks bs.length
  rw [padBlocks, List.length_append, List.length_replicate]
  omega

namespace Header

/-! ## Cutting off cards -/

theorem chunks_append {card : Bytes} (h : card.length = Card.size) (rest : Bytes) :
    chunks (card ++ rest) = card :: chunks rest := by
  have htake : (card ++ rest).take Card.size = card := by rw [← h, List.take_left]
  have hdrop : (card ++ rest).drop Card.size = rest := by rw [← h, List.drop_left]
  rw [chunks]
  simp only [htake, hdrop, h, if_true]

theorem chunks_flatten {cs : List Bytes} (h : ∀ card ∈ cs, card.length = Card.size)
    (rest : Bytes) : chunks (cs.flatten ++ rest) = cs ++ chunks rest := by
  induction cs with
  | nil => rfl
  | cons card cs ih =>
    rw [List.flatten_cons, List.append_assoc, chunks_append (h card (by simp)),
      ih fun other hother => h other (by simp [hother])]
    rfl

theorem length_flatten_cards {cs : List Bytes} (h : ∀ card ∈ cs, card.length = Card.size) :
    cs.flatten.length = cs.length * Card.size := by
  rw [List.length_flatten, List.map_congr_left h, List.map_const', List.sum_const_nat]

/-! ## The end -/

theorem isEnd_iff {card : Bytes} (h : card.length = Card.size) :
    isEnd card = true ↔ card = Card.endBytes := by
  rw [isEnd, Bool.and_eq_true, beq_iff_eq, List.all_eq_true]
  constructor
  · rintro ⟨hmark, hblank⟩
    have hrest : card.drop 3 = List.replicate 77 0x20 := by
      refine List.eq_replicate_iff.2 ⟨by rw [List.length_drop, h]; rfl, fun b hb => ?_⟩
      exact beq_iff_eq.1 (hblank b hb)
    rw [← List.take_append_drop 3 card, hmark, hrest]
    rfl
  · rintro rfl
    have hblank : Card.endBytes.drop 3 = List.replicate 77 0x20 := rfl
    refine ⟨rfl, fun b hb => ?_⟩
    rw [hblank] at hb
    exact beq_iff_eq.2 (List.eq_of_mem_replicate hb)

/-- Cards that a header can hold: each of the size of a card, and none that ends the header. -/
def Inner (cs : List Bytes) : Prop := ∀ card ∈ cs, card.length = Card.size ∧ isEnd card = false

variable {cs : List Bytes}

theorem Inner.length (h : Inner cs) : ∀ card ∈ cs, card.length = Card.size :=
  fun card hcard => (h card hcard).1

theorem Inner.append {cs' : List Bytes} (h : Inner cs) (h' : Inner cs') : Inner (cs ++ cs') := by
  intro card hcard
  rcases List.mem_append.1 hcard with hcard | hcard
  · exact h card hcard
  · exact h' card hcard

/-- Cards that are written can stand in a header. -/
theorem inner_bytes (cards : List Card) : Inner (cards.map Card.bytes) := by
  intro card hcard
  obtain ⟨c, -, rfl⟩ := List.mem_map.1 hcard
  refine ⟨c.length_bytes, Bool.eq_false_iff.2 fun hend => ?_⟩
  exact c.ne_endBytes ((isEnd_iff c.length_bytes).1 hend)

/-! ## Reading -/

/-- The cards before the end are read, whatever comes after it. -/
theorem cards_flatten (h : Inner cs) (rest : Bytes) :
    cards (cs.flatten ++ (Card.endBytes ++ rest)) = cs := by
  have hall : ∀ card ∈ cs, (!isEnd card) = true := fun card hcard => by
    rw [(h card hcard).2]
    rfl
  have hnone : (Card.endBytes :: chunks rest).takeWhile (fun card => !isEnd card) = [] := rfl
  rw [cards, chunks_flatten h.length, chunks_append rfl, List.takeWhile_append_of_pos hall, hnone,
    List.append_nil]

/-- The header is as long as its blocks, whatever comes after its end. -/
theorem length?_flatten (h : Inner cs) (rest : Bytes) :
    length? (cs.flatten ++ (Card.endBytes ++ rest)) =
      some (wholeBlocks ((cs.length + 1) * Card.size)) := by
  have hnone : cs.findIdx? isEnd = none := by
    rw [List.findIdx?_eq_none_iff]
    exact fun card hcard => (h card hcard).2
  have hfirst : (Card.endBytes :: chunks rest).findIdx? isEnd = some 0 := rfl
  rw [length?, chunks_flatten h.length, chunks_append rfl, List.findIdx?_append, hnone, hfirst]
  simp

/-! ## Layout -/

/-- A header of cards: the cards, the card that ends them, and spaces up to the least number of
blocks that holds them. -/
structure Laid (cs : List Bytes) (header : Bytes) : Prop where
  bytes : header = cs.flatten ++ Card.endBytes ++
    List.replicate (header.length - (cs.length + 1) * Card.size) 0x20
  length : IsLeast {n | blockBytes ∣ n ∧ (cs.length + 1) * Card.size ≤ n} header.length

theorem length_assemble (h : Inner cs) :
    (assemble cs).length = wholeBlocks ((cs.length + 1) * Card.size) := by
  rw [assemble, length_padBlocks, List.length_append, length_flatten_cards h.length, Nat.add_mul,
    Nat.one_mul]
  rfl

theorem laid_assemble (h : Inner cs) : Laid cs (assemble cs) where
  bytes := by
    have hcards : (cs.flatten ++ Card.endBytes).length = (cs.length + 1) * Card.size := by
      rw [List.length_append, length_flatten_cards h.length, Nat.add_mul, Nat.one_mul]
      rfl
    rw [length_assemble h, ← hcards]
    rfl
  length := by
    rw [length_assemble h]
    exact ⟨⟨dvd_wholeBlocks _, le_wholeBlocks _⟩, fun n hn => wholeBlocks_le hn.1 hn.2⟩

/-- A header is followed by other bytes: the end of the header, and what is after it. -/
theorem assemble_append (cs : List Bytes) (rest : Bytes) : ∃ after,
    assemble cs ++ rest = cs.flatten ++ (Card.endBytes ++ after) := by
  rw [assemble, padBlocks, List.append_assoc, List.append_assoc]
  exact ⟨_, rfl⟩

theorem cards_assemble (h : Inner cs) (rest : Bytes) : cards (assemble cs ++ rest) = cs := by
  obtain ⟨after, hafter⟩ := assemble_append cs rest
  rw [hafter, cards_flatten h]

theorem length?_assemble (h : Inner cs) (rest : Bytes) :
    length? (assemble cs ++ rest) = some (assemble cs).length := by
  obtain ⟨after, hafter⟩ := assemble_append cs rest
  rw [hafter, length?_flatten h, length_assemble h]

/-- Reading undoes writing: the cards of a header are read back as they were written, whatever
follows the header. -/
theorem read_encode (written : List Card) (rest : Bytes) :
    (∀ c : Card, c.bytes.length = Card.size ∧
      c.bytes.all (fun b => 0x20 ≤ b && b ≤ 0x7E) = true ∧ c.bytes ≠ Card.endBytes) ∧
    cards (encode written ++ rest) = written.map Card.bytes ∧
    length? (encode written ++ rest) = some (encode written).length ∧
    Laid (written.map Card.bytes) (encode written) := by
  have hinner := inner_bytes written
  refine ⟨fun c => ⟨c.length_bytes, ?_, c.ne_endBytes⟩, cards_assemble hinner rest,
    length?_assemble hinner rest, laid_assemble hinner⟩
  rw [List.all_eq_true]
  intro b hb
  obtain ⟨hlo, hhi⟩ := c.printing hb
  rw [Bool.and_eq_true, decide_eq_true_eq, decide_eq_true_eq]
  exact ⟨UInt8.le_iff_toNat_le.2 hlo, UInt8.le_iff_toNat_le.2 hhi⟩

end Header

end Readout.Image
