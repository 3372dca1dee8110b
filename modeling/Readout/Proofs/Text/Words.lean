import Mathlib.Data.List.Basic
import Mathlib.Data.Nat.Digits.Lemmas
import Readout.Text.Blank
import Readout.Text.CInteger
import Readout.Text.Radix
/-!
# Words of letters and digits

Names and hexadecimal numbers are made of letters, digits and the underscore.  None of these is a
blank, a separator or a mark of a comment or a header, so reading a text that is put together from
such words finds the words again.

* `trim_eq_self`, `trim_append_blank`, `trim_cons_blank`: what trimming leaves;
* `lines_cons`: a line is read off the beginning of a text;
* `magnitude_zeros`: what hexadecimal digits denote in a radix, and `parse_hex`: a hexadecimal number
  is read back.
-/

namespace Readout.Text

/-! ## Letters, digits and the underscore -/

/-- A letter, a digit or the underscore. -/
def isNameChar (c : Char) : Bool := c.isAlphanum || c == '_'

/-- A text of letters, digits and underscores that is not empty. -/
def IsWord (cs : List Char) : Prop := cs ≠ [] ∧ ∀ c ∈ cs, isNameChar c = true

instance (cs : List Char) : Decidable (IsWord cs) :=
  decidable_of_iff (cs ≠ [] ∧ cs.all isNameChar = true) (and_congr_right' List.all_eq_true)

/-- The ranges of code points that names are taken from. -/
theorem isNameChar_ranges {c : Char} (h : isNameChar c = true) :
    48 ≤ c.toNat ∧ c.toNat ≤ 57 ∨ 65 ≤ c.toNat ∧ c.toNat ≤ 90 ∨ c.toNat = 95 ∨
      97 ≤ c.toNat ∧ c.toNat ≤ 122 := by
  change ((decide (65 ≤ c.val ∧ c.val ≤ 90) || (97 ≤ c.val && c.val ≤ 122)) ||
    (48 ≤ c.val && c.val ≤ 57) || c == '_') = true at h
  simp only [Bool.or_eq_true, Bool.and_eq_true, decide_eq_true_eq, beq_iff_eq,
    UInt32.le_iff_toNat_le] at h
  rcases h with ((h | h) | h) | rfl
  · exact .inr (.inl h)
  · exact .inr (.inr (.inr h))
  · exact .inl h
  · exact .inr (.inr (.inl rfl))

theorem not_isBlank_of_isNameChar {c : Char} (h : isNameChar c = true) : isBlank c = false := by
  have hranges := isNameChar_ranges h
  simp only [isBlank, Bool.or_eq_false_iff, Bool.and_eq_false_iff, decide_eq_false_iff_not,
    beq_eq_false_iff_ne]
  omega

theorem ne_of_isNameChar {c d : Char} (h : isNameChar c = true) (hd : isNameChar d = false) :
    c ≠ d := by
  rintro rfl
  rw [h] at hd
  cases hd

theorem not_mem_of_isWord {cs : List Char} (h : IsWord cs) {d : Char}
    (hd : isNameChar d = false) : d ∉ cs :=
  fun hmem => ne_of_isNameChar (h.2 d hmem) hd rfl

/-! ## Trimming -/

theorem trimStart_cons_blank {c : Char} (h : isBlank c = true) (cs : List Char) :
    trimStart (c :: cs) = trimStart cs := by
  simp [trimStart, h]

theorem trimStart_cons {c : Char} (h : isBlank c = false) (cs : List Char) :
    trimStart (c :: cs) = c :: cs := by
  simp [trimStart, h]

theorem trimEnd_append_blank {c : Char} (h : isBlank c = true) (cs : List Char) :
    trimEnd (cs ++ [c]) = trimEnd cs := by
  simp [trimEnd, h]

theorem trimEnd_append {c : Char} (h : isBlank c = false) (cs : List Char) :
    trimEnd (cs ++ [c]) = cs ++ [c] := by
  simp [trimEnd, h]

/-- A text that begins with a character that is no blank still begins with it. -/
theorem trim_cons {c : Char} (h : isBlank c = false) (cs : List Char) :
    ∃ rest, trim (c :: cs) = c :: rest := by
  rw [trim, trimStart_cons h, trimEnd, List.reverse_cons, List.dropWhile_append]
  split
  · exact ⟨[], by simp [h]⟩
  · exact ⟨(cs.reverse.dropWhile isBlank).reverse, by simp⟩

/-- A text without blanks at either end is left as it is. -/
theorem trim_eq_self {c d : Char} (hc : isBlank c = false) (hd : isBlank d = false)
    {cs ds : List Char} (h : c :: cs = ds ++ [d]) : trim (c :: cs) = c :: cs := by
  rw [trim, trimStart_cons hc, h, trimEnd_append hd]

theorem IsWord.exists_cons {cs : List Char} (h : IsWord cs) :
    ∃ c rest, cs = c :: rest ∧ isBlank c = false := by
  cases cs with
  | nil => exact absurd rfl h.1
  | cons c rest => exact ⟨c, rest, rfl, not_isBlank_of_isNameChar (h.2 c (by simp))⟩

theorem IsWord.exists_append {cs : List Char} (h : IsWord cs) :
    ∃ rest c, cs = rest ++ [c] ∧ isBlank c = false := by
  obtain ⟨rest, c, rfl⟩ := (List.eq_nil_or_concat' cs).resolve_left h.1
  exact ⟨rest, c, rfl, not_isBlank_of_isNameChar (h.2 c (by simp))⟩

/-- A word is left as it is. -/
theorem IsWord.trim {cs : List Char} (h : IsWord cs) : trim cs = cs := by
  obtain ⟨c, rest, hfirst, hc⟩ := h.exists_cons
  obtain ⟨rest', d, hlast, hd⟩ := h.exists_append
  subst hfirst
  exact trim_eq_self hc hd hlast

/-- The blank in front of a word is trimmed off. -/
theorem IsWord.trim_cons_blank {cs : List Char} (h : IsWord cs) : Text.trim (' ' :: cs) = cs := by
  rw [Text.trim, trimStart_cons_blank (by decide)]
  exact h.trim

/-- The blank behind a word is trimmed off. -/
theorem IsWord.trim_append_blank {cs : List Char} (h : IsWord cs) :
    Text.trim (cs ++ [' ']) = cs := by
  obtain ⟨c, rest, rfl, hc⟩ := h.exists_cons
  have htrim := h.trim
  rw [Text.trim, trimStart_cons hc] at htrim
  rw [Text.trim, List.cons_append, trimStart_cons hc, ← List.cons_append,
    trimEnd_append_blank (by decide), htrim]

/-! ## Lines -/

/-- A text without a separator is one piece. -/
theorem pieces_self {sep : Char → Bool} {cs : List Char} (h : ∀ x ∈ cs, sep x = false) :
    pieces sep cs = [cs] := by
  induction cs with
  | nil => rfl
  | cons x cs ih =>
    have hx := h x (by simp)
    rw [pieces, ih fun y hy => h y (by simp [hy])]
    simp [hx]

/-- A separator parts the pieces before it from those after it. -/
theorem pieces_cut {sep : Char → Bool} {c : Char} (hc : sep c = true) (cs rest : List Char) :
    pieces sep (cs ++ c :: rest) = pieces sep cs ++ pieces sep rest := by
  induction cs with
  | nil => simp [pieces, hc]
  | cons x cs ih =>
    obtain ⟨p, ps, hps⟩ := List.exists_cons_of_ne_nil (pieces_ne_nil sep cs)
    rw [List.cons_append, pieces, pieces, ih, hps]
    split <;> simp

/-- What stands before the first separator is a piece of its own. -/
theorem pieces_append {sep : Char → Bool} {c : Char} (hc : sep c = true) {cs : List Char}
    (h : ∀ x ∈ cs, sep x = false) (rest : List Char) :
    pieces sep (cs ++ c :: rest) = cs :: pieces sep rest := by
  rw [pieces_cut hc, pieces_self h]
  rfl

theorem beq_feed_of_not_mem {line : List Char} (h : '\n' ∉ line) :
    ∀ c ∈ line, (c == '\n') = false := by
  intro c hc
  rw [beq_eq_false_iff_ne]
  rintro rfl
  exact h hc

/-- A line is read off the beginning of a text. -/
theorem lines_cons {line : List Char} (h : '\n' ∉ line) (rest : List Char) :
    lines (line ++ '\n' :: rest) = dropReturn line :: lines rest := by
  have hpieces : pieces (· == '\n') (line ++ '\n' :: rest) = line :: pieces (· == '\n') rest :=
    pieces_append rfl (beq_feed_of_not_mem h) rest
  rw [lines, lines, hpieces]
  cases hp : pieces (· == '\n') rest with
  | nil => exact absurd hp (pieces_ne_nil _ _)
  | cons p ps => rfl

/-- A text without the byte of a line feed has no line feed. -/
theorem not_mem_feed {s : String} (h : (10 : UInt8) ∉ s.toByteArray.data.toList) :
    '\n' ∉ s.toList := by
  intro hmem
  have hbytes : s.toByteArray.data.toList = s.toList.flatMap String.utf8EncodeChar := by
    rw [← String.utf8Encode_toList, List.utf8Encode]
    simp
  rw [hbytes, List.mem_flatMap] at h
  exact h ⟨'\n', hmem, by decide⟩

theorem dropReturn_eq_self {line : List Char} (h : '\r' ∉ line) : dropReturn line = line := by
  unfold dropReturn
  split
  · rename_i hlast
    exact absurd (List.mem_of_getLast? hlast) h
  · rfl

/-! ## Hexadecimal numbers -/

theorem hexDigits_one (n : Nat) : hexDigits 1 n = Nat.toDigits 16 n := by
  have hpos : 0 < (Nat.toDigits 16 n).length := Nat.length_toDigits_pos
  have hnone : 1 - (Nat.toDigits 16 n).length = 0 := by omega
  rw [hexDigits, padLeft, hnone]
  rfl

theorem isNameChar_digitChar {d : Nat} (h : d < 16) : isNameChar d.digitChar = true := by
  revert d
  decide

/-- A digit is taken in every radix that has it. -/
theorem pushDigit_digitChar {d : Nat} (h : d < 16) (base acc : Nat) :
    pushDigit base acc d.digitChar = if d < base then some (base * acc + d) else none := by
  have hvalue : ∀ d < 16, digitValue? d.digitChar = some d := by decide
  rw [pushDigit, hvalue d h]
  rfl

theorem exists_of_mem_toDigits {n : Nat} {c : Char} (h : c ∈ Nat.toDigits 16 n) :
    ∃ d < 16, c = d.digitChar := by
  induction n using Nat.strongRecOn with
  | ind n ih =>
    rcases Nat.lt_or_ge n 16 with hlt | hge
    · rw [Nat.toDigits_of_lt_base hlt, List.mem_singleton] at h
      exact ⟨n, hlt, h⟩
    · rw [Nat.toDigits_of_base_le (by decide) hge, List.mem_append, List.mem_singleton] at h
      rcases h with h | h
      · exact ih (n / 16) (by omega) h
      · exact ⟨n % 16, Nat.mod_lt _ (by decide), h⟩

theorem isNameChar_of_mem_toDigits {n : Nat} {c : Char} (h : c ∈ Nat.toDigits 16 n) :
    isNameChar c = true := by
  obtain ⟨d, hd, rfl⟩ := exists_of_mem_toDigits h
  exact isNameChar_digitChar hd

/-- The digits of a number that is not zero begin with one that is not zero. -/
theorem toDigits_eq_cons {base n : Nat} (hbase : 1 < base) (h : 0 < n) :
    ∃ d rest, Nat.toDigits base n = d.digitChar :: rest ∧ 0 < d ∧ d < base := by
  induction n using Nat.strongRecOn with
  | ind n ih =>
    rcases Nat.lt_or_ge n base with hlt | hge
    · exact ⟨n, [], Nat.toDigits_of_lt_base hlt, h, hlt⟩
    · obtain ⟨d, rest, hdigits, hd⟩ :=
        ih (n / base) (Nat.div_lt_self h hbase) (Nat.div_pos hge (by omega))
      rw [Nat.toDigits_of_base_le hbase hge, hdigits]
      exact ⟨d, _, rfl, hd⟩

/-- The number that the hexadecimal digits of `n` denote in another radix, if it has them all. -/
def inRadix (base n : Nat) : Option Nat :=
  if ∀ d ∈ Nat.digits 16 n, d < base then some (Nat.ofDigits base (Nat.digits 16 n)) else none

/-- The digits of a number denote it in their own radix. -/
theorem inRadix_sixteen (n : Nat) : inRadix 16 n = some n := by
  rw [inRadix, if_pos fun d hd => Nat.digits_lt_base (by decide) hd, Nat.ofDigits_digits]

/-- Reading the digits of a number from the left gives what they denote. -/
theorem foldlM_toDigits {base : Nat} (hbase : 0 < base) (n : Nat) :
    (Nat.toDigits 16 n).foldlM (pushDigit base) 0 = inRadix base n := by
  induction n using Nat.strongRecOn with
  | ind n ih =>
    rcases Nat.eq_zero_or_pos n with rfl | hpos
    · simp [inRadix, Nat.toDigits_of_lt_base, pushDigit_digitChar, hbase]
    have hdigits := Nat.digits_def' (by decide : 1 < 16) hpos
    rcases Nat.lt_or_ge n 16 with hlt | hge
    · have hnone : n / 16 = 0 := Nat.div_eq_of_lt hlt
      rw [hnone, Nat.digits_zero, Nat.mod_eq_of_lt hlt] at hdigits
      simp [inRadix, hdigits, Nat.toDigits_of_lt_base hlt, pushDigit_digitChar hlt]
    · rw [Nat.toDigits_of_base_le (by decide) hge, List.foldlM_append, ih (n / 16) (by omega)]
      have hdigit := pushDigit_digitChar (d := n % 16) (Nat.mod_lt _ (by decide)) base
      have hall : (∀ d ∈ n % 16 :: Nat.digits 16 (n / 16), d < base) ↔
          n % 16 < base ∧ ∀ d ∈ Nat.digits 16 (n / 16), d < base := List.forall_mem_cons
      rw [inRadix, inRadix, hdigits]
      by_cases hrest : ∀ d ∈ Nat.digits 16 (n / 16), d < base
      · by_cases hlast : n % 16 < base
        · rw [if_pos hrest, if_pos (hall.2 ⟨hlast, hrest⟩), Nat.ofDigits_cons,
            Nat.add_comm]
          simp [hdigit, hlast]
        · rw [if_pos hrest, if_neg fun h => hlast (hall.1 h).1]
          simp [hdigit, hlast]
      · rw [if_neg hrest, if_neg fun h => hrest (hall.1 h).2]
        rfl

/-- Zeros in front of the digits do not count. -/
theorem magnitude_zeros {base : Nat} (hbase : 0 < base) (zeros n : Nat) :
    magnitude? base (List.replicate zeros '0' ++ Nat.toDigits 16 n) = inRadix base n := by
  have hzero : pushDigit base 0 '0' = some 0 :=
    (pushDigit_digitChar (d := 0) (by decide) base 0).trans (if_pos hbase)
  have hvalue : (List.replicate zeros '0' ++ Nat.toDigits 16 n).foldlM (pushDigit base) 0 =
      inRadix base n := by
    rw [← foldlM_toDigits hbase]
    induction zeros with
    | zero => rfl
    | succ zeros ih =>
      rw [List.replicate_succ, List.cons_append, List.foldlM_cons, hzero]
      exact ih
  have hne : List.replicate zeros '0' ++ Nat.toDigits 16 n ≠ [] := by
    intro hnil
    have hpos : 0 < (Nat.toDigits 16 n).length := Nat.length_toDigits_pos
    rw [(List.append_eq_nil_iff.1 hnil).2] at hpos
    cases hpos
  cases hcs : List.replicate zeros '0' ++ Nat.toDigits 16 n with
  | nil => exact absurd hcs hne
  | cons c cs =>
    rw [hcs] at hvalue
    exact hvalue

theorem magnitude_toDigits (n : Nat) : magnitude? 16 (Nat.toDigits 16 n) = some n :=
  (magnitude_zeros (by decide) 0 n).trans (inRadix_sixteen n)

theorem toList_hex (n : Nat) : (hex 1 n).toList = '0' :: 'x' :: Nat.toDigits 16 n := by
  rw [hex, String.toList_ofList, hexDigits_one]

theorem isWord_hex (n : Nat) : IsWord (hex 1 n).toList := by
  rw [toList_hex]
  refine ⟨by simp, fun c hc => ?_⟩
  simp only [List.mem_cons] at hc
  rcases hc with rfl | rfl | hc
  · decide
  · decide
  · exact isNameChar_of_mem_toDigits hc

/-- A hexadecimal number is read back. -/
theorem parse_hex {n : Nat} (h : n < 0x8000000000000000) :
    CInteger.parse? (hex 1 n).toList = some (n : Int) := by
  rw [CInteger.parse?, (isWord_hex n).trim, toList_hex]
  simp [CInteger.splitSign, Radix.split, Radix.base, magnitude_toDigits, h]

end Readout.Text
