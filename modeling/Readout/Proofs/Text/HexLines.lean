import Readout.Command.DataWords
import Readout.Proofs.Text.Tokens
import Readout.Proofs.Text.Utf8
/-!
# Lines of hexadecimal digits read as literals

A word is written as eight hexadecimal digits without a mark, one word to a line.  Read as C literals
such lines are no hexadecimal numbers: digits that begin with a zero are octal, and others are
decimal.

* `tokens_lines`: the lines are the tokens of the text;
* `parseWord?_hexDigits`: a line is read as `reread` says;
* `reread_eq_self_iff`: only words below eight are read back;
* `dataWords_lines`: what a text of such lines is read as.
-/

namespace Readout

namespace Text

/-! ## Eight digits -/

theorem hexDigits_eq (width n : Nat) : hexDigits width n =
    List.replicate (width - (Nat.toDigits 16 n).length) '0' ++ Nat.toDigits 16 n := rfl

theorem append_toDigits_ne_nil (before : List Char) (n : Nat) :
    before ++ Nat.toDigits 16 n ≠ [] := by
  intro hnil
  have hpos : 0 < (Nat.toDigits 16 n).length := Nat.length_toDigits_pos
  rw [(List.append_eq_nil_iff.1 hnil).2] at hpos
  cases hpos

theorem isWord_hexDigits (width n : Nat) : IsWord (hexDigits width n) := by
  rw [hexDigits_eq]
  constructor
  · exact append_toDigits_ne_nil _ n
  · intro c hc
    rcases List.mem_append.1 hc with hc | hc
    · rw [List.eq_of_mem_replicate hc]
      decide
    · exact isNameChar_of_mem_toDigits hc

/-- A zero in front of other digits marks them as octal. -/
theorem split_zero {digits : List Char} (hne : digits ≠ [])
    (h : ∀ c ∈ digits, ∃ d < 16, c = d.digitChar) :
    Radix.split ('0' :: digits) = (.octal, digits) := by
  cases digits with
  | nil => exact absurd rfl hne
  | cons c digits =>
    obtain ⟨d, hd, rfl⟩ := h c (by simp)
    have hmarks : ∀ d < 16, d.digitChar ≠ 'x' ∧ d.digitChar ≠ 'X' := by decide
    have hmark := hmarks d hd
    unfold Radix.split
    split
    · rename_i heq
      exact absurd (List.cons.inj (List.cons.inj heq).2).1 hmark.1
    · rename_i heq
      exact absurd (List.cons.inj (List.cons.inj heq).2).1 hmark.2
    · rename_i heq
      cases heq
      rfl
    · rename_i hnot
      exact absurd rfl (hnot _ _)

/-- Digits without a zero in front are decimal. -/
theorem split_digit {d : Nat} (hpos : 0 < d) (hd : d < 16) (digits : List Char) :
    Radix.split (d.digitChar :: digits) = (.decimal, d.digitChar :: digits) := by
  have hdigits : ∀ d < 16, 0 < d → d.digitChar ≠ '0' := by decide
  have hzero := hdigits d hd hpos
  unfold Radix.split
  split
  · rename_i heq
    exact absurd (List.cons.inj heq).1 hzero
  · rename_i heq
    exact absurd (List.cons.inj heq).1 hzero
  · rename_i heq
    exact absurd (List.cons.inj heq).1 hzero
  · rfl

/-- The radix that eight digits are read in. -/
def lineRadix (n : Nat) : Nat := if n < 16 ^ 7 then 8 else 10

/-- What eight digits denote, by the radix that their first digit marks. -/
theorem magnitude_split {n : Nat} (h : n < 16 ^ 8) :
    magnitude? (Radix.split (hexDigits 8 n)).1.base (Radix.split (hexDigits 8 n)).2 =
      inRadix (lineRadix n) n := by
  unfold lineRadix
  split
  · rename_i hshort
    have hlength : (Nat.toDigits 16 n).length ≤ 7 :=
      (Nat.length_toDigits_le_iff (by decide) (by decide)).2 hshort
    have hzeros : 8 - (Nat.toDigits 16 n).length = 7 - (Nat.toDigits 16 n).length + 1 := by omega
    have hsplit : Radix.split (hexDigits 8 n) = (.octal,
        List.replicate (7 - (Nat.toDigits 16 n).length) '0' ++ Nat.toDigits 16 n) := by
      rw [hexDigits_eq, hzeros, List.replicate_succ, List.cons_append]
      refine split_zero (append_toDigits_ne_nil _ n) fun c hc => ?_
      rcases List.mem_append.1 hc with hc | hc
      · exact ⟨0, by decide, List.eq_of_mem_replicate hc⟩
      · exact exists_of_mem_toDigits hc
    rw [hsplit]
    exact magnitude_zeros (show 0 < 8 by decide) _ n
  · rename_i hlong
    have hlength : ¬ (Nat.toDigits 16 n).length ≤ 7 := fun hle =>
      hlong ((Nat.length_toDigits_le_iff (by decide) (by decide)).1 hle)
    have hzeros : 8 - (Nat.toDigits 16 n).length = 0 := by omega
    obtain ⟨d, rest, hdigits, hpos, hd⟩ :=
      toDigits_eq_cons (show 1 < 16 by decide) (show 0 < n by omega)
    have hsplit : Radix.split (hexDigits 8 n) = (.decimal, Nat.toDigits 16 n) := by
      rw [hexDigits_eq, hzeros, List.replicate_zero, List.nil_append, hdigits]
      exact split_digit hpos hd rest
    rw [hsplit]
    exact magnitude_zeros (show 0 < 10 by decide) 0 n

theorem inRadix_le {base n m : Nat} (hbase : base ≤ 16) (h : inRadix base n = some m) :
    m ≤ n := by
  unfold inRadix at h
  split at h
  · rw [← Option.some.inj h]
    exact (Nat.ofDigits_monotone _ hbase).trans_eq (Nat.ofDigits_digits 16 n)
  · cases h

theorem lineRadix_le (n : Nat) : lineRadix n ≤ 16 := by
  unfold lineRadix
  split <;> decide

/-- The word that a line is read as. -/
def reread (w : Word) : Option Word := (inRadix (lineRadix w.toNat) w.toNat).map UInt32.ofNat

theorem parseWord?_hexDigits (w : Word) : CInteger.parseWord? (hexDigits 8 w.toNat) = reread w := by
  have hw := w.toNat_lt
  have hsign : CInteger.splitSign (hexDigits 8 w.toNat) = (false, hexDigits 8 w.toNat) := by
    have hword := isWord_hexDigits 8 w.toNat
    unfold CInteger.splitSign
    split
    · rename_i heq
      exact absurd (heq ▸ List.mem_cons_self) (not_mem_of_isWord hword (by decide))
    · rename_i heq
      exact absurd (heq ▸ List.mem_cons_self) (not_mem_of_isWord hword (by decide))
    · rfl
  have hparse : CInteger.parse? (hexDigits 8 w.toNat) =
      (inRadix (lineRadix w.toNat) w.toNat).map Int.ofNat := by
    unfold CInteger.parse?
    rw [(isWord_hexDigits 8 w.toNat).trim, hsign]
    dsimp only
    rw [magnitude_split hw]
    cases hvalue : inRadix (lineRadix w.toNat) w.toNat with
    | none => rfl
    | some m =>
      have hle := inRadix_le (lineRadix_le _) hvalue
      exact if_pos (by omega)
  unfold CInteger.parseWord? CInteger.parseNat? reread
  rw [hparse]
  cases hvalue : inRadix (lineRadix w.toNat) w.toNat with
  | none => rfl
  | some m =>
    have hle := inRadix_le (lineRadix_le _) hvalue
    show (if m < 1 <<< 32 then some m else none).map UInt32.ofNat = _
    rw [if_pos (by rw [Nat.shiftLeft_eq]; omega)]

example : reread 0x12345678 = some 12345678 := by cbv

example : reread 0xdeadbeef = none := by cbv

/-! ## What is read back -/

/-- In a smaller radix more than one digit denotes another number. -/
theorem inRadix_eq_self_iff {base n : Nat} (hpos : 0 < base) (hbase : base < 16) :
    inRadix base n = some n ↔ n < base := by
  have hone (h0 : 0 < n) (h16 : n < 16) : Nat.digits 16 n = [n] :=
    Nat.digits_of_lt 16 n (Nat.ne_of_gt h0) h16
  constructor
  · intro h
    unfold inRadix at h
    split at h
    · rename_i hall
      have hvalue := Option.some.inj h
      rcases Nat.eq_zero_or_pos n with rfl | hn
      · exact hpos
      have hrest : Nat.ofDigits base (Nat.digits 16 (n / 16)) ≤ n / 16 :=
        (Nat.ofDigits_monotone _ (Nat.le_of_lt hbase)).trans_eq (Nat.ofDigits_digits 16 _)
      have hscaled := Nat.mul_le_mul (Nat.le_of_lt_succ hbase : base ≤ 15) hrest
      rw [Nat.digits_def' (by decide) hn, Nat.ofDigits_cons] at hvalue
      refine hall n ?_
      rw [hone hn (by omega)]
      exact List.mem_singleton_self n
    · cases h
  · intro h
    rcases Nat.eq_zero_or_pos n with rfl | hn
    · simp [inRadix]
    · simp [inRadix, hone hn (by omega), h]

/-- Only a word of one octal digit is read back. -/
theorem reread_eq_self_iff (w : Word) : reread w = some w ↔ w < 8 := by
  have hw := w.toNat_lt
  have hself : reread w = some w ↔ inRadix (lineRadix w.toNat) w.toNat = some w.toNat := by
    rw [reread, Option.map_eq_some_iff]
    constructor
    · rintro ⟨m, hvalue, hm⟩
      have hle := inRadix_le (lineRadix_le _) hvalue
      rw [hvalue, ← hm, UInt32.toNat_ofNat', Nat.mod_eq_of_lt (by omega)]
    · exact fun h => ⟨w.toNat, h, UInt32.ofNat_toNat⟩
  rw [hself, UInt32.lt_iff_toNat_lt]
  unfold lineRadix
  split
  · exact inRadix_eq_self_iff (by decide) (by decide)
  · rename_i hlong
    rw [inRadix_eq_self_iff (by decide) (by decide)]
    change w.toNat < 10 ↔ w.toNat < 8
    omega

/-! ## Texts -/

/-- The text that has a line for every word. -/
def hexLines (ws : List Word) : List Char := ws.flatMap fun w => hexDigits 8 w.toNat ++ ['\n']

theorem tokens_lines (ws : List Word) :
    tokens (hexLines ws) = ws.map fun w => hexDigits 8 w.toNat := by
  induction ws with
  | nil => rfl
  | cons w ws ih =>
    have hcons : hexLines (w :: ws) = hexDigits 8 w.toNat ++ '\n' :: hexLines ws := by
      rw [hexLines, List.flatMap_cons, List.append_assoc]
      rfl
    rw [hcons, tokens_cut (by decide), (isWord_hexDigits 8 w.toNat).isToken.tokens, ih,
      List.map_cons, List.singleton_append]

theorem ascii_hexLines (ws : List Word) : ∀ c ∈ hexLines ws, c.toNat < 128 := by
  intro c hc
  obtain ⟨w, -, hc⟩ := List.mem_flatMap.1 hc
  rcases List.mem_append.1 hc with hc | hc
  · have hranges := isNameChar_ranges ((isWord_hexDigits 8 w.toNat).2 c hc)
    omega
  · rw [List.mem_singleton.1 hc]
    decide

end Text

/-- What a list of words is read as from its lines; the first line that is no word is the error. -/
def rereadAll (ws : List Word) : Except Error (List Word) :=
  ws.mapM fun w =>
    match Text.reread w with
    | some w' => .ok w'
    | none => .error (.invalidParameter (.notAWord (String.ofList (Text.hexDigits 8 w.toNat))))

theorem dataWords_lines (ws : List Word) : dataWords (Text.hexLines ws) = rereadAll ws := by
  unfold dataWords rereadAll
  rw [Text.tokens_lines, List.mapM_map]
  refine congrArg (fun read => ws.mapM read) (funext fun w => ?_)
  rw [Function.comp_apply, Text.parseWord?_hexDigits]
  rfl

/-- A list of words is read back exactly if each of its words is. -/
theorem rereadAll_eq_self_iff (ws : List Word) : rereadAll ws = .ok ws ↔ ∀ w ∈ ws, w < 8 := by
  induction ws with
  | nil => exact ⟨nofun, fun _ => rfl⟩
  | cons w ws ih =>
    rw [List.forall_mem_cons, ← ih, ← Text.reread_eq_self_iff, rereadAll, List.mapM_cons]
    cases Text.reread w with
    | none => simp [bind, Except.bind]
    | some w' =>
      change (rereadAll ws >>= fun rest => Except.ok (w' :: rest)) = .ok (w :: ws) ↔ _
      cases rereadAll ws with
      | error e => simp [bind, Except.bind]
      | ok ws' => simp [bind, Except.bind]

end Readout
