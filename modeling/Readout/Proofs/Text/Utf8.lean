import Mathlib.Data.List.Basic
import Readout.Text.Utf8
/-!
# Reading UTF-8

A lead byte asks for up to three more and bounds the first of them, which rules out the bytes that
encode no character in the shortest form.  So the reader takes exactly the encodings of characters.

* `Encodes` relates code points and the bytes that encode them;
* `step_of_encodes`, `encodes_of_step`: the reader reads just these, and `encodeChar_of_encodes`,
  `exists_encodes`: just these are the encodings of characters;
* `decode?_eq_some_iff`: a text is read exactly from its encoding, and `decode?_ascii`: ASCII bytes
  are their own characters.
-/

namespace Readout.Text.Utf8

/-- A code point, its lead byte and the bytes after that.  The second byte has bounds of its own
after some lead bytes: no code point has two encodings, and surrogates and numbers above the last
code point have none. -/
inductive Encodes : Nat → UInt8 → List UInt8 → Prop
  | one {b : UInt8} (hb : b.toNat < 0x80) : Encodes b.toNat b []
  | two {b t : UInt8} (hb : 0xC2 ≤ b.toNat ∧ b.toNat ≤ 0xDF)
      (ht : 0x80 ≤ t.toNat ∧ t.toNat ≤ 0xBF) :
      Encodes (b.toNat % 32 * 64 + t.toNat % 64) b [t]
  | three {b t u : UInt8} (hb : 0xE0 ≤ b.toNat ∧ b.toNat ≤ 0xEF)
      (ht : 0x80 ≤ t.toNat ∧ t.toNat ≤ 0xBF) (hshortest : b.toNat = 0xE0 → 0xA0 ≤ t.toNat)
      (hsurrogate : b.toNat = 0xED → t.toNat ≤ 0x9F) (hu : 0x80 ≤ u.toNat ∧ u.toNat ≤ 0xBF) :
      Encodes ((b.toNat % 16 * 64 + t.toNat % 64) * 64 + u.toNat % 64) b [t, u]
  | four {b t u v : UInt8} (hb : 0xF0 ≤ b.toNat ∧ b.toNat ≤ 0xF4)
      (ht : 0x80 ≤ t.toNat ∧ t.toNat ≤ 0xBF) (hshortest : b.toNat = 0xF0 → 0x90 ≤ t.toNat)
      (hlast : b.toNat = 0xF4 → t.toNat ≤ 0x8F) (hu : 0x80 ≤ u.toNat ∧ u.toNat ≤ 0xBF)
      (hv : 0x80 ≤ v.toNat ∧ v.toNat ≤ 0xBF) :
      Encodes (((b.toNat % 8 * 64 + t.toNat % 64) * 64 + u.toNat % 64) * 64 + v.toNat % 64) b
        [t, u, v]

/-! ## The bytes of a character -/

theorem following?_eq_some_iff {lead want : Nat} : following? lead = some want ↔
    (want = 0 ∧ lead < 0x80) ∨ (want = 1 ∧ 0xC2 ≤ lead ∧ lead ≤ 0xDF) ∨
      (want = 2 ∧ 0xE0 ≤ lead ∧ lead ≤ 0xEF) ∨ (want = 3 ∧ 0xF0 ≤ lead ∧ lead ≤ 0xF4) := by
  unfold following?
  split
  · rw [Option.some_inj]
    omega
  · split
    · rw [Option.some_inj]
      omega
    · split
      · rw [Option.some_inj]
        omega
      · split
        · rw [Option.some_inj]
          omega
        · simp only [reduceCtorEq, false_iff]
          omega

theorem secondBounds_iff (lead x : Nat) :
    ((secondBounds lead).1 ≤ x ∧ x ≤ (secondBounds lead).2) ↔ 0x80 ≤ x ∧ x ≤ 0xBF ∧
      (lead = 0xE0 → 0xA0 ≤ x) ∧ (lead = 0xED → x ≤ 0x9F) ∧ (lead = 0xF0 → 0x90 ≤ x) ∧
      (lead = 0xF4 → x ≤ 0x8F) := by
  unfold secondBounds
  split
  · omega
  · split
    · omega
    · split
      · omega
      · split <;> omega

theorem length_continuation_succ_iff {lo hi want : Nat} {rest : List UInt8} :
    (continuation lo hi (want + 1) rest).length = want + 1 ↔
      ∃ t r, rest = t :: r ∧ lo ≤ t.toNat ∧ t.toNat ≤ hi ∧
        (continuation 0x80 0xBF want r).length = want := by
  cases rest with
  | nil => simp [continuation]
  | cons t r =>
    rw [continuation]
    split
    · rename_i hbounds
      simp only [Bool.and_eq_true, decide_eq_true_eq] at hbounds
      simp [hbounds]
    · rename_i hbounds
      simp only [Bool.and_eq_true, decide_eq_true_eq] at hbounds
      simp only [List.length_nil, List.cons.injEq]
      constructor
      · intro h
        omega
      · rintro ⟨_, _, ⟨rfl, rfl⟩, hlo, hhi, -⟩
        exact absurd ⟨hlo, hhi⟩ hbounds

theorem continuation_cons {lo hi want : Nat} {t : UInt8} (hlo : lo ≤ t.toNat)
    (hhi : t.toNat ≤ hi) (r : List UInt8) :
    continuation lo hi (want + 1) (t :: r) = t :: continuation 0x80 0xBF want r := by
  simp [continuation, hlo, hhi]

theorem continuation_zero (lo hi : Nat) (r : List UInt8) : continuation lo hi 0 r = [] := by
  cases r <;> rfl

/-- What a lead byte and the bytes after it make up, if there are as many as it asks for. -/
theorem step_eq {b : UInt8} {rest more : List UInt8} {want : Nat}
    (hwant : following? b.toNat = some want)
    (hmore : continuation (secondBounds b.toNat).1 (secondBounds b.toNat).2 want rest = more)
    (hlength : more.length = want) :
    step b rest = .char (Char.ofNat
      (more.foldl (fun acc b => acc * 64 + b.toNat % 64) (leadBits b.toNat want))) (want + 1) := by
  unfold step
  rw [hwant]
  dsimp only
  rw [hmore, if_pos hlength]

theorem exists_of_step {b : UInt8} {rest : List UInt8} {c : Char} {n : Nat}
    (h : step b rest = .char c n) : ∃ want more, following? b.toNat = some want ∧
      continuation (secondBounds b.toNat).1 (secondBounds b.toNat).2 want rest = more ∧
      more.length = want ∧ n = want + 1 ∧ c = Char.ofNat
        (more.foldl (fun acc b => acc * 64 + b.toNat % 64) (leadBits b.toNat want)) := by
  unfold step at h
  split at h
  · cases h
  · rename_i want hwant
    dsimp only at h
    split at h
    · rename_i hlength
      cases h
      exact ⟨want, _, hwant, rfl, hlength, rfl, rfl⟩
    · cases h

/-- The encoding of a code point is read. -/
theorem step_of_encodes {code : Nat} {b : UInt8} {more : List UInt8} (h : Encodes code b more)
    (after : List UInt8) : step b (more ++ after) = .char (Char.ofNat code) (more.length + 1) := by
  cases h with
  | one hb => exact step_eq (following?_eq_some_iff.2 (by omega)) (continuation_zero _ _ _) rfl
  | @two _ t hb ht =>
    have hsecond := (secondBounds_iff b.toNat t.toNat).2
      ⟨ht.1, ht.2, by omega, by omega, by omega, by omega⟩
    have hread : continuation (secondBounds b.toNat).1 (secondBounds b.toNat).2 1 ([t] ++ after) =
        [t] := by
      rw [List.singleton_append, continuation_cons hsecond.1 hsecond.2, continuation_zero]
    exact step_eq (following?_eq_some_iff.2 (by omega)) hread rfl
  | @three _ t u hb ht hshortest hsurrogate hu =>
    have hsecond := (secondBounds_iff b.toNat t.toNat).2
      ⟨ht.1, ht.2, hshortest, hsurrogate, by omega, by omega⟩
    have hread : continuation (secondBounds b.toNat).1 (secondBounds b.toNat).2 2
        ([t, u] ++ after) = [t, u] := by
      rw [List.cons_append, List.singleton_append, continuation_cons hsecond.1 hsecond.2,
        continuation_cons hu.1 hu.2, continuation_zero]
    exact step_eq (following?_eq_some_iff.2 (by omega)) hread rfl
  | @four _ t u v hb ht hshortest hlast hu hv =>
    have hsecond := (secondBounds_iff b.toNat t.toNat).2
      ⟨ht.1, ht.2, by omega, by omega, hshortest, hlast⟩
    have hread : continuation (secondBounds b.toNat).1 (secondBounds b.toNat).2 3
        ([t, u, v] ++ after) = [t, u, v] := by
      rw [List.cons_append, List.cons_append, List.singleton_append,
        continuation_cons hsecond.1 hsecond.2, continuation_cons hu.1 hu.2,
        continuation_cons hv.1 hv.2, continuation_zero]
    exact step_eq (following?_eq_some_iff.2 (by omega)) hread rfl

/-- What is read is the encoding of a code point. -/
theorem encodes_of_step {b : UInt8} {rest : List UInt8} {c : Char} {n : Nat}
    (h : step b rest = .char c n) : ∃ code more after, Encodes code b more ∧
      rest = more ++ after ∧ n = more.length + 1 ∧ c = Char.ofNat code := by
  obtain ⟨want, more, hwant, hmore, hlength, rfl, rfl⟩ := exists_of_step h
  rw [← hmore] at hlength
  rcases following?_eq_some_iff.1 hwant with ⟨rfl, hb⟩ | ⟨rfl, hb⟩ | ⟨rfl, hb⟩ | ⟨rfl, hb⟩
  · rw [continuation_zero] at hmore
    subst hmore
    exact ⟨_, [], rest, .one hb, rfl, rfl, rfl⟩
  · obtain ⟨t, r, rfl, ht, ht', -⟩ := length_continuation_succ_iff.1 hlength
    have hsecond := (secondBounds_iff _ _).1 ⟨ht, ht'⟩
    rw [continuation_cons ht ht', continuation_zero] at hmore
    subst hmore
    exact ⟨_, [t], r, .two hb ⟨hsecond.1, hsecond.2.1⟩, rfl, rfl, rfl⟩
  · obtain ⟨t, r, rfl, ht, ht', hlength⟩ := length_continuation_succ_iff.1 hlength
    obtain ⟨u, r, rfl, hu, hu', -⟩ := length_continuation_succ_iff.1 hlength
    obtain ⟨hlo, hhi, hE0, hED, -, -⟩ := (secondBounds_iff _ _).1 ⟨ht, ht'⟩
    rw [continuation_cons ht ht', continuation_cons hu hu', continuation_zero] at hmore
    subst hmore
    exact ⟨_, [t, u], r, .three hb ⟨hlo, hhi⟩ hE0 hED ⟨hu, hu'⟩, rfl, rfl, rfl⟩
  · obtain ⟨t, r, rfl, ht, ht', hlength⟩ := length_continuation_succ_iff.1 hlength
    obtain ⟨u, r, rfl, hu, hu', hlength⟩ := length_continuation_succ_iff.1 hlength
    obtain ⟨v, r, rfl, hv, hv', -⟩ := length_continuation_succ_iff.1 hlength
    obtain ⟨hlo, hhi, -, -, hF0, hF4⟩ := (secondBounds_iff _ _).1 ⟨ht, ht'⟩
    rw [continuation_cons ht ht', continuation_cons hu hu', continuation_cons hv hv',
      continuation_zero] at hmore
    subst hmore
    exact ⟨_, [t, u, v], r, .four hb ⟨hlo, hhi⟩ hF0 hF4 ⟨hu, hu'⟩ ⟨hv, hv'⟩, rfl, rfl, rfl⟩

/-! ## The characters of bytes -/

theorem eq_ofNat {b : UInt8} {n : Nat} (h : b.toNat = n) : b = UInt8.ofNat n := by
  rw [← h, UInt8.ofNat_toNat]

theorem encodeChar_ofNat {n : Nat} (h : n.isValidChar) : String.utf8EncodeChar (Char.ofNat n) =
    if n ≤ 0x7F then [UInt8.ofNat n]
    else if n ≤ 0x7FF then [UInt8.ofNat (n / 64 % 32 + 0xC0), UInt8.ofNat (n % 64 + 0x80)]
    else if n ≤ 0xFFFF then
      [UInt8.ofNat (n / 4096 % 16 + 0xE0), UInt8.ofNat (n / 64 % 64 + 0x80),
        UInt8.ofNat (n % 64 + 0x80)]
    else
      [UInt8.ofNat (n / 262144 % 8 + 0xF0), UInt8.ofNat (n / 4096 % 64 + 0x80),
        UInt8.ofNat (n / 64 % 64 + 0x80), UInt8.ofNat (n % 64 + 0x80)] := by
  have hval : (Char.ofNat n).val.toNat = n := by
    rw [Char.ofNat, dif_pos h]
    rfl
  rw [String.utf8EncodeChar, hval]

theorem Encodes.isValidChar {code : Nat} {b : UInt8} {more : List UInt8}
    (h : Encodes code b more) : code.isValidChar := by
  unfold Nat.isValidChar
  cases h <;> omega

/-- What relates to a code point is its encoding. -/
theorem encodeChar_of_encodes {code : Nat} {b : UInt8} {more : List UInt8}
    (h : Encodes code b more) : String.utf8EncodeChar (Char.ofNat code) = b :: more := by
  rw [encodeChar_ofNat h.isValidChar]
  cases h with
  | one hb => rw [if_pos (by omega), UInt8.ofNat_toNat]
  | @two _ t hb ht =>
    rw [if_neg (by omega), if_pos (by omega), ← eq_ofNat (b := b) (by omega),
      ← eq_ofNat (b := t) (by omega)]
  | @three _ t u hb ht hshortest hsurrogate hu =>
    rw [if_neg (by omega), if_neg (by omega), if_pos (by omega), ← eq_ofNat (b := b) (by omega),
      ← eq_ofNat (b := t) (by omega), ← eq_ofNat (b := u) (by omega)]
  | @four _ t u v hb ht hshortest hlast hu hv =>
    rw [if_neg (by omega), if_neg (by omega), if_neg (by omega), ← eq_ofNat (b := b) (by omega),
      ← eq_ofNat (b := t) (by omega), ← eq_ofNat (b := u) (by omega),
      ← eq_ofNat (b := v) (by omega)]

theorem exists_byte {n : Nat} (h : n < 256) : ∃ b : UInt8, b.toNat = n :=
  ⟨UInt8.ofNat n, by rw [UInt8.toNat_ofNat', Nat.mod_eq_of_lt h]⟩

/-- Every code point of a character has an encoding. -/
theorem exists_encodes {n : Nat} (h : n.isValidChar) : ∃ b more, Encodes n b more := by
  unfold Nat.isValidChar at h
  by_cases h₁ : n ≤ 0x7F
  · obtain ⟨b, rfl⟩ := exists_byte (n := n) (by omega)
    exact ⟨b, [], .one (by omega)⟩
  by_cases h₂ : n ≤ 0x7FF
  · obtain ⟨b, hb⟩ := exists_byte (n := n / 64 + 0xC0) (by omega)
    obtain ⟨t, ht⟩ := exists_byte (n := n % 64 + 0x80) (by omega)
    have hcode : b.toNat % 32 * 64 + t.toNat % 64 = n := by omega
    refine ⟨b, [t], ?_⟩
    rw [← hcode]
    exact .two (by omega) (by omega)
  by_cases h₃ : n ≤ 0xFFFF
  · obtain ⟨b, hb⟩ := exists_byte (n := n / 4096 + 0xE0) (by omega)
    obtain ⟨t, ht⟩ := exists_byte (n := n / 64 % 64 + 0x80) (by omega)
    obtain ⟨u, hu⟩ := exists_byte (n := n % 64 + 0x80) (by omega)
    have hcode : (b.toNat % 16 * 64 + t.toNat % 64) * 64 + u.toNat % 64 = n := by omega
    refine ⟨b, [t, u], ?_⟩
    rw [← hcode]
    exact .three (by omega) (by omega) (by omega) (by omega) (by omega)
  · obtain ⟨b, hb⟩ := exists_byte (n := n / 262144 + 0xF0) (by omega)
    obtain ⟨t, ht⟩ := exists_byte (n := n / 4096 % 64 + 0x80) (by omega)
    obtain ⟨u, hu⟩ := exists_byte (n := n / 64 % 64 + 0x80) (by omega)
    obtain ⟨v, hv⟩ := exists_byte (n := n % 64 + 0x80) (by omega)
    have hcode : ((b.toNat % 8 * 64 + t.toNat % 64) * 64 + u.toNat % 64) * 64 +
        v.toNat % 64 = n := by omega
    refine ⟨b, [t, u, v], ?_⟩
    rw [← hcode]
    exact .four (by omega) (by omega) (by omega) (by omega) (by omega) (by omega)

/-- Where the encoding of a character stands, the character is read. -/
theorem step_encodeChar (c : Char) (after : List UInt8) :
    ∃ b more, String.utf8EncodeChar c = b :: more ∧
      step b (more ++ after) = .char c (more.length + 1) := by
  obtain ⟨b, more, h⟩ := exists_encodes (n := c.toNat) c.valid
  have hencode := encodeChar_of_encodes h
  have hstep := step_of_encodes h after
  rw [Char.ofNat_toNat] at hencode hstep
  exact ⟨b, more, hencode, hstep⟩

/-! ## Texts -/

theorem encode_cons (c : Char) (cs : List Char) :
    encode (c :: cs) = String.utf8EncodeChar c ++ encode cs := List.flatMap_cons

/-- What starts with a lead byte is an encoding if its first character is read. -/
theorem exists_step_of_encode {b : UInt8} {r : List UInt8} {cs : List Char}
    (h : b :: r = encode cs) : ∃ c cs' more, cs = c :: cs' ∧ r = more ++ encode cs' ∧
      step b r = .char c (more.length + 1) := by
  cases cs with
  | nil => cases h
  | cons c cs =>
    obtain ⟨b', more, hencode, hstep⟩ := step_encodeChar c (encode cs)
    rw [encode_cons, hencode, List.cons_append] at h
    obtain ⟨rfl, rfl⟩ := List.cons.inj h
    exact ⟨c, cs, more, rfl, rfl, hstep⟩

theorem encode_eq_nil_iff {cs : List Char} : [] = encode cs ↔ cs = [] := by
  constructor
  · intro h
    cases cs with
    | nil => rfl
    | cons c cs =>
      obtain ⟨b, more, hencode, -⟩ := step_encodeChar c []
      rw [encode_cons, hencode] at h
      cases h
  · rintro rfl
    rfl

theorem decodeAux_eq_some_iff {fuel : Nat} {bytes : List UInt8} (h : bytes.length ≤ fuel)
    {cs : List Char} : decodeAux none fuel bytes = some cs ↔ bytes = encode cs := by
  induction fuel generalizing bytes cs with
  | zero =>
    obtain rfl := List.length_eq_zero_iff.1 (Nat.le_zero.1 h)
    rw [encode_eq_nil_iff, decodeAux, Option.some_inj, eq_comm]
  | succ fuel ih =>
    cases bytes with
    | nil => rw [encode_eq_nil_iff, decodeAux, Option.some_inj, eq_comm]
    | cons b r =>
      rw [decodeAux]
      cases hstep : step b r with
      | char c n =>
        obtain ⟨code, more, after, h', rfl, rfl, rfl⟩ := encodes_of_step hstep
        have hencode := encodeChar_of_encodes h'
        have hafter : after.length ≤ fuel := by
          rw [List.length_cons, List.length_append] at h
          omega
        dsimp only
        rw [Nat.add_sub_cancel, List.drop_left, Option.map_eq_some_iff]
        constructor
        · rintro ⟨cs', hrest, rfl⟩
          rw [encode_cons, hencode, (ih hafter).1 hrest, List.cons_append]
        · intro hbytes
          obtain ⟨c', cs', more', rfl, hr, hstep'⟩ := exists_step_of_encode hbytes
          rw [hstep, Step.char.injEq] at hstep'
          obtain ⟨rfl, hlength⟩ := hstep'
          obtain ⟨-, hrest⟩ := List.append_inj hr (Nat.succ_inj.1 hlength)
          exact ⟨cs', (ih hafter).2 hrest, rfl⟩
      | malformed n =>
        constructor
        · intro hnone
          cases hnone
        · intro hbytes
          obtain ⟨c, cs', more, -, -, hstep'⟩ := exists_step_of_encode hbytes
          rw [hstep] at hstep'
          cases hstep'

/-- A text is read exactly from its encoding. -/
theorem decode?_eq_some_iff {bytes : List UInt8} {cs : List Char} :
    decode? bytes = some cs ↔ bytes = encode cs :=
  decodeAux_eq_some_iff (Nat.le_refl _)

theorem encodeChar_ascii {c : Char} (h : c.toNat < 128) :
    String.utf8EncodeChar c = [UInt8.ofNat c.toNat] :=
  if_pos (Nat.le_of_lt_succ h)

/-- Bytes below 128 are the characters of a text. -/
theorem decode?_ascii {cs : List Char} (h : ∀ c ∈ cs, c.toNat < 128) :
    decode? (cs.map fun c => UInt8.ofNat c.toNat) = some cs := by
  rw [decode?_eq_some_iff]
  induction cs with
  | nil => rfl
  | cons c cs ih =>
    rw [List.map_cons, ih fun d hd => h d (List.mem_cons_of_mem c hd), encode_cons,
      encodeChar_ascii (h c List.mem_cons_self), List.singleton_append]

end Readout.Text.Utf8
