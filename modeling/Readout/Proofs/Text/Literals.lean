import Mathlib.Data.List.TakeWhile
import Readout.Proofs.Text.Words
/-!
# The grammar of integer literals

What an integer literal is, without the functions that read it.  A literal stands between blanks, and
begins with at most one sign.  Then come `0x` or `0X` and hexadecimal digits, or a zero and octal
digits, or a lone zero, or decimal digits of which the first is no zero.  Its magnitude is the number
that the digits denote, and lies below 2^63 under either sign.

* `Denotes` relates digits to the number that they denote in a radix, `Unsigned` and `Literal` are
  the grammar, and `Spells` is a literal between blanks;
* `magnitude?_eq_some_iff`, `unsigned_iff`, `literal_iff`: each step of the reader against its part of
  the grammar;
* `denotes_toDigits`: the digits of a number denote it;
* `CInteger.parse_grammar`: the reader accepts just the texts of the grammar, and every number
  below 2^63 is read back from each of its spellings.
-/

namespace Readout.Text

/-! ## Digits -/

/-- A character is a digit; letters in either case are the digits from ten to fifteen. -/
def IsDigit (c : Char) (d : Nat) : Prop := d < 16 ∧ (c = d.digitChar ∨ c = d.digitChar.toUpper)

/-- Digits, the most significant one first, denote a number in a radix. -/
def Denotes (base : Nat) (digits : List Char) (n : Nat) : Prop :=
  ∃ ds : List Nat, List.Forall₂ IsDigit digits ds ∧ (∀ d ∈ ds, d < base) ∧
    n = Nat.ofDigits base ds.reverse

theorem digitValue?_eq_some_iff {c : Char} {d : Nat} : digitValue? c = some d ↔ IsDigit c d := by
  have hdecimal : ∀ d < 10, d.digitChar.toNat = 48 + d := by decide
  have hlower : ∀ d < 16, 10 ≤ d → d.digitChar.toNat = 87 + d := by decide
  have hupper : ∀ d < 16, 10 ≤ d → d.digitChar.toUpper.toNat = 55 + d := by decide
  have hvalues : ∀ d < 16, digitValue? d.digitChar = some d ∧
    digitValue? d.digitChar.toUpper = some d := by decide
  constructor
  · intro h
    unfold digitValue? at h
    dsimp only at h
    split_ifs at h with h₁ h₂ h₃
    · cases h
      refine ⟨by omega, .inl (Char.toNat_inj.1 ?_)⟩
      rw [hdecimal _ (by omega)]
      omega
    · cases h
      refine ⟨by omega, .inl (Char.toNat_inj.1 ?_)⟩
      rw [hlower _ (by omega) (by omega)]
      omega
    · cases h
      refine ⟨by omega, .inr (Char.toNat_inj.1 ?_)⟩
      rw [hupper _ (by omega) (by omega)]
      omega
  · rintro ⟨hd, rfl | rfl⟩
    · exact (hvalues d hd).1
    · exact (hvalues d hd).2

theorem pushDigit_eq_some_iff {base acc n : Nat} {c : Char} :
    pushDigit base acc c = some n ↔ ∃ d, IsDigit c d ∧ d < base ∧ n = base * acc + d := by
  rw [pushDigit, Option.bind_eq_some_iff]
  refine exists_congr fun d => ?_
  rw [digitValue?_eq_some_iff, Option.ite_none_right_eq_some, Option.some.injEq, eq_comm (a := n)]

/-- Reading digits from the left on top of a number. -/
theorem foldlM_eq_some_iff {base acc n : Nat} {digits : List Char} :
    digits.foldlM (pushDigit base) acc = some n ↔
      ∃ ds : List Nat, List.Forall₂ IsDigit digits ds ∧ (∀ d ∈ ds, d < base) ∧
        n = base ^ ds.length * acc + Nat.ofDigits base ds.reverse := by
  induction digits generalizing acc with
  | nil => simp [eq_comm]
  | cons c digits ih =>
    rw [List.foldlM_cons]
    simp only [Option.bind_eq_bind, Option.bind_eq_some_iff, ih, pushDigit_eq_some_iff]
    constructor
    · rintro ⟨_, ⟨d, hdigit, hd, rfl⟩, ds, hdigits, hds, rfl⟩
      refine ⟨d :: ds, .cons hdigit hdigits, List.forall_mem_cons.2 ⟨hd, hds⟩, ?_⟩
      rw [List.reverse_cons, Nat.ofDigits_append, Nat.ofDigits_singleton, List.length_reverse,
        List.length_cons]
      ring
    · rintro ⟨_, hdigits, hall, rfl⟩
      cases hdigits with
      | @cons _ d _ ds hdigit hdigits =>
        obtain ⟨hd, hds⟩ := List.forall_mem_cons.1 hall
        refine ⟨_, ⟨d, hdigit, hd, rfl⟩, ds, hdigits, hds, ?_⟩
        rw [List.reverse_cons, Nat.ofDigits_append, Nat.ofDigits_singleton, List.length_reverse,
          List.length_cons]
        ring

theorem magnitude?_eq_some_iff {base n : Nat} {digits : List Char} :
    magnitude? base digits = some n ↔ digits ≠ [] ∧ Denotes base digits n := by
  cases digits with
  | nil => simp [magnitude?]
  | cons c digits =>
    show (c :: digits).foldlM (pushDigit base) 0 = some n ↔ _
    rw [foldlM_eq_some_iff, Denotes]
    simp

/-- A digit at the end is worth itself, and all before it the radix times more. -/
theorem Denotes.concat {base n d : Nat} {digits : List Char} {c : Char} (h : Denotes base digits n)
    (hc : IsDigit c d) (hd : d < base) : Denotes base (digits ++ [c]) (base * n + d) := by
  obtain ⟨ds, hdigits, hds, rfl⟩ := h
  refine ⟨ds ++ [d], List.rel_append hdigits (.cons hc .nil), ?_, ?_⟩
  · intro e he
    rcases List.mem_append.1 he with he | he
    · exact hds e he
    · rwa [List.mem_singleton.1 he]
  · rw [List.reverse_append, List.reverse_singleton, List.singleton_append, Nat.ofDigits_cons,
      Nat.add_comm]

/-- The digits of a number denote it. -/
theorem denotes_toDigits {base : Nat} (hlow : 1 < base) (hhigh : base ≤ 16) (n : Nat) :
    Denotes base (Nat.toDigits base n) n := by
  have hone : ∀ d < base, Denotes base [d.digitChar] d := fun d hd =>
    ⟨[d], .cons ⟨by omega, .inl rfl⟩ .nil, by simpa using hd, by simp⟩
  induction n using Nat.strongRecOn with
  | ind n ih =>
    rcases Nat.lt_or_ge n base with hlt | hge
    · rw [Nat.toDigits_of_lt_base hlt]
      exact hone n hlt
    · have hdigit : n % base < base := Nat.mod_lt _ (by omega)
      have hrest := ih (n / base) (Nat.div_lt_self (by omega) hlow)
      have hvalue := hrest.concat (c := (n % base).digitChar) ⟨by omega, .inl rfl⟩ hdigit
      rwa [Nat.div_add_mod, ← Nat.toDigits_of_base_le hlow hge] at hvalue

/-- Letters may be written in upper case. -/
theorem Denotes.toUpper {base n : Nat} {digits : List Char} (h : Denotes base digits n) :
    Denotes base (digits.map Char.toUpper) n := by
  have htwice : ∀ d < 16, d.digitChar.toUpper.toUpper = d.digitChar.toUpper := by decide
  obtain ⟨ds, hdigits, hds⟩ := h
  refine ⟨ds, List.forall₂_map_left_iff.2 (hdigits.imp fun c d hc => ?_), hds⟩
  obtain ⟨hd, rfl | rfl⟩ := hc
  · exact ⟨hd, .inr rfl⟩
  · exact ⟨hd, .inr (htwice d hd)⟩

theorem toDigits_ne_nil (base n : Nat) : Nat.toDigits base n ≠ [] :=
  List.ne_nil_of_length_pos Nat.length_toDigits_pos

theorem isNameChar_of_isDigit {c : Char} {d : Nat} (h : IsDigit c d) : isNameChar c = true := by
  have hnames : ∀ d < 16, isNameChar d.digitChar = true ∧
    isNameChar d.digitChar.toUpper = true := by decide
  obtain ⟨hd, rfl | rfl⟩ := h
  · exact (hnames d hd).1
  · exact (hnames d hd).2

theorem Denotes.isNameChar {base n : Nat} {digits : List Char} (h : Denotes base digits n) :
    ∀ c ∈ digits, isNameChar c = true := by
  obtain ⟨ds, hdigits, -, -⟩ := h
  intro c hc
  induction hdigits with
  | nil => cases hc
  | cons hdigit _ ih =>
    rcases List.mem_cons.1 hc with rfl | hc
    · exact isNameChar_of_isDigit hdigit
    · exact ih hc

theorem Denotes.head {base n : Nat} {c : Char} {digits : List Char}
    (h : Denotes base (c :: digits) n) : ∃ d, digitValue? c = some d := by
  obtain ⟨ds, hdigits, -, -⟩ := h
  cases hdigits with
  | cons hdigit _ => exact ⟨_, digitValue?_eq_some_iff.2 hdigit⟩

/-- A lone zero denotes zero. -/
theorem denotes_zero_iff {n : Nat} : Denotes 10 ['0'] n ↔ n = 0 := by
  have hzero : magnitude? 10 ['0'] = some 0 := rfl
  constructor
  · intro h
    have hn := magnitude?_eq_some_iff.2 ⟨List.cons_ne_nil '0' [], h⟩
    rw [hzero] at hn
    exact (Option.some.inj hn).symm
  · rintro rfl
    exact (magnitude?_eq_some_iff.1 hzero).2

/-! ## Literals -/

/-- An unsigned literal and the number that it denotes. -/
inductive Unsigned : List Char → Nat → Prop
  | hexadecimal {x : Char} {digits : List Char} {n : Nat} (hx : x = 'x' ∨ x = 'X')
      (hne : digits ≠ []) (h : Denotes 16 digits n) : Unsigned ('0' :: x :: digits) n
  | octal {digits : List Char} {n : Nat} (hne : digits ≠ []) (h : Denotes 8 digits n) :
      Unsigned ('0' :: digits) n
  | zero : Unsigned ['0'] 0
  | decimal {c : Char} {digits : List Char} {n : Nat} (hc : c ≠ '0')
      (h : Denotes 10 (c :: digits) n) : Unsigned (c :: digits) n

/-- A literal and the integer that it denotes. -/
inductive Literal : List Char → Int → Prop
  | bare {body : List Char} {n : Nat} (h : Unsigned body n) (hn : n < 2 ^ 63) : Literal body n
  | plus {body : List Char} {n : Nat} (h : Unsigned body n) (hn : n < 2 ^ 63) :
      Literal ('+' :: body) n
  | minus {body : List Char} {n : Nat} (h : Unsigned body n) (hn : n < 2 ^ 63) :
      Literal ('-' :: body) (-n)

/-- A text holds a literal and blanks around it. -/
def Spells (text : List Char) (v : Int) : Prop :=
  ∃ before body after, text = before ++ body ++ after ∧ (∀ c ∈ before, isBlank c = true) ∧
    (∀ c ∈ after, isBlank c = true) ∧ Literal body v

theorem Unsigned.isWord {body : List Char} {n : Nat} (h : Unsigned body n) : IsWord body := by
  have hzero : isNameChar '0' = true := by decide
  cases h with
  | @hexadecimal x _ _ hx _ h =>
    have hmark : isNameChar x = true := by
      rcases hx with rfl | rfl
      · decide
      · decide
    exact ⟨by simp, List.forall_mem_cons.2 ⟨hzero, List.forall_mem_cons.2 ⟨hmark, h.isNameChar⟩⟩⟩
  | octal _ h => exact ⟨by simp, List.forall_mem_cons.2 ⟨hzero, h.isNameChar⟩⟩
  | zero => exact ⟨by simp, List.forall_mem_cons.2 ⟨hzero, by simp⟩⟩
  | decimal _ h => exact ⟨by simp, h.isNameChar⟩

/-- The radix mark, and digits that denote the number in that radix. -/
theorem unsigned_iff {body : List Char} {n : Nat} :
    magnitude? (Radix.split body).1.base (Radix.split body).2 = some n ↔ Unsigned body n := by
  -- neither mark is a digit, so marked digits are no octal number
  have hmark : ∀ {x : Char} {digits : List Char} {base m : Nat}, x = 'x' ∨ x = 'X' →
      ¬ Denotes base (x :: digits) m := by
    intro x digits base m hx h
    obtain ⟨d, hd⟩ := h.head
    rcases hx with rfl | rfl <;> cases hd
  have hmarked : ∀ {x : Char} {digits : List Char}, x = 'x' ∨ x = 'X' →
      (digits ≠ [] ∧ Denotes 16 digits n ↔ Unsigned ('0' :: x :: digits) n) := by
    intro x digits hx
    constructor
    · rintro ⟨hne, h⟩
      exact .hexadecimal hx hne h
    · intro h
      cases h with
      | hexadecimal _ hne h => exact ⟨hne, h⟩
      | octal _ h => exact absurd h (hmark hx)
      | decimal hc _ => exact absurd rfl hc
  rw [magnitude?_eq_some_iff]
  unfold Radix.split
  split
  · exact hmarked (.inl rfl)
  · exact hmarked (.inr rfl)
  · rename_i d digits hlower hupper
    constructor
    · rintro ⟨hne, h⟩
      exact .octal hne h
    · intro h
      cases h with
      | hexadecimal hx _ _ => rcases hx with rfl | rfl <;> simp at hlower hupper
      | octal hne h => exact ⟨hne, h⟩
      | decimal hc _ => exact absurd rfl hc
  · rename_i hlower hupper hlone
    constructor
    · rintro ⟨hne, h⟩
      obtain ⟨c, digits, rfl⟩ := List.exists_cons_of_ne_nil hne
      by_cases hc : c = '0'
      · subst hc
        cases digits with
        | nil =>
          rw [denotes_zero_iff.1 h]
          exact .zero
        | cons d digits => exact absurd rfl (hlone d digits)
      · exact .decimal hc h
    · intro h
      cases h with
      | hexadecimal _ _ _ => exact absurd rfl (hlone _ _)
      | octal hne _ =>
        obtain ⟨d, digits, rfl⟩ := List.exists_cons_of_ne_nil hne
        exact absurd rfl (hlone d digits)
      | zero => exact ⟨by simp, denotes_zero_iff.2 rfl⟩
      | decimal _ h => exact ⟨by simp, h⟩

/-- An unsigned literal begins with no sign. -/
theorem Unsigned.splitSign {body : List Char} {n : Nat} (h : Unsigned body n) :
    CInteger.splitSign body = (false, body) := by
  have hword := h.isWord
  unfold CInteger.splitSign
  split
  · exact absurd List.mem_cons_self (not_mem_of_isWord hword (by decide))
  · exact absurd List.mem_cons_self (not_mem_of_isWord hword (by decide))
  · rfl

/-- A sign and what follows it. -/
theorem splitSign_cases (s : List Char) : (∃ body, s = '-' :: body ∧
    CInteger.splitSign s = (true, body)) ∨ (∃ body, s = '+' :: body ∧
    CInteger.splitSign s = (false, body)) ∨ CInteger.splitSign s = (false, s) := by
  unfold CInteger.splitSign
  split
  · exact .inl ⟨_, rfl, rfl⟩
  · exact .inr (.inl ⟨_, rfl, rfl⟩)
  · exact .inr (.inr rfl)

/-- A sign, and digits of a magnitude below 2^63 in the radix that they are marked with. -/
theorem parse?_eq (text : List Char) : CInteger.parse? text =
    (magnitude? (Radix.split (CInteger.splitSign (trim text)).2).1.base
      (Radix.split (CInteger.splitSign (trim text)).2).2).bind fun m =>
        if m < 2 ^ 63 then some (if (CInteger.splitSign (trim text)).1 then -(m : Int) else m)
        else none := by
  unfold CInteger.parse?
  rcases CInteger.splitSign (trim text) with ⟨negative, body⟩
  dsimp only
  rcases Radix.split body with ⟨radix, digits⟩
  dsimp only
  cases magnitude? radix.base digits with
  | none => rfl
  | some m => rfl

/-- The reader takes a literal between blanks. -/
theorem parse?_eq_some_iff_literal {text : List Char} {v : Int} :
    CInteger.parse? text = some v ↔ Literal (trim text) v := by
  rw [parse?_eq]
  generalize trim text = s
  have hvalue (negative : Bool) (body : List Char) :
      ((magnitude? (Radix.split body).1.base (Radix.split body).2).bind fun m =>
        if m < 2 ^ 63 then some (if negative then -(m : Int) else m) else none) = some v ↔
        ∃ n, Unsigned body n ∧ n < 2 ^ 63 ∧ v = if negative then -(n : Int) else n := by
    rw [Option.bind_eq_some_iff]
    refine exists_congr fun n => and_congr unsigned_iff ?_
    rw [Option.ite_none_right_eq_some, Option.some.injEq, eq_comm (a := v)]
  obtain ⟨body, rfl, hsplit⟩ | ⟨body, rfl, hsplit⟩ | hsplit := splitSign_cases s
  · rw [hsplit]
    refine (hvalue true body).trans ⟨?_, ?_⟩
    · rintro ⟨n, h, hn, rfl⟩
      exact .minus h hn
    · intro h
      cases h with
      | bare h _ => cases hsplit.symm.trans h.splitSign
      | minus h hn => exact ⟨_, h, hn, rfl⟩
  · rw [hsplit]
    refine (hvalue false body).trans ⟨?_, ?_⟩
    · rintro ⟨n, h, hn, rfl⟩
      exact .plus h hn
    · intro h
      cases h with
      | bare h _ =>
        have hself := congrArg Prod.snd (hsplit.symm.trans h.splitSign)
        exact absurd hself.symm (List.cons_ne_self _ _)
      | plus h hn => exact ⟨_, h, hn, rfl⟩
  · rw [hsplit]
    refine (hvalue false s).trans ⟨?_, ?_⟩
    · rintro ⟨n, h, hn, rfl⟩
      exact .bare h hn
    · intro h
      cases h with
      | bare h hn => exact ⟨_, h, hn, rfl⟩
      | plus _ _ =>
        have hself := congrArg Prod.snd hsplit
        exact absurd hself.symm (List.cons_ne_self _ _)
      | minus _ _ => cases hsplit

/-- A word is read from a literal that denotes a number below 2^32. -/
theorem parseWord?_eq_some_iff_literal {text : List Char} {w : UInt32} :
    CInteger.parseWord? text = some w ↔ Literal (trim text) w.toNat := by
  rw [← parse?_eq_some_iff_literal, CInteger.parseWord?, Option.map_eq_some_iff]
  unfold CInteger.parseNat?
  have hbound : 1 <<< 32 = UInt32.size := by decide
  constructor
  · rintro ⟨n, hn, rfl⟩
    split at hn
    · rename_i m hparse
      split at hn
      · rename_i hm
        cases hn
        rw [hparse, UInt32.toNat_ofNat_of_lt' (hbound ▸ hm)]
        rfl
      · cases hn
    · cases hn
  · intro h
    refine ⟨w.toNat, ?_, UInt32.ofNat_toNat⟩
    rw [h]
    exact if_pos (hbound ▸ w.toNat_lt)

/-! ## Blanks -/

/-- A text is its blanks at either end with what trimming leaves between them. -/
theorem trim_split (text : List Char) : ∃ before after, text = before ++ trim text ++ after ∧
    (∀ c ∈ before, isBlank c = true) ∧ ∀ c ∈ after, isBlank c = true := by
  refine ⟨text.takeWhile isBlank, ((trimStart text).reverse.takeWhile isBlank).reverse, ?_,
    fun c hc => List.mem_takeWhile_imp hc,
    fun c hc => List.mem_takeWhile_imp (List.mem_reverse.1 hc)⟩
  have hend : trimStart text =
      trim text ++ ((trimStart text).reverse.takeWhile isBlank).reverse := by
    rw [trim, trimEnd, ← List.reverse_append, List.takeWhile_append_dropWhile,
      List.reverse_reverse]
  rw [List.append_assoc, ← hend, trimStart, List.takeWhile_append_dropWhile]

/-- Blanks around a text without blanks are trimmed off. -/
theorem trim_between {before body after : List Char} (hne : body ≠ [])
    (hbody : ∀ c ∈ body, isBlank c = false) (hbefore : ∀ c ∈ before, isBlank c = true)
    (hafter : ∀ c ∈ after, isBlank c = true) : trim (before ++ body ++ after) = body := by
  obtain ⟨c, rest, hfirst⟩ := List.exists_cons_of_ne_nil hne
  have hc : isBlank c = false := hbody c (by simp [hfirst])
  have hstart : trimStart (before ++ body ++ after) = body ++ after := by
    rw [List.append_assoc, trimStart, List.dropWhile_append_of_pos hbefore, hfirst,
      List.cons_append, List.dropWhile_cons_of_neg (by simp [hc])]
  have hreverse : ∀ x ∈ after.reverse, isBlank x = true := fun x hx =>
    hafter x (List.mem_reverse.1 hx)
  rw [trim, hstart, trimEnd, List.reverse_append, List.dropWhile_append_of_pos hreverse]
  obtain ⟨init, d, hlast⟩ := (List.eq_nil_or_concat' body).resolve_left hne
  have hd : isBlank d = false := hbody d (by simp [hlast])
  rw [hlast, List.reverse_concat, List.dropWhile_cons_of_neg (by simp [hd])]
  simp

theorem Literal.not_isBlank {body : List Char} {v : Int} (h : Literal body v) :
    body ≠ [] ∧ ∀ c ∈ body, isBlank c = false := by
  have hword : ∀ {cs : List Char}, IsWord cs → ∀ c ∈ cs, isBlank c = false := fun hcs c hc =>
    not_isBlank_of_isNameChar (hcs.2 c hc)
  cases h with
  | bare h _ => exact ⟨h.isWord.1, hword h.isWord⟩
  | plus h _ => exact ⟨by simp, List.forall_mem_cons.2 ⟨by decide, hword h.isWord⟩⟩
  | minus h _ => exact ⟨by simp, List.forall_mem_cons.2 ⟨by decide, hword h.isWord⟩⟩

/-- A literal between blanks is a literal once they are trimmed off. -/
theorem spells_iff {text : List Char} {v : Int} : Spells text v ↔ Literal (trim text) v := by
  constructor
  · rintro ⟨before, body, after, rfl, hbefore, hafter, h⟩
    rwa [trim_between h.not_isBlank.1 h.not_isBlank.2 hbefore hafter]
  · intro h
    obtain ⟨before, after, htext, hbefore, hafter⟩ := trim_split text
    exact ⟨before, trim text, after, htext, hbefore, hafter, h⟩

/-! ## Spellings -/

/-- A sign that an integer can be written with; zero takes either. -/
def IsSign (sign : List Char) (n : Int) : Prop :=
  (sign = [] ∨ sign = ['+']) ∧ 0 ≤ n ∨ sign = ['-'] ∧ n ≤ 0

/-- Only zero has a zero in front. -/
theorem eq_zero_of_head_toDigits {n : Nat} (h : (Nat.toDigits 10 n).head? = some '0') : n = 0 := by
  have hfirst : ∀ d < 10, 0 < d → d.digitChar ≠ '0' := by decide
  rcases Nat.eq_zero_or_pos n with rfl | hn
  · rfl
  · obtain ⟨d, rest, hdigits, hpos, hd⟩ := toDigits_eq_cons (show 1 < 10 by decide) hn
    rw [hdigits] at h
    exact absurd (Option.some.inj h) (hfirst d hd hpos)

theorem unsigned_toDigits (n : Nat) : Unsigned (Nat.toDigits 10 n) n := by
  have hvalue := denotes_toDigits (show 1 < 10 by decide) (by decide) n
  obtain ⟨c, digits, hdigits⟩ := List.exists_cons_of_ne_nil (toDigits_ne_nil 10 n)
  by_cases hc : c = '0'
  · have hzero : n = 0 := eq_zero_of_head_toDigits (by rw [hdigits, hc]; rfl)
    rw [hzero]
    exact .zero
  · rw [hdigits] at hvalue ⊢
    exact .decimal hc hvalue

/-- An unsigned literal for the magnitude of an integer is a literal for it behind its sign. -/
theorem literal_of_sign {sign body : List Char} {n : Int} (hsign : IsSign sign n)
    (h : Unsigned body n.natAbs) (hn : n.natAbs < 2 ^ 63) : Literal (sign ++ body) n := by
  obtain ⟨rfl | rfl, hpos⟩ | ⟨rfl, hneg⟩ := hsign
  · rw [← Int.natAbs_of_nonneg hpos]
    exact .bare h hn
  · rw [← Int.natAbs_of_nonneg hpos]
    exact .plus h hn
  · have hvalue : n = -(n.natAbs : Int) := by omega
    rw [hvalue]
    exact .minus h hn

/-- **The reader accepts exactly the grammar.**  A text is read as an integer if it spells it, and as
none if it spells none: with a sign behind the radix mark, digits of another radix, anything before
or after the literal but blanks, or a magnitude from 2^63 on, however many digits it has.  Every
integer of a smaller magnitude is read back from its decimal, hexadecimal and octal digits behind
its sign. -/
theorem CInteger.parse_grammar :
    (∀ (text : List Char) (v : Int), parse? text = some v ↔ Spells text v) ∧
    (∀ text : List Char, parse? text = none ↔ ∀ v, ¬ Spells text v) ∧
    ∀ (n : Int) (sign : List Char), n.natAbs < 2 ^ 63 → IsSign sign n →
      parse? (sign ++ Nat.toDigits 10 n.natAbs) = some n ∧
      parse? (sign ++ '0' :: 'x' :: Nat.toDigits 16 n.natAbs) = some n ∧
      parse? (sign ++ '0' :: 'X' :: (Nat.toDigits 16 n.natAbs).map Char.toUpper) = some n ∧
      parse? (sign ++ '0' :: Nat.toDigits 8 n.natAbs) = some n := by
  have hreads : ∀ (text : List Char) (v : Int), parse? text = some v ↔ Spells text v :=
    fun text v => parse?_eq_some_iff_literal.trans spells_iff.symm
  refine ⟨hreads, fun text => ?_, fun n sign hn hsign => ?_⟩
  · rw [Option.eq_none_iff_forall_ne_some]
    exact forall_congr' fun v => not_congr (hreads text v)
  · have hliteral : ∀ {body : List Char}, Unsigned body n.natAbs →
        parse? (sign ++ body) = some n := fun h =>
      (hreads _ n).2 ⟨[], _, [], by simp, by simp, by simp, literal_of_sign hsign h hn⟩
    have hhex := denotes_toDigits (show 1 < 16 by decide) (by decide) n.natAbs
    have hoctal := denotes_toDigits (show 1 < 8 by decide) (by decide) n.natAbs
    have hne := toDigits_ne_nil 16 n.natAbs
    exact ⟨hliteral (unsigned_toDigits _), hliteral (.hexadecimal (.inl rfl) hne hhex),
      hliteral (.hexadecimal (.inr rfl) (by simp) hhex.toUpper),
      hliteral (.octal (toDigits_ne_nil 8 _) hoctal)⟩

/-- The least integer that is read, and the one below it that is not. -/
theorem CInteger.parse_grammar_least :
    (-0x7FFFFFFFFFFFFFFF : Int).natAbs < 2 ^ 63 ∧ IsSign ['-'] (-0x7FFFFFFFFFFFFFFF) ∧
      parse? (['-'] ++ Nat.toDigits 10 0x7FFFFFFFFFFFFFFF) = some (-0x7FFFFFFFFFFFFFFF) ∧
      parse? "-0X7FFFFFFFFFFFFFFF".toList = some (-0x7FFFFFFFFFFFFFFF) ∧
      ∀ v, ¬ Spells "-9223372036854775808".toList v := by
  have hsign : IsSign ['-'] (-0x7FFFFFFFFFFFFFFF) := .inr ⟨rfl, by decide⟩
  obtain ⟨hdecimal, -, hhex, -⟩ := parse_grammar.2.2 (-0x7FFFFFFFFFFFFFFF) ['-'] (by decide) hsign
  refine ⟨by decide, hsign, hdecimal, hhex, ?_⟩
  exact (parse_grammar.2.1 _).1 (by decide)

end Readout.Text
