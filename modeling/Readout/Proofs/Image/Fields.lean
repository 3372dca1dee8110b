import Readout.Proofs.Image.Cards
import Readout.Proofs.Text.Literals
/-!
# Fields of a card

A card with a keyword of the fixed form is read at fixed places: the keyword in the first eight
characters, an equals sign and a blank, and the value from the eleventh character on.  Numbers and
truth values end in the thirtieth character.  A text stands between quotes, and a quote within it is
written twice.

* `chars_plain`: a card is its keyword, its value field, and what there is room for of its comment;
* `valueText_int`: the digits of an integer, and that they have room in the field;
* `unquoteRest_doubled`, `unquote_quoted`: a text is read back from between its quotes;
* `fields_read` puts these together for cards of integers, truth values and texts.
-/

namespace Readout.Image.Card

open Text

/-! ## Characters -/

/-- The characters of a card, one for each of its bytes. -/
def chars (c : Card) : List Char := c.bytes.map fun b => Char.ofNat b.toNat

/-- Cut or fill with blanks to `n` characters. -/
def fitTo (n : Nat) (cs : List Char) : List Char :=
  cs.take n ++ List.replicate (n - cs.length) ' '

theorem fitTo_append {n : Nat} {cs : List Char} (h : cs.length ≤ n) (rest : List Char) :
    fitTo n (cs ++ rest) = cs ++ fitTo (n - cs.length) rest := by
  rw [fitTo, fitTo, List.take_append, List.take_of_length_le h, List.length_append,
    List.append_assoc, Nat.sub_add_eq]

theorem char_of_printing {ch : Char} (h : isPrinting ch = true) :
    Char.ofNat (UInt8.ofNat ch.toNat).toNat = ch := by
  rw [isPrinting, Bool.and_eq_true, decide_eq_true_eq, decide_eq_true_eq] at h
  rw [UInt8.toNat_ofNat', Nat.mod_eq_of_lt (by omega), Char.ofNat_toNat]

/-- A card of printing characters is its text, cut or filled. -/
theorem chars_eq {c : Card} (h : ∀ ch ∈ c.text, isPrinting ch = true) :
    c.chars = fitTo size c.text := by
  have hback : (c.text.map fun ch => UInt8.ofNat ch.toNat).map (fun b => Char.ofNat b.toNat) =
      c.text := by
    rw [List.map_map]
    conv_rhs => rw [← List.map_id c.text]
    exact List.map_congr_left fun ch hch => char_of_printing (h ch hch)
  rw [chars, bytes, List.filter_eq_self.2 h, fit, List.map_append, List.map_take, hback,
    List.map_replicate, List.length_map]
  rfl

/-! ## Cards of the fixed form -/

/-- The keyword of a card is of the fixed form and belongs to a card with a value, and its comment
can be printed. -/
structure IsPlain (c : Card) : Prop where
  keyword_ne : c.keywordText ≠ []
  short : c.keywordText.length ≤ 8
  letters : ∀ ch ∈ c.keywordText, isKeywordChar ch = true
  not_comment : c.keywordText ≠ "COMMENT".toList
  not_history : c.keywordText ≠ "HISTORY".toList
  printing : ∀ ch ∈ c.comment.toList, isPrinting ch = true

/-- What comes before the comment. -/
def head (c : Card) : List Char := padRight 8 ' ' c.keywordText ++ '=' :: ' ' :: valueField c.value

/-- The comment with its mark, if there is one. -/
def remarkText (c : Card) : List Char :=
  if c.comment.isEmpty then [] else " / ".toList ++ c.comment.toList

variable {c : Card}

theorem text_plain (h : c.IsPlain) : c.text = c.head ++ c.remarkText := by
  have hremark : isRemark c.keywordText = false := by
    rw [isRemark, Bool.or_eq_false_iff, beq_eq_false_iff_ne, beq_eq_false_iff_ne]
    exact ⟨h.not_comment, h.not_history⟩
  have hplain : isPlainKeyword c.keywordText = true := by
    rw [isPlainKeyword, Bool.and_eq_true, decide_eq_true_eq, List.all_eq_true]
    exact ⟨h.short, h.letters⟩
  simp only [text, head, remarkText, hremark, hplain, Bool.false_eq_true, if_false, if_true]
  split
  · rw [List.append_nil]
  · rw [List.append_assoc]

theorem printing_replicate (n : Nat) : ∀ ch ∈ List.replicate n ' ', isPrinting ch = true := by
  intro ch hch
  rw [List.eq_of_mem_replicate hch]
  decide

theorem printing_head (h : c.IsPlain) (hvalue : ∀ ch ∈ valueField c.value, isPrinting ch = true) :
    ∀ ch ∈ c.head, isPrinting ch = true := by
  rw [head, padRight, List.append_assoc]
  refine List.forall_mem_append.2 ⟨fun ch hch => isPrinting_of_isKeywordChar (h.letters ch hch), ?_⟩
  refine List.forall_mem_append.2 ⟨printing_replicate _, ?_⟩
  exact List.forall_mem_cons.2 ⟨by decide, List.forall_mem_cons.2 ⟨by decide, hvalue⟩⟩

theorem printing_remarkText (h : c.IsPlain) : ∀ ch ∈ c.remarkText, isPrinting ch = true := by
  rw [remarkText]
  split
  · simp
  · exact List.forall_mem_append.2 ⟨List.all_eq_true.1 (by decide), h.printing⟩

/-- **A card of the fixed form**: nothing of the keyword and the value is cut off, and the comment
has what room is left. -/
theorem chars_plain (h : c.IsPlain) (hvalue : ∀ ch ∈ valueField c.value, isPrinting ch = true)
    (hlen : (valueField c.value).length ≤ 70) :
    c.head.length = 10 + (valueField c.value).length ∧
      c.chars = c.head ++ fitTo (size - c.head.length) c.remarkText := by
  have hhead : c.head.length = 10 + (valueField c.value).length := by
    have hshort := h.short
    rw [head, List.length_append, length_padRight, List.length_cons, List.length_cons]
    omega
  have hprint : ∀ ch ∈ c.text, isPrinting ch = true := by
    rw [text_plain h]
    exact List.forall_mem_append.2 ⟨printing_head h hvalue, printing_remarkText h⟩
  refine ⟨hhead, ?_⟩
  rw [chars_eq hprint, text_plain h, fitTo_append (by rw [hhead, size]; omega)]

/-- The keyword is read from the first ten characters, the value from where they end. -/
theorem fields_plain (h : c.IsPlain) (hvalue : ∀ ch ∈ valueField c.value, isPrinting ch = true)
    (hlen : (valueField c.value).length ≤ 70) :
    c.chars.take 10 = padRight 8 ' ' c.keywordText ++ ['=', ' '] ∧
      c.chars.drop 10 =
        valueField c.value ++ fitTo (70 - (valueField c.value).length) c.remarkText := by
  obtain ⟨hhead, hchars⟩ := chars_plain h hvalue hlen
  have hkey : (padRight 8 ' ' c.keywordText ++ ['=', ' ']).length = 10 := by
    have hshort := h.short
    rw [List.length_append, length_padRight]
    simp only [List.length_cons, List.length_nil]
    omega
  have hroom : size - c.head.length = 70 - (valueField c.value).length := by
    rw [hhead, size]
    omega
  have hsplit : c.chars = (padRight 8 ' ' c.keywordText ++ ['=', ' ']) ++
      (valueField c.value ++ fitTo (70 - (valueField c.value).length) c.remarkText) := by
    rw [hchars, hroom, head]
    simp
  rw [hsplit, ← hkey]
  exact ⟨List.take_left, List.drop_left⟩

/-- A value on the right of its field of twenty characters. -/
theorem fields_right (h : c.IsPlain) {cs : List Char} (hfield : valueField c.value = padLeft 20 ' ' cs)
    (hprint : ∀ ch ∈ cs, isPrinting ch = true) (hlen : cs.length ≤ 20) :
    c.chars.take 10 = padRight 8 ' ' c.keywordText ++ ['=', ' '] ∧
      (c.chars.drop 10).take 20 = padLeft 20 ' ' cs ∧ c.chars.drop 30 = fitTo 50 c.remarkText := by
  have hlength : (padLeft 20 ' ' cs).length = 20 := by
    rw [length_padLeft]
    omega
  have hvalue : ∀ ch ∈ valueField c.value, isPrinting ch = true := by
    rw [hfield, padLeft]
    exact List.forall_mem_append.2 ⟨printing_replicate _, hprint⟩
  obtain ⟨hkey, hrest⟩ := fields_plain h hvalue (by rw [hfield, hlength]; decide)
  rw [hfield, hlength] at hrest
  refine ⟨hkey, ?_, ?_⟩
  · rw [hrest, List.take_append_of_le_length (Nat.le_of_eq hlength.symm),
      List.take_of_length_le (Nat.le_of_eq hlength)]
  · rw [← List.drop_drop (i := 20) (j := 10), hrest, List.drop_append_of_le_length
      (Nat.le_of_eq hlength.symm), List.drop_of_length_le (Nat.le_of_eq hlength)]
    rfl

/-! ## Numbers and truth values -/

theorem isPrinting_of_isNameChar {ch : Char} (h : isNameChar ch = true) :
    isPrinting ch = true := by
  have hranges := isNameChar_ranges h
  rw [isPrinting, Bool.and_eq_true, decide_eq_true_eq, decide_eq_true_eq]
  omega

theorem valueText_int_nonneg {n : Int64} {m : Nat} (h : n.toInt = m) :
    valueText (.int n) = Nat.toDigits 10 m := by
  rw [valueText, h]
  show (Nat.repr m).toList = _
  simp [Nat.repr]

theorem valueText_int_neg {n : Int64} {m : Nat} (h : n.toInt = Int.negSucc m) :
    valueText (.int n) = '-' :: Nat.toDigits 10 (m + 1) := by
  rw [valueText, h]
  show ("-" ++ Nat.repr (m + 1)).toList = _
  simp [Nat.repr]

/-- An integer is its sign and the decimal digits of its magnitude, without zeros in front. -/
theorem valueText_int (n : Int64) : ∃ digits, Denotes 10 digits n.toInt.natAbs ∧
    (digits.head? = some '0' → digits = ['0']) ∧
    valueText (.int n) = (if n.toInt < 0 then ['-'] else []) ++ digits ∧
    (∀ ch ∈ valueText (.int n), isPrinting ch = true) ∧ (valueText (.int n)).length ≤ 20 := by
  have hlow := n.le_toInt
  have hhigh := n.toInt_lt
  have hlength : (Nat.toDigits 10 n.toInt.natAbs).length ≤ 19 :=
    (Nat.length_toDigits_le_iff (by decide) (by decide)).2 (by omega)
  have htext : valueText (.int n) =
      (if n.toInt < 0 then ['-'] else []) ++ Nat.toDigits 10 n.toInt.natAbs := by
    cases hn : n.toInt with
    | ofNat m =>
      have hsign : ¬ Int.ofNat m < 0 := Int.not_lt.2 (Int.natCast_nonneg m)
      rw [valueText_int_nonneg hn, if_neg hsign]
      rfl
    | negSucc m =>
      rw [valueText_int_neg hn, if_pos (Int.negSucc_lt_zero m)]
      rfl
  have hdigits : Denotes 10 (Nat.toDigits 10 n.toInt.natAbs) n.toInt.natAbs :=
    denotes_toDigits (by decide) (by decide) _
  refine ⟨_, hdigits, ?_, htext, ?_, ?_⟩
  · intro hfirst
    rw [eq_zero_of_head_toDigits hfirst]
    rfl
  · rw [htext]
    refine List.forall_mem_append.2 ⟨?_, fun ch hch => ?_⟩
    · split <;> exact List.all_eq_true.1 (by decide)
    · exact isPrinting_of_isNameChar (hdigits.isNameChar ch hch)
  · rw [htext, List.length_append]
    split <;> simp <;> omega

/-! ## Texts -/

/-- Every quote is written twice. -/
def doubled (cs : List Char) : List Char :=
  cs.flatMap fun ch => if ch = '\'' then ['\'', '\''] else [ch]

/-- Read to the closing quote; two quotes stand for one.  The rest is what follows. -/
def unquoteRest : List Char → Option (List Char × List Char)
  | [] => none
  | '\'' :: '\'' :: cs => (unquoteRest cs).map fun (read, rest) => ('\'' :: read, rest)
  | '\'' :: cs => some ([], cs)
  | ch :: cs => (unquoteRest cs).map fun (read, rest) => (ch :: read, rest)

/-- Read a text from its opening quote to its closing one. -/
def unquote : List Char → Option (List Char × List Char)
  | '\'' :: cs => unquoteRest cs
  | _ => none

/-- A text is read back from between its quotes, unless another quote follows. -/
theorem unquoteRest_doubled (cs : List Char) {rest : List Char} (h : rest.head? ≠ some '\'') :
    unquoteRest (doubled cs ++ '\'' :: rest) = some (cs, rest) := by
  induction cs with
  | nil =>
    show unquoteRest ('\'' :: rest) = some ([], rest)
    rw [unquoteRest]
    rintro cs rfl
    exact h rfl
  | cons ch cs ih =>
    by_cases hquote : ch = '\''
    · subst hquote
      show unquoteRest ('\'' :: '\'' :: (doubled cs ++ '\'' :: rest)) = _
      rw [unquoteRest, ih]
      rfl
    · have hone : doubled (ch :: cs) = ch :: doubled cs := by
        simp [doubled, hquote]
      rw [hone, List.cons_append, unquoteRest, ih]
      · rfl
      · simp [hquote]
      · simp [hquote]

/-- Blanks that fill a text stand within its quotes. -/
theorem quoted_eq (s : String) : ∃ blanks,
    quoted s = '\'' :: doubled (s.toList ++ List.replicate blanks ' ') ++ ['\''] := by
  have hblanks : ∀ n, doubled (List.replicate n ' ') = List.replicate n ' ' := by
    intro n
    induction n with
    | zero => rfl
    | succ n ih =>
      rw [List.replicate_succ]
      show ' ' :: doubled (List.replicate n ' ') = _
      rw [ih]
  refine ⟨8 - (doubled s.toList).length, ?_⟩
  rw [doubled, List.flatMap_append]
  show _ = '\'' :: (doubled s.toList ++ doubled (List.replicate _ ' ')) ++ ['\'']
  rw [hblanks]
  rfl

/-- A text is read from its opening quote, with the blanks that fill it, and what follows the closing
one is left. -/
theorem unquote_quoted (s : String) {rest : List Char} (h : rest.head? ≠ some '\'') :
    ∃ blanks, unquote (quoted s ++ rest) = some (s.toList ++ List.replicate blanks ' ', rest) := by
  obtain ⟨blanks, hquoted⟩ := quoted_eq s
  refine ⟨blanks, ?_⟩
  rw [hquoted, List.append_assoc, List.cons_append, List.singleton_append]
  exact unquoteRest_doubled _ h

theorem printing_quoted {s : String} (h : ∀ ch ∈ s.toList, isPrinting ch = true) :
    ∀ ch ∈ quoted s, isPrinting ch = true := by
  obtain ⟨blanks, hquoted⟩ := quoted_eq s
  have hinner : ∀ ch ∈ s.toList ++ List.replicate blanks ' ', isPrinting ch = true :=
    List.forall_mem_append.2 ⟨h, printing_replicate blanks⟩
  rw [hquoted, List.cons_append]
  have hquote : isPrinting '\'' = true := by decide
  refine List.forall_mem_cons.2 ⟨hquote, List.forall_mem_append.2 ⟨?_, ?_⟩⟩
  · intro ch hch
    obtain ⟨orig, horig, hch⟩ := List.mem_flatMap.1 hch
    split at hch
    · have heq : ch = '\'' := by simpa using hch
      rw [heq, hquote]
    · rw [List.mem_singleton.1 hch]
      exact hinner orig horig
  · exact List.forall_mem_singleton.2 hquote

/-! ## Reading the fields -/

/-- What follows a value begins with a blank, or it is empty. -/
theorem head_fitTo_remark (c : Card) (n blanks : Nat) :
    (fitTo n (List.replicate blanks ' ' ++ c.remarkText)).head? ≠ some '\'' := by
  cases n with
  | zero => simp [fitTo]
  | succ n =>
    cases blanks with
    | succ blanks => simp [fitTo, List.replicate_succ]
    | zero =>
      rw [remarkText]
      split <;> simp [fitTo, List.replicate_succ]

theorem valueField_text (s : String) :
    valueField (.text s) = quoted s ++ List.replicate (20 - (quoted s).length) ' ' := rfl

/-- **The fields of a card are read back.**  A card with a keyword of the fixed form and a printable
comment of any length begins with the keyword, an equals sign and a blank.  An integer stands on
the right of the next twenty characters, as its sign and digits that denote its magnitude, with no
zero in front; a truth value is the letter in the thirtieth place.  A printable text whose quoted
form has at most seventy characters is read from its opening quote to its closing one as the text
itself and the blanks that fill it.  What follows a value are blanks, or the comment behind its mark
as far as there is room: nothing else is ever cut off. -/
theorem fields_read (c : Card) (h : c.IsPlain) :
    (∀ n : Int64, c.value = .int n →
      c.chars.take 10 = padRight 8 ' ' c.keywordText ++ ['=', ' '] ∧
      (∃ digits, Denotes 10 digits n.toInt.natAbs ∧ (digits.head? = some '0' → digits = ['0']) ∧
        ((if n.toInt < 0 then ['-'] else []) ++ digits).length ≤ 20 ∧
        (c.chars.drop 10).take 20 =
          padLeft 20 ' ' ((if n.toInt < 0 then ['-'] else []) ++ digits)) ∧
      c.chars.drop 30 = fitTo 50 c.remarkText) ∧
    (∀ b : Bool, c.value = .logical b →
      c.chars.take 10 = padRight 8 ' ' c.keywordText ++ ['=', ' '] ∧
      (c.chars.drop 10).take 20 = List.replicate 19 ' ' ++ [if b then 'T' else 'F'] ∧
      c.chars[29]? = some (if b then 'T' else 'F') ∧
      c.chars.drop 30 = fitTo 50 c.remarkText) ∧
    ∀ s : String, c.value = .text s → (∀ ch ∈ s.toList, isPrinting ch = true) →
      (quoted s).length ≤ 70 →
        c.chars.take 10 = padRight 8 ' ' c.keywordText ++ ['=', ' '] ∧
        ∃ blanks, unquote (c.chars.drop 10) =
          some (s.toList ++ List.replicate blanks ' ', fitTo (70 - (quoted s).length)
            (List.replicate (20 - (quoted s).length) ' ' ++ c.remarkText)) := by
  refine ⟨fun n hn => ?_, fun b hb => ?_, fun s hs hprint hlen => ?_⟩
  · obtain ⟨digits, hdigits, hzeros, htext, hprint, hlen⟩ := valueText_int n
    have hfield : valueField c.value =
        padLeft 20 ' ' ((if n.toInt < 0 then ['-'] else []) ++ digits) := by
      rw [hn, ← htext]
      rfl
    rw [htext] at hprint hlen
    obtain ⟨hkey, hvalue, hrest⟩ := fields_right h hfield hprint hlen
    exact ⟨hkey, ⟨digits, hdigits, hzeros, hlen, hvalue⟩, hrest⟩
  · have hfield : valueField c.value = padLeft 20 ' ' [if b then 'T' else 'F'] := by
      rw [hb]
      rfl
    have hprint : ∀ ch ∈ [if b then 'T' else 'F'], isPrinting ch = true := by
      cases b <;> exact List.all_eq_true.1 (by decide)
    obtain ⟨hkey, hvalue, hrest⟩ := fields_right h hfield hprint (Nat.le_add_left 1 19)
    have hlast := congrArg (·[19]?) hvalue
    rw [List.getElem?_take_of_lt (by decide), List.getElem?_drop] at hlast
    exact ⟨hkey, hvalue, hlast, hrest⟩
  · have hfield : (valueField c.value) =
        quoted s ++ List.replicate (20 - (quoted s).length) ' ' := by
      rw [hs, valueField_text]
    have hvalue : ∀ ch ∈ valueField c.value, isPrinting ch = true := by
      rw [hfield]
      exact List.forall_mem_append.2 ⟨printing_quoted hprint, printing_replicate _⟩
    have hlength : (valueField c.value).length = max 20 (quoted s).length := by
      rw [hfield, List.length_append, List.length_replicate]
      omega
    obtain ⟨hkey, hrest⟩ := fields_plain h hvalue (by omega)
    -- the blanks that fill the field belong to what follows the closing quote
    have hroom : 70 - (quoted s).length - (List.replicate (20 - (quoted s).length) ' ').length =
        70 - max 20 (quoted s).length := by
      rw [List.length_replicate]
      omega
    have hafter : c.chars.drop 10 = quoted s ++ fitTo (70 - (quoted s).length)
        (List.replicate (20 - (quoted s).length) ' ' ++ c.remarkText) := by
      rw [fitTo_append (by rw [List.length_replicate]; omega), hroom, hrest, hlength, hfield,
        List.append_assoc]
    obtain ⟨blanks, hread⟩ := unquote_quoted s (head_fitTo_remark c _ (20 - (quoted s).length))
    exact ⟨hkey, blanks, hafter ▸ hread⟩

/-- A text of quotes that fills the card to its last place leaves no room for the comment. -/
theorem fields_read_full :
    let c : Card := ⟨"note-1", .text (String.ofList (List.replicate 34 '\'')), "full"⟩
    c.IsPlain ∧ (quoted (String.ofList (List.replicate 34 '\''))).length = 70 ∧
      ∃ blanks, unquote (c.chars.drop 10) =
        some (List.replicate 34 '\'' ++ List.replicate blanks ' ', []) := by
  have hplain : Card.IsPlain
      ⟨"note-1", .text (String.ofList (List.replicate 34 '\'')), "full"⟩ :=
    ⟨by decide, by decide, List.all_eq_true.1 (by decide), by decide, by decide,
      List.all_eq_true.1 (by decide)⟩
  have hlen : (quoted (String.ofList (List.replicate 34 '\''))).length = 70 := rfl
  obtain ⟨-, blanks, hread⟩ := (fields_read _ hplain).2.2 _ rfl
    (List.all_eq_true.1 (by decide)) (Nat.le_of_eq hlen)
  refine ⟨hplain, hlen, blanks, ?_⟩
  rw [hread, hlen]
  rfl

end Readout.Image.Card
