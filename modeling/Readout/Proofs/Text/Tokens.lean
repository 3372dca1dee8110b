import Mathlib.Data.List.DropRight
import Readout.Proofs.Text.Words
/-!
# Lines and tokens

Where the lines of a text and the tokens of a line begin and end, without the functions that cut
them.  A token is a longest run of characters that are no blanks; the last one of a line has only
blanks behind it, and the beginning of the line or a blank in front of it.

* `EndsIn` is the last token of a line and what stands before it, `LastTwo` the last two;
* `tokens_eq_concat_iff`, `tokens_eq_pair_iff`: the tokens of a line end just in these;
* `joined` puts lines together to a text, and `exists_joined` says that every text is one;
* `findSome?_lines_joined` finds the first line that says something, whether or not the lines keep
  their carriage returns.
-/

namespace Readout.Text

/-! ## Tokens -/

/-- Characters that are no blanks, at least one of them. -/
def IsToken (t : List Char) : Prop := t ≠ [] ∧ ∀ c ∈ t, isBlank c = false

theorem isToken_of_mem_tokens {cs t : List Char} (h : t ∈ tokens cs) : IsToken t :=
  ⟨tokens_ne_nil h, fun _ => not_isBlank_of_mem_tokens h⟩

theorem IsWord.isToken {t : List Char} (h : IsWord t) : IsToken t :=
  ⟨h.1, fun c hc => not_isBlank_of_isNameChar (h.2 c hc)⟩

/-- The last token of a line, and what stands before it. -/
def EndsIn (line before t : List Char) : Prop :=
  IsToken t ∧ (∀ c ∈ before.getLast?, isBlank c = true) ∧
    ∃ after, (∀ c ∈ after, isBlank c = true) ∧ line = before ++ t ++ after

/-- The last two tokens of a line. -/
def LastTwo (line a b : List Char) : Prop :=
  ∃ middle before, EndsIn line middle b ∧ EndsIn middle before a

/-- A blank parts the tokens before it from those after it. -/
theorem tokens_cut {c : Char} (hc : isBlank c = true) (cs ds : List Char) :
    tokens (cs ++ c :: ds) = tokens cs ++ tokens ds := by
  rw [tokens, pieces_cut hc, List.filter_append]
  rfl

theorem tokens_blanks {cs : List Char} (h : ∀ c ∈ cs, isBlank c = true) : tokens cs = [] := by
  induction cs with
  | nil => rfl
  | cons c cs ih =>
    rw [← List.nil_append (c :: cs), tokens_cut (h c List.mem_cons_self),
      ih fun d hd => h d (List.mem_cons_of_mem c hd)]
    rfl

theorem tokens_append_blanks (cs : List Char) {after : List Char}
    (h : ∀ c ∈ after, isBlank c = true) : tokens (cs ++ after) = tokens cs := by
  cases after with
  | nil => rw [List.append_nil]
  | cons c after =>
    rw [tokens_cut (h c List.mem_cons_self),
      tokens_blanks fun d hd => h d (List.mem_cons_of_mem c hd), List.append_nil]

theorem IsToken.tokens {t : List Char} (h : IsToken t) : tokens t = [t] := by
  rw [Text.tokens, pieces_self h.2]
  simp [h.1]

theorem EndsIn.tokens {line before t : List Char} (h : EndsIn line before t) :
    tokens line = Text.tokens before ++ [t] := by
  obtain ⟨htoken, hblank, after, hafter, rfl⟩ := h
  rw [tokens_append_blanks _ hafter]
  rcases List.eq_nil_or_concat' before with rfl | ⟨init, c, rfl⟩
  · exact htoken.tokens
  · have hc : isBlank c = true := hblank c (by simp)
    have hnil : Text.tokens [] = [] := rfl
    rw [List.append_assoc, List.singleton_append, tokens_cut hc, tokens_cut hc, htoken.tokens, hnil,
      List.append_nil]

/-- A line with a token has a last one. -/
theorem exists_endsIn {line : List Char} (h : tokens line ≠ []) :
    ∃ before t, EndsIn line before t := by
  -- the blanks at the end of the line are cut off first, then what is no blank
  obtain ⟨body, after, hline, hafter, hbody⟩ : ∃ body after, line = body ++ after ∧
      (∀ c ∈ after, isBlank c = true) ∧ ∀ hne : body ≠ [], isBlank (body.getLast hne) ≠ true :=
    ⟨line.rdropWhile isBlank, line.rtakeWhile isBlank, List.rdropWhile_append_rtakeWhile.symm,
      fun _ => List.mem_rtakeWhile_imp, List.rdropWhile_last_not _ _⟩
  have hne : body ≠ [] := by
    rintro rfl
    rw [hline] at h
    exact h (tokens_blanks hafter)
  refine ⟨body.rdropWhile fun c => !isBlank c, body.rtakeWhile fun c => !isBlank c,
    ⟨?_, ?_⟩, ?_, after, hafter, ?_⟩
  · intro hnil
    exact List.rtakeWhile_eq_nil_iff.1 hnil hne (by simpa using hbody hne)
  · intro c hc
    simpa using List.mem_rtakeWhile_imp hc
  · intro c hc
    obtain ⟨hbefore, rfl⟩ := List.mem_getLast?_eq_getLast hc
    simpa using List.rdropWhile_last_not _ _ hbefore
  · rw [List.rdropWhile_append_rtakeWhile, hline]

/-- The tokens of a line end in its last one, and those before it are the tokens before it. -/
theorem tokens_eq_concat_iff {line t : List Char} {ts : List (List Char)} :
    tokens line = ts ++ [t] ↔ ∃ before, EndsIn line before t ∧ tokens before = ts := by
  constructor
  · intro h
    have hne : tokens line ≠ [] := by simp [h]
    obtain ⟨before, t', hends⟩ := exists_endsIn hne
    obtain ⟨hts, ht⟩ := List.append_inj' (hends.tokens.symm.trans h) rfl
    obtain rfl := List.singleton_inj.1 ht
    exact ⟨before, hends, hts⟩
  · rintro ⟨before, hends, rfl⟩
    exact hends.tokens

/-- The tokens of a line end in its last two. -/
theorem tokens_eq_pair_iff {line a b : List Char} :
    (∃ ts, tokens line = ts ++ [a, b]) ↔ LastTwo line a b := by
  constructor
  · rintro ⟨ts, h⟩
    have hlast : tokens line = (ts ++ [a]) ++ [b] := by rw [h, List.append_assoc]; rfl
    obtain ⟨middle, hb, hmiddle⟩ := tokens_eq_concat_iff.1 hlast
    obtain ⟨before, ha, -⟩ := tokens_eq_concat_iff.1 hmiddle
    exact ⟨middle, before, hb, ha⟩
  · rintro ⟨middle, before, hb, ha⟩
    exact ⟨tokens before, by rw [hb.tokens, ha.tokens, List.append_assoc]; rfl⟩

/-- The carriage return at the end of a line is a blank. -/
theorem tokens_dropReturn (line : List Char) : tokens (dropReturn line) = tokens line := by
  unfold dropReturn
  split
  · rename_i hlast
    obtain ⟨init, rfl⟩ := List.getLast?_eq_some_iff.1 hlast
    have hreturn : ∀ c ∈ ['\r'], isBlank c = true := List.forall_mem_singleton.2 rfl
    rw [List.dropLast_concat, tokens_append_blanks init hreturn]
  · rfl

/-! ## Lines -/

/-- The text of lines, with a line feed between each of them and the next. -/
def joined (ls : List (List Char)) : List Char := ['\n'].intercalate ls

theorem joined_cons {ls : List (List Char)} (hls : ls ≠ []) (line : List Char) :
    joined (line :: ls) = line ++ '\n' :: joined ls := by
  obtain ⟨next, rest, rfl⟩ := List.exists_cons_of_ne_nil hls
  rw [joined, List.intercalate_cons_cons, List.append_assoc]
  rfl

/-- Lines without a line feed are the pieces of their text. -/
theorem pieces_joined {ls : List (List Char)} (hls : ls ≠ []) (h : ∀ line ∈ ls, '\n' ∉ line) :
    pieces (· == '\n') (joined ls) = ls := by
  induction ls with
  | nil => exact absurd rfl hls
  | cons line ls ih =>
    obtain ⟨hline, hrest⟩ := List.forall_mem_cons.1 h
    rcases eq_or_ne ls [] with rfl | hne
    · rw [joined, List.intercalate_singleton]
      exact pieces_self (beq_feed_of_not_mem hline)
    · rw [joined_cons hne, pieces_append rfl (beq_feed_of_not_mem hline), ih hne hrest]

/-- A text is put together again from its pieces. -/
theorem joined_pieces (text : List Char) : joined (pieces (· == '\n') text) = text := by
  induction text with
  | nil => rfl
  | cons c rest ih =>
    obtain ⟨p, ps, hps⟩ := List.exists_cons_of_ne_nil (pieces_ne_nil (· == '\n') rest)
    rw [hps] at ih
    rw [pieces, hps]
    split
    · rename_i hc
      rw [joined_cons (List.cons_ne_nil p ps), ih, eq_of_beq hc, List.nil_append]
    · dsimp only
      rcases eq_or_ne ps [] with rfl | hne
      · rw [joined, List.intercalate_singleton] at ih ⊢
        rw [ih]
      · rw [joined_cons hne] at ih ⊢
        rw [List.cons_append, ih]

/-- Every text is the text of some lines. -/
theorem exists_joined (text : List Char) :
    ∃ ls, (∀ line ∈ ls, '\n' ∉ line) ∧ text = joined ls := by
  refine ⟨pieces (· == '\n') text, ?_, (joined_pieces text).symm⟩
  intro line hline hmem
  exact absurd (not_sep_of_mem_pieces hline hmem) (by decide)

variable {α : Type} {f : List Char → Option α}

/-- What is found first in the pieces of a text is found first in its lines, if an empty line says
nothing and a carriage return at the end of a line is not looked at. -/
theorem findSome?_linesOfPieces (hnil : f [] = none) (hreturn : ∀ line, f (dropReturn line) = f line)
    (ps : List (List Char)) : (linesOfPieces ps).findSome? f = ps.findSome? f := by
  fun_induction linesOfPieces ps with
  | case1 => rfl
  | case2 last hempty =>
    rw [List.isEmpty_iff.1 hempty, List.findSome?_cons, hnil]
  | case3 last hfull => rfl
  | case4 line rest hrest ih =>
    rw [List.findSome?_cons, List.findSome?_cons, hreturn, ih]

theorem findSome?_lines_joined (hnil : f [] = none) (hreturn : ∀ line, f (dropReturn line) = f line)
    {ls : List (List Char)} (h : ∀ line ∈ ls, '\n' ∉ line) :
    (lines (joined ls)).findSome? f = ls.findSome? f := by
  rcases eq_or_ne ls [] with rfl | hls
  · rfl
  · rw [lines, pieces_joined hls h, findSome?_linesOfPieces hnil hreturn]

end Readout.Text
