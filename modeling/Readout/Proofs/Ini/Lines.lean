import Readout.Ini.Document
import Readout.Proofs.Text.Words
/-!
# Lines of words

A header around a word, a comment, and an assignment of a word to a word are read as what they are.

* `ofText_header`, `ofText_comment`, `ofText_assignment` are the three kinds of line, and
  `ofText_statement` says which lines are read as assignments;
* `linesOf_cons`: the first line of a text is read apart from the rest.
-/

namespace Readout.Ini

open Text

/-! ## Cutting -/

theorem cutAt_append {p : Char → Bool} {c : Char} (hc : p c = true) {cs : List Char}
    (h : ∀ x ∈ cs, p x = false) (rest : List Char) :
    cutAt? p (cs ++ c :: rest) = some (cs, rest) := by
  induction cs with
  | nil => simp [cutAt?, hc]
  | cons x cs ih =>
    have hx := h x (by simp)
    have hrest := ih fun y hy => h y (by simp [hy])
    simp [cutAt?, hx, hrest]

theorem dropComment_eq_self {cs : List Char} (h : ';' ∉ cs) (afterBlank : Bool) :
    dropComment afterBlank cs = cs := by
  induction cs generalizing afterBlank with
  | nil => rfl
  | cons c cs ih =>
    have hc : c ≠ ';' := fun he => h (by simp [he])
    have hcs : ';' ∉ cs := fun hmem => h (by simp [hmem])
    simp [dropComment, hc, ih hcs]

/-! ## Kinds of lines -/

/-- A line that is neither empty nor a comment nor a header. -/
def IsStatement (line : List Char) : Prop :=
  ∃ c cs, line = c :: cs ∧ c ≠ ';' ∧ c ≠ '#' ∧ c ≠ '['

namespace Line

theorem ofText_statement {raw : List Char} (h : IsStatement (trim raw)) :
    ofText raw = ofAssignment (trim raw) := by
  obtain ⟨c, cs, htrim, h₁, h₂, h₃⟩ := h
  rw [ofText, htrim]
  split
  · rename_i he
    cases he
  · rename_i he
    exact absurd (List.cons.inj he).1 h₁
  · rename_i he
    exact absurd (List.cons.inj he).1 h₂
  · rename_i he
    exact absurd (List.cons.inj he).1 h₃
  · rfl

theorem ofText_header {name : List Char} (h : IsWord name) :
    ofText ('[' :: (name ++ [']'])) = header (String.ofList name) := by
  have hends : '[' :: (name ++ [']']) = ('[' :: name) ++ [']'] := rfl
  have htrim : trim ('[' :: (name ++ [']'])) = '[' :: (name ++ [']']) :=
    trim_eq_self (by decide : isBlank '[' = false) (by decide : isBlank ']' = false) hends
  have hcut : cutAt? (· == ']') (name ++ [']']) = some (name, []) := by
    refine cutAt_append rfl (fun c hc => ?_) []
    rw [beq_eq_false_iff_ne]
    exact ne_of_isNameChar (h.2 c hc) (by decide)
  simp only [ofText, htrim, ofHeader, hcut, h.trim]

theorem ofText_comment (cs : List Char) : ofText (';' :: cs) = nothing := by
  obtain ⟨rest, hrest⟩ := trim_cons (by decide : isBlank ';' = false) cs
  simp only [ofText, hrest]

/-- A line that begins with a letter, a digit or an underscore is no comment and no header. -/
theorem ofText_cons {c : Char} {cs : List Char} (hc : isNameChar c = true)
    (htrim : trim (c :: cs) = c :: cs) : ofText (c :: cs) = ofAssignment (c :: cs) := by
  have h₁ : c ≠ ';' := ne_of_isNameChar hc (by decide)
  have h₂ : c ≠ '#' := ne_of_isNameChar hc (by decide)
  have h₃ : c ≠ '[' := ne_of_isNameChar hc (by decide)
  rw [ofText_statement ⟨c, cs, htrim, h₁, h₂, h₃⟩, htrim]

theorem ofText_assignment {key value : List Char} (hkey : IsWord key) (hvalue : IsWord value) :
    ofText (key ++ ' ' :: '=' :: ' ' :: value) =
      assignment (String.ofList key) (String.ofList value) := by
  have hcut : cutAt? isSeparator ((key ++ [' ']) ++ '=' :: ' ' :: value) =
      some (key ++ [' '], ' ' :: value) := by
    refine cutAt_append rfl (fun c hc => ?_) _
    simp only [List.mem_append, List.mem_singleton] at hc
    rcases hc with hc | rfl
    · have hname := hkey.2 c hc
      have h₁ : c ≠ '=' := ne_of_isNameChar hname (by decide)
      have h₂ : c ≠ ':' := ne_of_isNameChar hname (by decide)
      simp [isSeparator, h₁, h₂]
    · rfl
  have hcomment : ';' ∉ ' ' :: value := by
    have hnone : ';' ∉ value := not_mem_of_isWord hvalue (by decide)
    simp [hnone]
  have hassign : ofAssignment ((key ++ [' ']) ++ '=' :: ' ' :: value) =
      assignment (String.ofList key) (String.ofList value) := by
    simp only [ofAssignment, hcut, hkey.trim_append_blank, dropComment_eq_self hcomment,
      hvalue.trim_cons_blank]
    simp [hkey.1]
  rw [List.append_assoc, List.singleton_append] at hassign
  rw [← hassign]
  obtain ⟨c, rest, rfl, hc⟩ := hkey.exists_cons
  obtain ⟨start, d, rfl, hd⟩ := hvalue.exists_append
  have hends : c :: (rest ++ ' ' :: '=' :: ' ' :: (start ++ [d])) =
      (c :: (rest ++ ' ' :: '=' :: ' ' :: start)) ++ [d] := by simp
  exact ofText_cons (hkey.2 c (by simp)) (trim_eq_self hc hd hends)

end Line

/-! ## Texts -/

/-- What the lines of a text say. -/
def linesOf (text : List Char) : List Line := (lines text).map Line.ofText

theorem linesOf_cons {line : List Char} (h : '\n' ∉ line) (rest : List Char) :
    linesOf (line ++ '\n' :: rest) = Line.ofText (dropReturn line) :: linesOf rest := by
  rw [linesOf, lines_cons h]
  rfl

end Readout.Ini
