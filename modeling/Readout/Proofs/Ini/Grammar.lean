import Readout.Proofs.Ini.Lines
/-!
# The grammar of lines

What a line of an INI file says, without the functions that read it.  A line is taken without its
outer blanks.  A header begins with a bracket and is closed by the next one that closes; an
assignment is cut at its first separator; a comment within a value begins at the first semicolon
that follows an ASCII blank.

* `Uncommented` relates a value with its comment to the value without it, `Line.Reads` a line to
  what it says;
* `dropComment_eq_iff`, `Line.ofText_eq_iff`: the functions compute just these relations.
-/

namespace Readout.Ini

open Text

/-! ## Cutting -/

theorem cutAt_eq_some_iff {p : Char → Bool} {cs left right : List Char} :
    cutAt? p cs = some (left, right) ↔
      ∃ s, p s = true ∧ cs = left ++ s :: right ∧ ∀ c ∈ left, p c = false := by
  constructor
  · intro h
    induction cs generalizing left with
    | nil => cases h
    | cons c cs ih =>
      unfold cutAt? at h
      split at h
      · rename_i hc
        cases h
        exact ⟨c, hc, rfl, fun x hx => absurd hx List.not_mem_nil⟩
      · rename_i hc
        obtain ⟨⟨a, b⟩, hcut, heq⟩ := Option.map_eq_some_iff.1 h
        cases heq
        obtain ⟨s, hs, rfl, hleft⟩ := ih hcut
        refine ⟨s, hs, rfl, fun x hx => ?_⟩
        rcases List.mem_cons.1 hx with rfl | hmem
        · simpa using hc
        · exact hleft x hmem
  · rintro ⟨s, hs, rfl, hleft⟩
    exact cutAt_append hs hleft right

theorem cutAt_eq_none_iff {p : Char → Bool} {cs : List Char} :
    cutAt? p cs = none ↔ ∀ c ∈ cs, p c = false := by
  induction cs with
  | nil => simp [cutAt?]
  | cons c cs ih =>
    unfold cutAt?
    split
    · rename_i hc
      simp [hc]
    · rename_i hc
      simp [hc, ih]

/-! ## Comments within values -/

/-- A semicolon stands right after an ASCII blank. -/
def HasComment (cs : List Char) : Prop := ∃ c, isAsciiBlank c = true ∧ [c, ';'] <:+: cs

/-- A value and what is left of it without its comment. -/
inductive Uncommented : List Char → List Char → Prop
  | whole {cs : List Char} (h : ¬ HasComment cs) : Uncommented cs cs
  | cut {before after : List Char} {c : Char} (hc : isAsciiBlank c = true)
      (h : ¬ HasComment (before ++ [c])) : Uncommented (before ++ c :: ';' :: after) (before ++ [c])

theorem hasComment_cons {c : Char} {cs : List Char} :
    HasComment (c :: cs) ↔ (isAsciiBlank c = true ∧ cs.head? = some ';') ∨ HasComment cs := by
  have hstarts (d : Char) : [d, ';'] <+: c :: cs ↔ d = c ∧ cs.head? = some ';' := by
    rw [List.cons_prefix_cons]
    cases cs <;> simp [eq_comm]
  constructor
  · rintro ⟨d, hd, hinfix⟩
    rcases List.infix_cons_iff.1 hinfix with hfirst | hrest
    · obtain ⟨rfl, hhead⟩ := (hstarts d).1 hfirst
      exact .inl ⟨hd, hhead⟩
    · exact .inr ⟨d, hd, hrest⟩
  · rintro (⟨hc, hhead⟩ | ⟨d, hd, hrest⟩)
    · exact ⟨c, hc, List.infix_cons_iff.2 (.inl ((hstarts c).2 ⟨rfl, hhead⟩))⟩
    · exact ⟨d, hd, List.infix_cons_iff.2 (.inr hrest)⟩

/-- Whether a text ends in an ASCII blank, which an empty one does if it stands after one. -/
def endsBlank (afterBlank : Bool) (cs : List Char) : Bool :=
  (cs.getLast?.map isAsciiBlank).getD afterBlank

theorem endsBlank_cons (afterBlank : Bool) (c : Char) (cs : List Char) :
    endsBlank afterBlank (c :: cs) = endsBlank (isAsciiBlank c) cs := by
  rw [endsBlank, endsBlank, List.getLast?_cons]
  cases cs.getLast? <;> rfl

/-- A text without a comment is passed over. -/
theorem dropComment_append {cs : List Char} {afterBlank : Bool} (h : ¬ HasComment cs)
    (hstart : afterBlank = true → cs.head? ≠ some ';') (rest : List Char) :
    dropComment afterBlank (cs ++ rest) = cs ++ dropComment (endsBlank afterBlank cs) rest := by
  induction cs generalizing afterBlank with
  | nil => rfl
  | cons c cs ih =>
    rw [hasComment_cons, not_or] at h
    have hc : ¬ (c = ';' ∧ afterBlank = true) := by
      rintro ⟨rfl, hblank⟩
      exact hstart hblank rfl
    have hrest := ih h.2 fun hblank hhead => h.1 ⟨hblank, hhead⟩
    rw [List.cons_append, dropComment, if_neg hc, hrest, endsBlank_cons, List.cons_append]

/-- What is left of a value holds no comment, and nothing is taken off but one. -/
theorem dropComment_cases (afterBlank : Bool) (cs : List Char) :
    ¬ HasComment (dropComment afterBlank cs) ∧
      (afterBlank = true → (dropComment afterBlank cs).head? ≠ some ';') ∧
      (dropComment afterBlank cs = cs ∨
        ∃ after, cs = dropComment afterBlank cs ++ ';' :: after ∧
          endsBlank afterBlank (dropComment afterBlank cs) = true) := by
  have hnil : ¬ HasComment [] := by
    rintro ⟨c, -, hinfix⟩
    simp at hinfix
  have hend : ([] : List Char).head? ≠ some ';' := by simp
  induction cs generalizing afterBlank with
  | nil => exact ⟨hnil, fun _ => hend, .inl rfl⟩
  | cons c cs ih =>
    obtain ⟨hcomment, hhead, hrest⟩ := ih (isAsciiBlank c)
    by_cases hc : c = ';' ∧ afterBlank = true
    · rw [dropComment, if_pos hc]
      exact ⟨hnil, fun _ => hend, .inr ⟨cs, by rw [hc.1]; rfl, hc.2⟩⟩
    · rw [dropComment, if_neg hc]
      refine ⟨?_, fun hblank hfirst => hc ⟨Option.some.inj hfirst, hblank⟩, ?_⟩
      · rw [hasComment_cons, not_or]
        exact ⟨fun h => hhead h.1 h.2, hcomment⟩
      · rcases hrest with hsame | ⟨after, hafter, hblank⟩
        · exact .inl (by rw [hsame])
        · refine .inr ⟨after, ?_, ?_⟩
          · rw [List.cons_append, ← hafter]
          · rw [endsBlank_cons, hblank]

theorem dropComment_eq_iff {cs value : List Char} :
    dropComment false cs = value ↔ Uncommented cs value := by
  constructor
  · rintro rfl
    obtain ⟨hcomment, -, hsame | ⟨after, hafter, hblank⟩⟩ := dropComment_cases false cs
    · rw [hsame] at hcomment ⊢
      exact .whole hcomment
    · -- the value ends in the blank before the comment
      generalize dropComment false cs = value at *
      rcases List.eq_nil_or_concat value with rfl | ⟨before, c, rfl⟩
      · cases hblank
      · have hc : isAsciiBlank c = true := by simpa [endsBlank] using hblank
        rw [List.concat_eq_append] at hcomment hafter ⊢
        rw [hafter, List.append_assoc]
        exact .cut hc hcomment
  · intro h
    cases h with
    | whole h =>
      have hpass := dropComment_append h (fun hfalse => absurd hfalse Bool.false_ne_true) []
      rw [List.append_nil] at hpass
      rw [hpass]
      exact List.append_nil cs
    | @cut before after c hc h =>
      have hpass := dropComment_append h (fun hfalse => absurd hfalse Bool.false_ne_true)
        (';' :: after)
      have hblank : endsBlank false (before ++ [c]) = true := by simp [endsBlank, hc]
      rw [hblank, List.append_assoc] at hpass
      rw [show before ++ c :: ';' :: after = before ++ ([c] ++ ';' :: after) from rfl, hpass]
      simp [dropComment]

/-! ## Lines -/

/-- A line and its parts on either side of the first separator. -/
def IsCut (line left right : List Char) : Prop :=
  ∃ s, isSeparator s = true ∧ line = left ++ s :: right ∧ ∀ c ∈ left, isSeparator c = false

namespace Line

/-- What a line says. -/
inductive Reads (raw : List Char) : Line → Prop
  | empty (h : trim raw = []) : Reads raw nothing
  | comment {c : Char} {cs : List Char} (h : trim raw = c :: cs) (hc : c = ';' ∨ c = '#') :
      Reads raw nothing
  | header {name after : List Char} (h : trim raw = '[' :: (name ++ ']' :: after))
      (hname : ']' ∉ name) : Reads raw (header (String.ofList (trim name)))
  | unclosed {cs : List Char} (h : trim raw = '[' :: cs) (hcs : ']' ∉ cs) : Reads raw malformed
  | assignment {left right value : List Char} (h : IsStatement (trim raw))
      (hcut : IsCut (trim raw) left right) (hkey : trim left ≠ [])
      (hvalue : Uncommented right value) :
      Reads raw (assignment (String.ofList (trim left)) (String.ofList (trim value)))
  | keyless {left right : List Char} (h : IsStatement (trim raw))
      (hcut : IsCut (trim raw) left right) (hkey : trim left = []) : Reads raw malformed
  | unseparated (h : IsStatement (trim raw)) (hnone : ∀ c ∈ trim raw, isSeparator c = false) :
      Reads raw malformed

theorem reads_ofHeader {raw cs : List Char} (h : trim raw = '[' :: cs) :
    Reads raw (ofHeader cs) := by
  unfold ofHeader
  cases hcut : cutAt? (· == ']') cs with
  | none =>
    refine .unclosed h fun hmem => ?_
    have := cutAt_eq_none_iff.1 hcut _ hmem
    simp at this
  | some parts =>
    obtain ⟨name, after⟩ := parts
    obtain ⟨s, hs, rfl, hname⟩ := cutAt_eq_some_iff.1 hcut
    obtain rfl : s = ']' := by simpa using hs
    refine .header h fun hmem => ?_
    have := hname _ hmem
    simp at this

theorem reads_ofAssignment {raw : List Char} (h : IsStatement (trim raw)) :
    Reads raw (ofAssignment (trim raw)) := by
  unfold ofAssignment
  cases hcut : cutAt? isSeparator (trim raw) with
  | none => exact .unseparated h (cutAt_eq_none_iff.1 hcut)
  | some parts =>
    obtain ⟨left, right⟩ := parts
    have hparts : IsCut (trim raw) left right := cutAt_eq_some_iff.1 hcut
    dsimp only
    split
    · rename_i hkey
      exact .keyless h hparts (List.isEmpty_iff.1 hkey)
    · rename_i hkey
      exact .assignment h hparts (mt List.isEmpty_iff.2 hkey) (dropComment_eq_iff.1 rfl)

theorem reads_ofText (raw : List Char) : Reads raw (ofText raw) := by
  rcases htrim : trim raw with _ | ⟨c, cs⟩
  · have hempty : ofText raw = nothing := by simp [ofText, htrim]
    rw [hempty]
    exact .empty htrim
  · by_cases hcomment : c = ';' ∨ c = '#'
    · have hnothing : ofText raw = nothing := by
        rcases hcomment with rfl | rfl <;> simp [ofText, htrim]
      rw [hnothing]
      exact .comment htrim hcomment
    · by_cases hheader : c = '['
      · subst hheader
        have hbracket : ofText raw = ofHeader cs := by simp [ofText, htrim]
        rw [hbracket]
        exact reads_ofHeader htrim
      · rw [not_or] at hcomment
        have hstatement : IsStatement (trim raw) :=
          ⟨c, cs, htrim, hcomment.1, hcomment.2, hheader⟩
        rw [ofText_statement hstatement]
        exact reads_ofAssignment hstatement

/-- **A line says what the grammar has it say**, and nothing else. -/
theorem ofText_eq_iff {raw : List Char} {l : Line} : ofText raw = l ↔ Reads raw l := by
  constructor
  · rintro rfl
    exact reads_ofText raw
  · intro h
    cases h with
    | empty h => simp [ofText, h]
    | comment h hc => rcases hc with rfl | rfl <;> simp [ofText, h]
    | @header name after h hname =>
      have hcut : cutAt? (· == ']') (name ++ ']' :: after) = some (name, after) := by
        refine cutAt_append rfl (fun c hc => ?_) after
        rw [beq_eq_false_iff_ne]
        rintro rfl
        exact hname hc
      simp [ofText, h, ofHeader, hcut]
    | @unclosed cs h hcs =>
      have hcut : cutAt? (· == ']') cs = none := by
        refine cutAt_eq_none_iff.2 fun c hc => ?_
        rw [beq_eq_false_iff_ne]
        rintro rfl
        exact hcs hc
      simp [ofText, h, ofHeader, hcut]
    | @assignment left right value h hcut hkey hvalue =>
      rw [ofText_statement h, ofAssignment, cutAt_eq_some_iff.2 hcut]
      simp [hkey, dropComment_eq_iff.2 hvalue]
    | @keyless left right h hcut hkey =>
      rw [ofText_statement h, ofAssignment, cutAt_eq_some_iff.2 hcut]
      simp [hkey]
    | unseparated h hnone =>
      rw [ofText_statement h, ofAssignment, cutAt_eq_none_iff.2 hnone]

end Line

end Readout.Ini
