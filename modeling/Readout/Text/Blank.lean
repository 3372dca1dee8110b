/-!
# Blank characters, lines and tokens

Text files and command-line values are read as lists of characters.  This module says what a
blank is, how a text falls into lines, and how a line falls into tokens.

* `tokens_ne_nil`: no token is empty, and `not_isBlank_of_mem_tokens`: no token holds a blank;
* `pieces_flatten`: cutting at a separator and joining again loses nothing but the separators;
* `sameName_congr`: names that are the same are the same as the same names.
-/

namespace Readout.Text

/-- The characters with the property White_Space. -/
def isBlank (c : Char) : Bool :=
  let n := c.toNat
  (9 ≤ n && n ≤ 13) || n == 0x20 || n == 0x85 || n == 0xA0 || n == 0x1680 ||
    (0x2000 ≤ n && n ≤ 0x200A) || n == 0x2028 || n == 0x2029 || n == 0x202F ||
    n == 0x205F || n == 0x3000

/-- The blanks among the ASCII characters, the vertical tab not included. -/
def isAsciiBlank (c : Char) : Bool :=
  c == ' ' || c == '\t' || c == '\n' || c == '\r' || c == '\x0c'

/-- Two names are the same name when they agree up to ASCII case. -/
def sameName (a b : String) : Bool :=
  a.toList.map Char.toLower == b.toList.map Char.toLower

/-! ## Trimming -/

def trimStart (cs : List Char) : List Char := cs.dropWhile isBlank

def trimEnd (cs : List Char) : List Char := (cs.reverse.dropWhile isBlank).reverse

/-- The text without the blanks at either end. -/
def trim (cs : List Char) : List Char := trimEnd (trimStart cs)

/-! ## Cutting -/

/-- The pieces between the separators: one more than there are separators. -/
def pieces (sep : Char → Bool) : List Char → List (List Char)
  | [] => [[]]
  | c :: r =>
    if sep c then [] :: pieces sep r
    else match pieces sep r with
      | [] => [[c]]
      | p :: ps => (c :: p) :: ps

/-- A carriage return just before the end of a line belongs to the line end. -/
def dropReturn (line : List Char) : List Char :=
  if line.getLast? = some '\r' then line.dropLast else line

/-- Lines from the pieces of a text: the last piece is a line only if something stands in it,
and it has no line end. -/
def linesOfPieces : List (List Char) → List (List Char)
  | [] => []
  | [last] => if last.isEmpty then [] else [last]
  | line :: rest => dropReturn line :: linesOfPieces rest

/-- The lines of a text, each without its line end (a line feed, or a carriage return and a
line feed). -/
def lines (cs : List Char) : List (List Char) := linesOfPieces (pieces (· == '\n') cs)

/-- The maximal runs of characters that are no blanks. -/
def tokens (cs : List Char) : List (List Char) :=
  (pieces isBlank cs).filter fun p => !p.isEmpty

/-! ## Laws -/

theorem sameName_self (a : String) : sameName a a = true := beq_self_eq_true _

theorem sameName_comm (a b : String) : sameName a b = sameName b a := Bool.beq_comm

theorem sameName_congr {a b : String} (h : sameName a b = true) (c : String) :
    sameName a c = sameName b c := by
  unfold sameName at h ⊢
  rw [beq_iff_eq.1 h]

/-- Of two different names, another one is the same as one of them at most. -/
theorem sameName_eq_false {a b c : String} (hab : sameName a b = false)
    (hac : sameName a c = true) : sameName b c = false := by
  rw [sameName_comm, ← sameName_congr hac, hab]

theorem pieces_ne_nil (sep : Char → Bool) (cs : List Char) : pieces sep cs ≠ [] := by
  cases cs with
  | nil => simp [pieces]
  | cons c r =>
    simp only [pieces]
    split
    · simp
    · split <;> simp

/-- What is left after cutting is the text without its separators, in order. -/
theorem pieces_flatten (sep : Char → Bool) (cs : List Char) :
    (pieces sep cs).flatten = cs.filter fun c => !sep c := by
  induction cs with
  | nil => rfl
  | cons c r ih =>
    simp only [pieces]
    split
    · rename_i h
      simp [h, ih]
    · rename_i h
      cases hp : pieces sep r with
      | nil => exact absurd hp (pieces_ne_nil sep r)
      | cons p ps => rw [hp] at ih; simp [h, ← ih]

theorem not_sep_of_mem_pieces {sep : Char → Bool} {cs p : List Char} (h : p ∈ pieces sep cs)
    {c : Char} (hc : c ∈ p) : sep c = false := by
  have hf : c ∈ (pieces sep cs).flatten := List.mem_flatten.2 ⟨p, h, hc⟩
  rw [pieces_flatten] at hf
  simpa using (List.mem_filter.1 hf).2

theorem tokens_ne_nil {cs t : List Char} (h : t ∈ tokens cs) : t ≠ [] := by
  have := (List.mem_filter.1 h).2
  intro ht
  simp [ht] at this

theorem not_isBlank_of_mem_tokens {cs t : List Char} (h : t ∈ tokens cs) {c : Char} (hc : c ∈ t) :
    isBlank c = false :=
  not_sep_of_mem_pieces (List.mem_filter.1 h).1 hc

end Readout.Text
