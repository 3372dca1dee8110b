import Readout.Proofs.Flash.Order
import Readout.Proofs.Text.Literals
import Readout.Proofs.Text.Tokens
/-!
# The extent of an image

What a map file says, without the functions that read it.  A line gives a range if its last two
tokens are literals for words; titles, notes and blank lines give none, and neither do numbers that
are negative, too large or followed by letters.  The first line with a range decides: it is the
extent of the image, or an error if it is reversed.

* `Gives` is a line with a range, `IsNote` one without, `Reads` what the lines of a file say;
* `rangeOfLine?_eq_some_iff`, `parse_eq_iff`: the reader against its part of the grammar;
* `parse_joined_append`: lines without a range may be left out;
* `lt_pages_iff`: the pages of an image are those with a byte up to its last one;
* `parse_firstRange` puts these together.
-/

namespace Readout.Flash.FirmwareMap

open Text

/-! ## Lines -/

/-- A line ends in two literals for words. -/
def Gives (line : List Char) (first last : UInt32) : Prop :=
  ∃ a b, LastTwo line a b ∧ Literal a first.toNat ∧ Literal b last.toNat

/-- A line without a range: a title, a note, a blank line. -/
def IsNote (line : List Char) : Prop := ∀ first last, ¬ Gives line first last

theorem parseWord?_token {t : List Char} (h : IsToken t) {w : UInt32} :
    CInteger.parseWord? t = some w ↔ Literal t w.toNat := by
  have htrim : trim ([] ++ t ++ []) = t := trim_between h.1 h.2 (by simp) (by simp)
  rw [List.nil_append, List.append_nil] at htrim
  rw [parseWord?_eq_some_iff_literal, htrim]

variable {line : List Char} {first last : UInt32}

/-- A line of two tokens or more gives what the last two denote. -/
theorem rangeOfLine?_of_tokens {ts : List (List Char)} {a b : List Char}
    (h : tokens line = ts ++ [a, b]) :
    rangeOfLine? line = some (first, last) ↔ Literal a first.toNat ∧ Literal b last.toNat := by
  have ha : a ∈ tokens line := by simp [h]
  have hb : b ∈ tokens line := by simp [h]
  have hreverse : (tokens line).reverse = b :: a :: ts.reverse := by simp [h]
  rw [rangeOfLine?, hreverse, ← parseWord?_token (isToken_of_mem_tokens ha),
    ← parseWord?_token (isToken_of_mem_tokens hb)]
  show ((CInteger.parseWord? a).bind fun x => (CInteger.parseWord? b).bind fun y => some (x, y)) =
    some (first, last) ↔ _
  simp only [Option.bind_eq_some_iff, Option.some.injEq, Prod.mk.injEq]
  constructor
  · rintro ⟨x, hx, y, hy, rfl, rfl⟩
    exact ⟨hx, hy⟩
  · rintro ⟨hfirst, hlast⟩
    exact ⟨first, hfirst, last, hlast, rfl, rfl⟩

/-- A line with a range has two tokens or more. -/
theorem exists_tokens_of_range {r : UInt32 × UInt32} (h : rangeOfLine? line = some r) :
    ∃ ts a b, tokens line = ts ++ [a, b] := by
  unfold rangeOfLine? at h
  split at h
  · rename_i b a ts hreverse
    exact ⟨ts.reverse, a, b, by simpa using congrArg List.reverse hreverse⟩
  · cases h

theorem rangeOfLine?_eq_some_iff :
    rangeOfLine? line = some (first, last) ↔ Gives line first last := by
  constructor
  · intro h
    obtain ⟨ts, a, b, htokens⟩ := exists_tokens_of_range h
    exact ⟨a, b, tokens_eq_pair_iff.1 ⟨ts, htokens⟩, (rangeOfLine?_of_tokens htokens).1 h⟩
  · rintro ⟨a, b, hlast, hliterals⟩
    obtain ⟨ts, htokens⟩ := tokens_eq_pair_iff.2 hlast
    exact (rangeOfLine?_of_tokens htokens).2 hliterals

theorem rangeOfLine?_eq_none_iff : rangeOfLine? line = none ↔ IsNote line := by
  rw [Option.eq_none_iff_forall_ne_some, Prod.forall]
  exact forall₂_congr fun _ _ => not_congr rangeOfLine?_eq_some_iff

instance (line : List Char) : Decidable (IsNote line) :=
  decidable_of_iff (rangeOfLine? line = none) rangeOfLine?_eq_none_iff

/-! ## Files -/

/-- The first line with a range, and its range. -/
def FirstRange (ls : List (List Char)) (first last : UInt32) : Prop :=
  ∃ notes line rest, ls = notes ++ line :: rest ∧ Gives line first last ∧
    ∀ note ∈ notes, IsNote note

/-- What the lines of a map file say. -/
inductive Reads (ls : List (List Char)) : Except MapError FirmwareMap → Prop
  | range {first last : UInt32} (h : FirstRange ls first last) (hle : first ≤ last) :
      Reads ls (.ok ⟨first, last⟩)
  | reversed {first last : UInt32} (h : FirstRange ls first last) (hlt : last < first) :
      Reads ls (.error (.reversed first last))
  | noRange (h : ∀ line ∈ ls, IsNote line) : Reads ls (.error .noRange)

theorem findSome?_eq_some_iff_firstRange {ls : List (List Char)} :
    ls.findSome? rangeOfLine? = some (first, last) ↔ FirstRange ls first last := by
  simp only [List.findSome?_eq_some_iff, rangeOfLine?_eq_some_iff, rangeOfLine?_eq_none_iff,
    FirstRange]

theorem findSome?_eq_none_iff_notes {ls : List (List Char)} :
    ls.findSome? rangeOfLine? = none ↔ ∀ line ∈ ls, IsNote line := by
  simp only [List.findSome?_eq_none_iff, rangeOfLine?_eq_none_iff]

/-- **A file is read as its lines say**, and in no other way. -/
theorem parse_eq_iff {text : List Char} {r : Except MapError FirmwareMap} :
    parse text = r ↔ Reads (lines text) r := by
  constructor
  · rintro rfl
    unfold parse
    cases hfound : (lines text).findSome? rangeOfLine? with
    | none => exact .noRange (findSome?_eq_none_iff_notes.1 hfound)
    | some range =>
      obtain ⟨first, last⟩ := range
      have hfirst : FirstRange (lines text) first last := findSome?_eq_some_iff_firstRange.1 hfound
      dsimp only
      split
      · rename_i hlt
        exact .reversed hfirst hlt
      · rename_i hlt
        exact .range hfirst (UInt32.not_lt.1 hlt)
  · intro h
    unfold parse
    cases h with
    | range h hle =>
      rw [findSome?_eq_some_iff_firstRange.2 h]
      exact if_neg (UInt32.not_lt.2 hle)
    | reversed h hlt =>
      rw [findSome?_eq_some_iff_firstRange.2 h]
      exact if_pos hlt
    | noRange h => rw [findSome?_eq_none_iff_notes.2 h]

example : parse "5 0x3\n0 1".toList = .error (.reversed 5 3) := by decide

theorem rangeOfLine?_dropReturn (line : List Char) :
    rangeOfLine? (dropReturn line) = rangeOfLine? line := by
  rw [rangeOfLine?, tokens_dropReturn]
  rfl

/-- The first range of a text is that of its lines, with or without their carriage returns. -/
theorem findSome?_range_joined {ls : List (List Char)} (h : ∀ line ∈ ls, '\n' ∉ line) :
    (lines (joined ls)).findSome? rangeOfLine? = ls.findSome? rangeOfLine? :=
  findSome?_lines_joined rfl rangeOfLine?_dropReturn h

/-- Lines without a range may be put in or left out anywhere. -/
theorem parse_joined_append {before notes after : List (List Char)}
    (hlines : ∀ line ∈ before ++ notes ++ after, '\n' ∉ line)
    (hnotes : ∀ note ∈ notes, IsNote note) :
    parse (joined (before ++ notes ++ after)) = parse (joined (before ++ after)) := by
  have hfewer : ∀ line ∈ before ++ after, '\n' ∉ line := by
    intro line hline
    rcases List.mem_append.1 hline with hbefore | hafter
    · exact hlines line (by simp [hbefore])
    · exact hlines line (by simp [hafter])
  have hnone : notes.findSome? rangeOfLine? = none := findSome?_eq_none_iff_notes.2 hnotes
  have hsame : (before ++ notes ++ after).findSome? rangeOfLine? =
      (before ++ after).findSome? rangeOfLine? := by
    rw [List.findSome?_append, List.findSome?_append, List.findSome?_append, hnone, Option.or_none]
  unfold parse
  rw [findSome?_range_joined hlines, findSome?_range_joined hfewer, hsame]

/-! ## Pages -/

/-- A byte of an image lies in page `i`, both counted from the start of the image. -/
def InPage (i b : Nat) : Prop := pageBytes * i ≤ b ∧ b < pageBytes * (i + 1)

theorem inPage_iff {i b : Nat} : InPage i b ↔ b / pageBytes = i := by
  simp only [InPage, pageBytes]
  omega

/-- The last address of an image lies in the last one of its pages. -/
theorem inPage_last (m : FirmwareMap) : InPage (m.pages - 1) m.last.toNat := by
  rw [inPage_iff, pages, Nat.add_sub_cancel]

/-- An image has a page exactly if a byte up to its last one lies there. -/
theorem lt_pages_iff (m : FirmwareMap) {i : Nat} :
    i < m.pages ↔ ∃ b ≤ m.last.toNat, InPage i b := by
  simp only [inPage_iff, pages, pageBytes]
  constructor
  · intro hi
    exact ⟨256 * i, by omega, by omega⟩
  · rintro ⟨b, hb, rfl⟩
    omega

/-- **The first range of a map file is the extent of its image, and the pages cover it.**  A file is
read as the first of its lines with a range says: as that range, or as an error if it is reversed,
whatever comes later; it is an error too if no line has one.  Every text is put together from lines,
and titles, notes and blank lines may be put in or left out anywhere.  The last address lies in the
last page, so that every byte up to it is in a page and every page has such a byte; and a write sends
just these pages, all of them if it goes well. -/
theorem parse_firstRange :
    (∀ text r, parse text = r ↔ Reads (lines text) r) ∧
    (∀ text, ∃ ls, (∀ line ∈ ls, '\n' ∉ line) ∧ text = joined ls) ∧
    (∀ before notes after : List (List Char), (∀ line ∈ before ++ notes ++ after, '\n' ∉ line) →
      (∀ note ∈ notes, IsNote note) →
      parse (joined (before ++ notes ++ after)) = parse (joined (before ++ after))) ∧
    ∀ m : FirmwareMap,
      256 * (m.pages - 1) ≤ m.last.toNat ∧ m.last.toNat < 256 * m.pages ∧
      (∀ b ≤ m.last.toNat, ∃ i < m.pages, InPage i b) ∧
      (∀ i < m.pages, ∃ b ≤ m.last.toNat, InPage i b) ∧
      ∀ (σ : Type) [Link σ] (limit : Option Duration) (image : Bytes) (start : UInt32)
        (j : Journal σ), ∃ new,
        (writeImage limit image m start j).2.events.toList = j.events.toList ++ new ∧
          sentBy new <+: (imageScript image m.pages start).map Turn.datagram ∧
          ((writeImage limit image m start j).1.isOk = true →
            sentBy new = (imageScript image m.pages start).map Turn.datagram) := by
  refine ⟨fun text r => parse_eq_iff, exists_joined, fun before notes after => parse_joined_append,
    fun m => ?_⟩
  obtain ⟨hlow, hhigh⟩ := m.inPage_last
  rw [Nat.sub_add_cancel m.pages_pos] at hhigh
  refine ⟨hlow, hhigh, ?_, fun i hi => m.lt_pages_iff.1 hi, ?_⟩
  · intro b hb
    have hpage : InPage (b / pageBytes) b := inPage_iff.2 rfl
    exact ⟨b / pageBytes, m.lt_pages_iff.2 ⟨b, hb, hpage⟩, hpage⟩
  · intro σ _ limit image start j
    have hfollows : Follows (writeImage limit image m start : Host σ Nat) _ :=
      follows_writeImage image m start
    obtain ⟨new, hnew, hplays⟩ := hfollows j
    obtain ⟨rest, hsent, hwhole⟩ := hplays.sent_eq_take
    refine ⟨new, hnew, ⟨rest, hsent.symm⟩, fun hok => ?_⟩
    rw [hsent, hwhole hok, List.append_nil]

/-- A negative number and one that is too large are passed over, and a later range does not count. -/
theorem parse_firstRange_notes :
    (∀ line ∈ ["START END".toList] ++ ["-1 0x10".toList, "0 4294967296".toList] ++
      ["Page_0 0 0x1FF\r".toList, "9 8".toList], '\n' ∉ line) ∧
    (∀ note ∈ ["-1 0x10".toList, "0 4294967296".toList], IsNote note) ∧
    parse "START END\n-1 0x10\n0 4294967296\nPage_0 0 0x1FF\r\n9 8".toList =
      parse "START END\nPage_0 0 0x1FF\r\n9 8".toList ∧
    parse "START END\nPage_0 0 0x1FF\r\n9 8".toList = .ok ⟨0, 0x1FF⟩ := by
  have hlines : ∀ line ∈ ["START END".toList] ++ ["-1 0x10".toList, "0 4294967296".toList] ++
      ["Page_0 0 0x1FF\r".toList, "9 8".toList], '\n' ∉ line := by decide
  have hnotes : ∀ note ∈ ["-1 0x10".toList, "0 4294967296".toList], IsNote note := by decide
  exact ⟨hlines, hnotes, parse_firstRange.2.2.1 _ _ _ hlines hnotes, by decide⟩

end Readout.Flash.FirmwareMap
