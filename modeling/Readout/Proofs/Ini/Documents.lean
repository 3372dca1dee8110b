import Readout.Proofs.Ini.Grammar
import Readout.Proofs.Ini.Sections
/-!
# What a document holds

A document is built line by line: a header opens a section, again if there was one of its name, and
an assignment gives a key of the open section its value, again if the key had one.  What can be
looked up in the end is a matter of the lines alone.

* `governing` is the section that an assignment after some lines belongs to, `entryAt` what a line
  gives a section;
* `Describes` says what a document made of lines holds: of several values for a key the last, of
  several spellings of a key the first, and of several malformed lines the number of the first;
* `Draft.Holds.push` is what one more line keeps, `Draft.holds_pushAll` what all of them do;
* `Document.parse_describes`: reading a text gives the document that its lines describe.
-/

namespace Readout.Ini

open Text

/-! ## Lines and sections -/

/-- The name that a line opens a section with. -/
def Line.header? : Line → Option String
  | header name => some name
  | _ => none

/-- The section that comes after some lines belong to: that of the last header, or the section
without a name if there is none. -/
def governing (ls : List Line) : String := (ls.filterMap Line.header?).getLast?.getD ""

/-- The key and the value that line number `i`, counted from 0, gives a section. -/
def entryAt (ls : List Line) (name : String) (i : Nat) : Option (String × String) :=
  match ls[i]? with
  | some (.assignment key value) =>
    if sameName (governing (ls.take i)) name then some (key, value) else none
  | _ => none

/-- All that the lines give a section, in order. -/
def assigned (ls : List Line) (name : String) : List (String × String) :=
  (List.range ls.length).filterMap (entryAt ls name)

/-- A section of this name is opened by a header, or, if it is the one without a name, by an
assignment before all headers. -/
def IsOpened (ls : List Line) (name : String) : Prop :=
  (∃ header, .header header ∈ ls ∧ sameName header name = true) ∨
    name = "" ∧ ∃ i key value, ls[i]? = some (.assignment key value) ∧
      ∀ header, .header header ∉ ls.take i

/-- The last of the lines that give a key of a section its value gives it this one. -/
def LastValue (ls : List Line) (name key value : String) : Prop :=
  ∃ i spelling, entryAt ls name i = some (spelling, value) ∧ sameName spelling key = true ∧
    ∀ j, i < j → ∀ other value', entryAt ls name j = some (other, value') →
      sameName other key = false

/-- What a document holds that is made of the given lines. -/
structure Describes (ls : List Line) (d : Document) : Prop where
  /-- Of several lines that give a key its value, the last one counts. -/
  value : ∀ name key value, d.get? name key = some value ↔ LastValue ls name key value
  absent : ∀ name key, d.get? name key = none ↔
    ∀ i spelling value, entryAt ls name i = some (spelling, value) → sameName spelling key = false
  keys : ∀ name, d.keys name = firstSpellings ((assigned ls name).map Prod.fst)
  sections : ∀ name, d.has name = true ↔ IsOpened ls name
  malformed : d.firstMalformed = (ls.findIdx? (· == .malformed)).map (· + 1)

/-! ## One more line -/

theorem eq_empty_of_sameName {name : String} (h : sameName "" name = true) : name = "" := by
  have hmap := (beq_iff_eq.1 h).symm
  exact String.toList_inj.1 (List.map_eq_nil_iff.1 hmap)

section Append

variable (ls : List Line) (l : Line)

theorem governing_append : governing (ls ++ [l]) = l.header?.getD (governing ls) := by
  rw [governing, List.filterMap_append, List.getLast?_append]
  cases l <;> rfl

theorem entryAt_of_le {i : Nat} (h : ls.length ≤ i) (name : String) : entryAt ls name i = none := by
  rw [entryAt, List.getElem?_eq_none h]

theorem entryAt_append_of_lt {i : Nat} (h : i < ls.length) (name : String) :
    entryAt (ls ++ [l]) name i = entryAt ls name i := by
  rw [entryAt, entryAt, List.getElem?_append_left h, List.take_append_of_le_length (Nat.le_of_lt h)]

theorem entryAt_append_last (name : String) :
    entryAt (ls ++ [l]) name ls.length = match l with
      | .assignment key value =>
        if sameName (governing ls) name then some (key, value) else none
      | _ => none := by
  rw [entryAt, List.getElem?_append_right (Nat.le_refl _), Nat.sub_self,
    List.take_append_of_le_length (Nat.le_refl _), List.take_length]
  cases l <;> rfl

theorem assigned_append (name : String) :
    assigned (ls ++ [l]) name =
      assigned ls name ++ (entryAt (ls ++ [l]) name ls.length).toList := by
  have hfirst : (List.range ls.length).filterMap (entryAt (ls ++ [l]) name) =
      (List.range ls.length).filterMap (entryAt ls name) := by
    refine List.filterMap_congr fun i hi => ?_
    exact entryAt_append_of_lt ls l (List.mem_range.1 hi) name
  rw [assigned, List.length_append, List.length_singleton, List.range_succ, List.filterMap_append,
    hfirst, assigned]
  cases hlast : entryAt (ls ++ [l]) name ls.length <;> simp [hlast]

end Append

/-- Whether a header opens a section of this name. -/
def hasHeader (ls : List Line) (name : String) : Bool :=
  ls.any fun l => l.header?.any (sameName · name)

theorem hasHeader_iff {ls : List Line} {name : String} :
    hasHeader ls name = true ↔ ∃ header, .header header ∈ ls ∧ sameName header name = true := by
  rw [hasHeader, List.any_eq_true]
  constructor
  · rintro ⟨l, hl, hname⟩
    cases l with
    | header h => exact ⟨h, hl, hname⟩
    | nothing => cases hname
    | assignment key value => cases hname
    | malformed => cases hname
  · rintro ⟨h, hl, hname⟩
    exact ⟨.header h, hl, hname⟩

theorem mem_assigned_iff {ls : List Line} {name : String} {e : String × String} :
    e ∈ assigned ls name ↔ ∃ i, entryAt ls name i = some e := by
  rw [assigned, List.mem_filterMap]
  constructor
  · rintro ⟨i, -, hi⟩
    exact ⟨i, hi⟩
  · rintro ⟨i, hi⟩
    refine ⟨i, List.mem_range.2 (Nat.lt_of_not_le fun hle => ?_), hi⟩
    rw [entryAt_of_le ls hle] at hi
    cases hi

theorem entryAt_eq_some_iff {ls : List Line} {name key value : String} {i : Nat} :
    entryAt ls name i = some (key, value) ↔
      ls[i]? = some (.assignment key value) ∧ sameName (governing (ls.take i)) name = true := by
  unfold entryAt
  split
  · rename_i k v hline
    split
    · rename_i hname
      simp [hline, hname]
    · rename_i hname
      simp [hname]
  · rename_i hline
    simp only [reduceCtorEq, false_iff, not_and]
    exact fun h => absurd h (hline key value)

/-- The section that some lines leave open is that of a header, or the one without a name. -/
theorem governing_cases (ls : List Line) :
    .header (governing ls) ∈ ls ∨ governing ls = "" ∧ ∀ header, .header header ∉ ls := by
  cases hlast : (ls.filterMap Line.header?).getLast? with
  | none =>
    refine .inr ⟨by rw [governing, hlast]; rfl, fun h hmem => ?_⟩
    have hnil := List.getLast?_eq_none_iff.1 hlast
    have hheader : h ∈ ls.filterMap Line.header? := List.mem_filterMap.2 ⟨_, hmem, rfl⟩
    rw [hnil] at hheader
    cases hheader
  | some header =>
    obtain ⟨l, hl, hheader⟩ := List.mem_filterMap.1 (List.mem_of_getLast? hlast)
    refine .inl ?_
    rw [governing, hlast]
    cases l <;> cases hheader
    exact hl

/-- A section is opened by a header of its name, or it is given something. -/
theorem isOpened_iff {ls : List Line} {name : String} :
    IsOpened ls name ↔ hasHeader ls name = true ∨ assigned ls name ≠ [] := by
  rw [hasHeader_iff]
  constructor
  · rintro (hheader | ⟨rfl, i, key, value, hline, hbefore⟩)
    · exact .inl hheader
    · refine .inr (List.ne_nil_of_mem (a := (key, value)) (mem_assigned_iff.2 ⟨i, ?_⟩))
      refine entryAt_eq_some_iff.2 ⟨hline, ?_⟩
      rcases governing_cases (ls.take i) with hmem | ⟨hempty, -⟩
      · exact absurd hmem (hbefore _)
      · rw [hempty]
        exact sameName_self ""
  · rintro (hheader | hassigned)
    · exact .inl hheader
    · obtain ⟨⟨key, value⟩, hmem⟩ := List.exists_mem_of_ne_nil _ hassigned
      obtain ⟨i, hi⟩ := mem_assigned_iff.1 hmem
      obtain ⟨hline, hname⟩ := entryAt_eq_some_iff.1 hi
      rcases governing_cases (ls.take i) with hheader | ⟨hempty, hbefore⟩
      · exact .inl ⟨_, List.mem_of_mem_take hheader, hname⟩
      · rw [hempty] at hname
        exact .inr ⟨eq_empty_of_sameName hname, i, key, value, hline, hbefore⟩

namespace Document

/-! ## Line by line -/

theorem Draft.pushAll_append (d : Draft) (n : Nat) (ls ls' : List Line) :
    d.pushAll n (ls ++ ls') = (d.pushAll n ls).pushAll (n + ls.length) ls' := by
  induction ls generalizing d n with
  | nil => rfl
  | cons l ls ih =>
    rw [List.cons_append, Draft.pushAll, Draft.pushAll, ih, List.length_cons, Nat.add_right_comm,
      Nat.add_assoc]

/-- What a draft holds after some lines. -/
structure Draft.Holds (ls : List Line) (t : Draft) : Prop where
  current : t.current = governing ls
  entries : ∀ name, (held t.document.sections name).getD [] = puts (assigned ls name)
  opened : ∀ name, (held t.document.sections name).isSome =
    (hasHeader ls name || !(assigned ls name).isEmpty)
  malformed : t.document.firstMalformed = (ls.findIdx? (· == .malformed)).map (· + 1)

section Step

variable {ls : List Line} {t : Draft}

theorem findIdx?_append_of_ne {l : Line} (h : l ≠ .malformed) :
    (ls ++ [l]).findIdx? (· == .malformed) = ls.findIdx? (· == .malformed) := by
  rw [List.findIdx?_append]
  simp [List.findIdx?_cons, h]

theorem findIdx?_append_malformed : (ls ++ [Line.malformed]).findIdx? (· == .malformed) =
    (ls.findIdx? (· == .malformed)).or (some ls.length) := by
  rw [List.findIdx?_append]
  simp [List.findIdx?_cons]

theorem hasHeader_append (l : Line) (name : String) :
    hasHeader (ls ++ [l]) name = (hasHeader ls name || l.header?.any (sameName · name)) := by
  simp [hasHeader]

theorem assigned_append_of_not_assignment {l : Line} (h : ∀ key value, l ≠ .assignment key value)
    (name : String) : assigned (ls ++ [l]) name = assigned ls name := by
  rw [assigned_append, entryAt_append_last]
  split
  · rename_i key value
    exact absurd rfl (h key value)
  · exact List.append_nil _

theorem assigned_append_assignment (key value name : String) :
    assigned (ls ++ [.assignment key value]) name =
      if sameName (governing ls) name then assigned ls name ++ [(key, value)]
      else assigned ls name := by
  rw [assigned_append, entryAt_append_last]
  change _ ++ (ite _ _ _ : Option _).toList = _
  split
  · rfl
  · exact List.append_nil _

/-- A line that is neither a header nor an assignment leaves the sections as they are. -/
theorem Draft.Holds.push_aside (h : Holds ls t) {l : Line} (hheader : l.header? = none)
    (hassign : ∀ key value, l ≠ .assignment key value) {t' : Draft}
    (hcurrent : t'.current = t.current) (hsections : t'.document.sections = t.document.sections)
    (hmalformed : t'.document.firstMalformed =
      ((ls ++ [l]).findIdx? (· == .malformed)).map (· + 1)) : Holds (ls ++ [l]) t' where
  current := by rw [hcurrent, h.current, governing_append, hheader, Option.getD_none]
  entries name := by rw [hsections, h.entries, assigned_append_of_not_assignment hassign]
  opened name := by
    rw [hsections, h.opened, hasHeader_append, assigned_append_of_not_assignment hassign, hheader,
      Option.any_none, Bool.or_false]
  malformed := hmalformed

theorem Draft.Holds.push_nothing (h : Holds ls t) : Holds (ls ++ [.nothing]) t := by
  refine h.push_aside rfl (by simp) rfl rfl ?_
  rw [h.malformed, findIdx?_append_of_ne (by simp)]

theorem Draft.Holds.push_malformed (h : Holds ls t) :
    Holds (ls ++ [.malformed]) (t.push .malformed (1 + ls.length)) := by
  refine h.push_aside rfl (by simp) rfl rfl ?_
  change t.document.firstMalformed.or (some (1 + ls.length)) = _
  rw [h.malformed, findIdx?_append_malformed, Option.map_or, Nat.add_comm]
  rfl

theorem Draft.Holds.push_header (h : Holds ls t) (name : String) (n : Nat) :
    Holds (ls ++ [.header name]) (t.push (.header name) n) where
  current := by
    rw [governing_append]
    rfl
  entries other := by
    change (held (openSection name t.document.sections) other).getD [] = _
    rw [openSection_eq, held_editIn, assigned_append_of_not_assignment (by simp), ← h.entries]
    split <;> rfl
  opened other := by
    change (held (openSection name t.document.sections) other).isSome = _
    have hheader : hasHeader (ls ++ [.header name]) other =
        (hasHeader ls other || sameName name other) := hasHeader_append _ other
    rw [openSection_eq, held_editIn, assigned_append_of_not_assignment (by simp), hheader]
    cases sameName name other with
    | true => simp
    | false => simp [h.opened]
  malformed := by
    change t.document.firstMalformed = _
    rw [h.malformed, findIdx?_append_of_ne (by simp)]

theorem Draft.Holds.push_assignment (h : Holds ls t) (key value : String) (n : Nat) :
    Holds (ls ++ [.assignment key value]) (t.push (.assignment key value) n) where
  current := by
    change t.current = _
    rw [h.current, governing_append]
    rfl
  entries name := by
    change (held (assignIn t.current key value t.document.sections) name).getD [] = _
    rw [assignIn_eq, held_editIn, h.current, assigned_append_assignment]
    split
    · rw [puts_append, Option.getD_some, h.entries]
    · exact h.entries name
  opened name := by
    change (held (assignIn t.current key value t.document.sections) name).isSome = _
    have hheader : hasHeader (ls ++ [.assignment key value]) name = (hasHeader ls name || false) :=
      hasHeader_append _ name
    rw [assignIn_eq, held_editIn, h.current, assigned_append_assignment, hheader, Bool.or_false]
    split
    · simp
    · exact h.opened name
  malformed := by
    change t.document.firstMalformed = _
    rw [h.malformed, findIdx?_append_of_ne (by simp)]

theorem Draft.Holds.push (h : Holds ls t) (l : Line) :
    Holds (ls ++ [l]) (t.push l (1 + ls.length)) := by
  cases l with
  | nothing => exact h.push_nothing
  | header name => exact h.push_header name _
  | assignment key value => exact h.push_assignment key value _
  | malformed => exact h.push_malformed

end Step

/-- After any lines the draft holds what they give. -/
theorem Draft.holds_pushAll (ls : List Line) : Holds ls (pushAll {} 1 ls) := by
  induction ls using List.reverseRecOn with
  | nil => exact ⟨rfl, fun _ => rfl, fun _ => rfl, rfl⟩
  | append_singleton ls l ih =>
    rw [pushAll_append]
    exact ih.push l

/-! ## What a text says -/

/-- The last of some values that may be there. -/
theorem getLast?_filterMap_range {α : Type} (f : Nat → Option α) (n : Nat) (a : α) :
    ((List.range n).filterMap f).getLast? = some a ↔
      ∃ i < n, f i = some a ∧ ∀ j, i < j → j < n → f j = none := by
  induction n with
  | zero => simp
  | succ n ih =>
    rw [List.range_succ, List.filterMap_append, List.getLast?_append]
    cases hn : f n with
    | some b =>
      simp only [List.filterMap_cons, hn, List.filterMap_nil, List.getLast?_singleton,
        Option.some_or, Option.some_inj]
      constructor
      · rintro rfl
        exact ⟨n, Nat.lt_succ_self n, hn, fun j hj hj' => by omega⟩
      · rintro ⟨i, hi, hfi, hafter⟩
        rcases Nat.lt_succ_iff_lt_or_eq.1 hi with hlt | rfl
        · have hnone := hafter n hlt (Nat.lt_succ_self n)
          rw [hn] at hnone
          cases hnone
        · rw [hn] at hfi
          exact Option.some.inj hfi
    | none =>
      simp only [List.filterMap_cons, hn, List.filterMap_nil, List.getLast?_nil, Option.none_or, ih]
      constructor
      · rintro ⟨i, hi, hfi, hafter⟩
        refine ⟨i, Nat.lt_succ_of_lt hi, hfi, fun j hj hj' => ?_⟩
        rcases Nat.lt_succ_iff_lt_or_eq.1 hj' with hlt | rfl
        · exact hafter j hj hlt
        · exact hn
      · rintro ⟨i, hi, hfi, hafter⟩
        rcases Nat.lt_succ_iff_lt_or_eq.1 hi with hlt | rfl
        · exact ⟨i, hlt, hfi, fun j hj hj' => hafter j hj (Nat.lt_succ_of_lt hj')⟩
        · rw [hn] at hfi
          cases hfi

/-- The last of the lines that give a section a key of some name. -/
theorem getLast?_assigned_eq_some_iff {ls : List Line} {name key : String} {e : String × String} :
    ((assigned ls name).filter fun e => sameName e.1 key).getLast? = some e ↔
      ∃ i, entryAt ls name i = some e ∧ sameName e.1 key = true ∧
        ∀ j, i < j → ∀ e', entryAt ls name j = some e' → sameName e'.1 key = false := by
  rw [assigned, List.filter_filterMap, getLast?_filterMap_range]
  simp only [Option.filter_eq_some_iff, Option.filter_eq_none_iff, Bool.not_eq_true]
  constructor
  · rintro ⟨i, -, ⟨hi, hkey⟩, hafter⟩
    refine ⟨i, hi, hkey, fun j hj e' he' => ?_⟩
    rcases Nat.lt_or_ge j ls.length with hlt | hge
    · exact hafter j hj hlt e' he'
    · rw [entryAt_of_le ls hge] at he'
      cases he'
  · rintro ⟨i, hi, hkey, hafter⟩
    refine ⟨i, Nat.lt_of_not_le fun hle => ?_, ⟨hi, hkey⟩, fun j hj _ => hafter j hj⟩
    rw [entryAt_of_le ls hle] at hi
    cases hi

theorem Draft.Holds.describes {ls : List Line} {t : Draft} (h : Holds ls t) :
    Describes ls t.document where
  value name key value := by
    rw [get?_eq, h.entries, find_puts, Option.map_eq_some_iff]
    constructor
    · rintro ⟨⟨spelling, _⟩, hlast, rfl⟩
      obtain ⟨i, hi, hkey, hafter⟩ := getLast?_assigned_eq_some_iff.1 hlast
      exact ⟨i, spelling, hi, hkey, fun j hj other value' => hafter j hj (other, value')⟩
    · rintro ⟨i, spelling, hi, hkey, hafter⟩
      refine ⟨(spelling, value), getLast?_assigned_eq_some_iff.2 ⟨i, hi, hkey, ?_⟩, rfl⟩
      exact fun j hj e' => hafter j hj e'.1 e'.2
  absent name key := by
    rw [get?_eq, h.entries, find_puts, Option.map_eq_none_iff, List.getLast?_eq_none_iff,
      List.filter_eq_nil_iff]
    simp only [Bool.not_eq_true]
    constructor
    · intro hnone i spelling value hi
      exact hnone _ (mem_assigned_iff.2 ⟨i, hi⟩)
    · intro hnone e he
      obtain ⟨i, hi⟩ := mem_assigned_iff.1 he
      exact hnone i e.1 e.2 hi
  keys name := by rw [keys_eq, h.entries, map_fst_puts]
  sections name := by
    rw [has_eq, h.opened, isOpened_iff, Bool.or_eq_true]
    simp
  malformed := h.malformed

/-- A document made of lines holds what the lines describe. -/
theorem ofLines_describes (ls : List Line) : Describes ls (ofLines ls) :=
  (Draft.holds_pushAll ls).describes

/-- Every text is read: each of its lines in the one way that its grammar allows, and the document
holds what the lines describe, which is for a key of a section the value in the last line that
gives it one. -/
theorem parse_describes (text : List Char) :
    (∀ ls, List.Forall₂ Line.Reads (lines text) ls ↔ ls = linesOf text) ∧
      Describes (linesOf text) (parse text) := by
  refine ⟨fun ls => ?_, ofLines_describes (linesOf text)⟩
  have hreads : Line.Reads = fun raw l => Line.ofText raw = l := by
    funext raw l
    exact propext Line.ofText_eq_iff.symm
  rw [hreads, ← List.forall₂_map_left_iff, List.forall₂_eq_eq_eq, linesOf]
  exact eq_comm

/-- A section goes on where it is opened again, a key keeps its first spelling and gets its last
value, and the second line is malformed. -/
example : parse "[ADC]\n= 1\nSkips = 1 ; one\n[Other]\n[adc]\nSKIPS: 2".toList =
    { sections := [⟨"ADC", [("Skips", "2")]⟩, ⟨"Other", []⟩], firstMalformed := some 2 } := by
  decide +kernel

end Document

end Readout.Ini
