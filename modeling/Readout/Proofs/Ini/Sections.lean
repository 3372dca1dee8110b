import Mathlib.Data.List.Induction
import Readout.Ini.Document
/-!
# Keys and sections

A key of a section, and a section of a document, is looked up by its name up to ASCII case, and the
first one that answers is taken.  A key is given its value where it stands, or at the end.

* `puts` gives keys their values, one after the other: `find_puts` finds the last value of a key,
  `map_fst_puts` has each key once and as it was spelled first;
* `held_editIn`: an edited section, and all others, as they are looked up afterwards;
* `has_eq`, `keys_eq`, `get?_eq` say what is looked up in a document, in terms of `held`.
-/

namespace Readout.Ini

open Text

/-! ## Keys and their values -/

theorem find_assignKey (k v : String) (es : List (String × String)) (key : String) :
    ((assignKey k v es).find? fun e => sameName e.1 key).map Prod.snd =
      if sameName k key then some v else (es.find? fun e => sameName e.1 key).map Prod.snd := by
  induction es with
  | nil =>
    rw [assignKey, List.find?_cons]
    cases sameName k key <;> rfl
  | cons e es ih =>
    obtain ⟨k', v'⟩ := e
    rw [assignKey]
    cases hsame : sameName k' k with
    | true =>
      rw [if_pos rfl, List.find?_cons, List.find?_cons, sameName_congr hsame key]
      cases sameName k key <;> rfl
    | false =>
      rw [if_neg Bool.false_ne_true, List.find?_cons, List.find?_cons]
      cases hkey : sameName k' key with
      | false => exact ih
      | true =>
        rw [sameName_eq_false hsame hkey]
        rfl

theorem map_fst_assignKey (k v : String) (es : List (String × String)) :
    (assignKey k v es).map Prod.fst =
      if (es.map Prod.fst).any (sameName · k) then es.map Prod.fst else es.map Prod.fst ++ [k] := by
  induction es with
  | nil => rfl
  | cons e es ih =>
    rw [assignKey, List.map_cons, List.any_cons]
    cases hsame : sameName e.1 k with
    | true => rfl
    | false =>
      rw [if_neg Bool.false_ne_true, List.map_cons, ih, Bool.false_or]
      split <;> rfl

/-- Each key once, in the order of their first appearance and as it is spelled there. -/
def firstSpellings : List String → List String
  | [] => []
  | key :: rest => key :: (firstSpellings rest).filter fun other => !sameName key other

/-- What is in a section that was given some keys their values, one after the other. -/
def puts (as : List (String × String)) : List (String × String) :=
  as.foldl (fun es e => assignKey e.1 e.2 es) []

theorem puts_append (as : List (String × String)) (e : String × String) :
    puts (as ++ [e]) = assignKey e.1 e.2 (puts as) := by
  rw [puts, List.foldl_append]
  rfl

/-- The last value that a key was given is the one that is found. -/
theorem find_puts (as : List (String × String)) (key : String) :
    ((puts as).find? fun e => sameName e.1 key).map Prod.snd =
      (as.filter fun e => sameName e.1 key).getLast?.map Prod.snd := by
  induction as using List.reverseRecOn with
  | nil => rfl
  | append_singleton as e ih =>
    rw [puts_append, find_assignKey, List.filter_append, List.getLast?_append, ih]
    cases hsame : sameName e.1 key with
    | true => simp [hsame]
    | false => simp [hsame]

theorem any_firstSpellings (keys : List String) (key : String) :
    (firstSpellings keys).any (sameName · key) = keys.any (sameName · key) := by
  induction keys with
  | nil => rfl
  | cons k keys ih =>
    rw [firstSpellings, List.any_cons, List.any_cons, ← ih, List.any_filter]
    cases hk : sameName k key with
    | true => rfl
    | false =>
      -- a key that is spelled as `key` is not spelled as `k`, so it stays
      have hstays : (fun other => !sameName k other && sameName other key) =
          (sameName · key) := by
        funext other
        cases hother : sameName other key with
        | false => rw [Bool.and_false]
        | true =>
          rw [sameName_comm] at hk hother
          rw [sameName_eq_false hk hother]
          rfl
      rw [hstays, Bool.false_or]

theorem firstSpellings_append (keys : List String) (key : String) :
    firstSpellings (keys ++ [key]) =
      if keys.any (sameName · key) then firstSpellings keys else firstSpellings keys ++ [key] := by
  induction keys with
  | nil => rfl
  | cons k keys ih =>
    rw [List.cons_append, firstSpellings, firstSpellings, ih, List.any_cons]
    cases hrest : keys.any (sameName · key) with
    | true => simp
    | false =>
      cases hk : sameName k key <;> simp [List.filter_append, hk]

/-- The keys of a section are pairwise different. -/
theorem pairwise_firstSpellings (keys : List String) :
    (firstSpellings keys).Pairwise fun a b => sameName a b = false := by
  induction keys with
  | nil => exact .nil
  | cons k keys ih =>
    refine .cons (fun other hother => ?_) (ih.filter _)
    have hkept := (List.mem_filter.1 hother).2
    rwa [Bool.not_eq_true'] at hkept

theorem map_fst_puts (as : List (String × String)) :
    (puts as).map Prod.fst = firstSpellings (as.map Prod.fst) := by
  induction as using List.reverseRecOn with
  | nil => rfl
  | append_singleton as e ih =>
    rw [puts_append, map_fst_assignKey, ih, any_firstSpellings, List.map_append, List.map_singleton,
      firstSpellings_append]

/-! ## Sections -/

/-- Edit what is in a section; the section is made if it is not there. -/
def editIn (f : List (String × String) → List (String × String)) (name : String) :
    List Section → List Section
  | [] => [⟨name, f []⟩]
  | s :: r => if sameName s.name name then ⟨s.name, f s.entries⟩ :: r else s :: editIn f name r

theorem openSection_eq (name : String) (ss : List Section) :
    openSection name ss = editIn id name ss := by
  induction ss with
  | nil => rfl
  | cons s ss ih => rw [openSection, editIn, ih, id_eq]

theorem assignIn_eq (name key value : String) (ss : List Section) :
    assignIn name key value ss = editIn (assignKey key value) name ss := by
  induction ss with
  | nil => rfl
  | cons s ss ih => rw [assignIn, editIn, ih]

/-- What is in the section of a name, if there is one. -/
def held (ss : List Section) (name : String) : Option (List (String × String)) :=
  (ss.find? fun s => sameName s.name name).map Section.entries

theorem held_editIn (f : List (String × String) → List (String × String)) (n : String)
    (ss : List Section) (name : String) :
    held (editIn f n ss) name =
      if sameName n name then some (f ((held ss name).getD [])) else held ss name := by
  induction ss with
  | nil =>
    rw [editIn, held, List.find?_cons]
    cases sameName n name <;> rfl
  | cons s ss ih =>
    rw [editIn]
    cases hsame : sameName s.name n with
    | true =>
      rw [if_pos rfl, held, held, List.find?_cons, List.find?_cons, sameName_congr hsame name]
      cases sameName n name <;> rfl
    | false =>
      rw [if_neg Bool.false_ne_true, held, held, List.find?_cons, List.find?_cons]
      cases hname : sameName s.name name with
      | false => exact ih
      | true =>
        rw [sameName_eq_false hsame hname]
        rfl

namespace Document

section Looked

variable (d : Document) (name key : String)

theorem has_eq : d.has name = (held d.sections name).isSome := by
  rw [has, held, Option.isSome_map]
  rfl

theorem keys_eq : d.keys name = ((held d.sections name).getD []).map Prod.fst := by
  rw [keys, held]
  change _ = (Option.getD (Option.map Section.entries (d.section? name)) []).map Prod.fst
  cases d.section? name <;> rfl

theorem get?_eq : d.get? name key =
    (((held d.sections name).getD []).find? fun e => sameName e.1 key).map Prod.snd := by
  rw [get?, held]
  change _ = ((Option.getD (Option.map Section.entries (d.section? name)) []).find? _).map Prod.snd
  cases d.section? name <;> rfl

end Looked

end Document

end Readout.Ini
