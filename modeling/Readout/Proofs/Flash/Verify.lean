import Readout.Proofs.Flash.Pages
import Readout.Proofs.Flash.Steps
/-!
# Pages that read back falsified

A fault that is armed at the address of a page falsifies one word of what is read back.  The verdict
on the page shows exactly that word, if the fault lies within the page and changes it.

* `Fault.Shows` says so of a fault;
* `compare_falsify`: the verdict on a page that was read back with a fault.
-/

namespace Readout

/-- A fault that changes a word of a page. -/
def Fault.Shows (f : Fault) : Prop := f.word < Flash.pageWords ∧ f.mask ≠ 0

instance (f : Fault) : Decidable f.Shows := inferInstanceAs (Decidable (_ ∧ _))

namespace Flash

theorem filter_range_eq {n w : Nat} (hw : w < n) :
    ((List.range n).filter fun i => i = w) = [w] := by
  induction n with
  | zero => exact absurd hw (Nat.not_lt_zero w)
  | succ n ih =>
    rw [List.range_succ, List.filter_append]
    rcases Nat.lt_or_ge w n with hlt | hge
    · have hlast : [n].filter (fun i => i = w) = [] :=
        List.filter_cons_of_neg (by rw [decide_eq_true_eq]; omega)
      rw [ih hlt, hlast]
      rfl
    · obtain rfl : w = n := by omega
      have hbefore : (List.range w).filter (fun i => i = w) = [] := by
        refine List.filter_eq_nil_iff.2 fun i hi => ?_
        have := List.mem_range.1 hi
        rw [decide_eq_true_eq]
        omega
      rw [hbefore, List.filter_cons_of_pos (by rw [decide_eq_true_eq])]
      rfl

/-- A falsified page, word by word. -/
theorem falsify_pageAt (f : Fault) (words : List Word) (k : Nat) :
    Board.falsify f (pageAt words k) = (List.range pageWords).map fun i =>
      if i = f.word then padded words (pageWords * k + i) ^^^ f.mask
      else padded words (pageWords * k + i) := by
  apply List.ext_getElem
  · simp [Board.falsify]
  · intro i h1 h2
    simp only [Board.falsify, List.getElem_modify, pageAt, List.getElem_map, List.getElem_range,
      eq_comm]

theorem ne_xor_mask {w m : Word} (hm : m ≠ 0) : w ≠ w ^^^ m := by
  intro h
  refine hm ((UInt32.xor_right_inj w).1 ?_)
  rw [← h, UInt32.xor_zero]

/-- A fault that does not show leaves the page as it is. -/
theorem falsify_eq_self {f : Fault} (h : ¬ f.Shows) (words : List Word) (k : Nat) :
    Board.falsify f (pageAt words k) = pageAt words k := by
  rw [falsify_pageAt]
  refine List.map_congr_left fun i hi => ?_
  have hi := List.mem_range.1 hi
  split
  · rename_i hword
    have hmask : f.mask = 0 := Classical.byContradiction fun hm => h ⟨hword ▸ hi, hm⟩
    rw [hmask, UInt32.xor_zero]
  · rfl

/-- A fault that shows makes one word differ. -/
theorem differences_falsify {f : Fault} (h : f.Shows) (words : List Word) (k : Nat) :
    differences 0 (pageAt words k) (Board.falsify f (pageAt words k)) =
      [(f.word, padded words (pageWords * k + f.word),
        padded words (pageWords * k + f.word) ^^^ f.mask)] := by
  have hfilter : ((List.range pageWords).filter fun i =>
      padded words (pageWords * k + i) ≠ if i = f.word
        then padded words (pageWords * k + i) ^^^ f.mask else padded words (pageWords * k + i)) =
      [f.word] := by
    rw [← filter_range_eq h.1]
    refine List.filter_congr fun i _ => ?_
    by_cases hi : i = f.word
    · rw [if_pos hi, decide_eq_true hi, decide_eq_true (ne_xor_mask h.2)]
    · rw [if_neg hi, decide_eq_false hi, decide_eq_false (fun hne => hne rfl)]
  rw [falsify_pageAt, pageAt, differences_map, hfilter, List.map_cons, List.map_nil, Nat.zero_add,
    if_pos rfl]

/-- The verdict on a page that was read back with a fault. -/
theorem compare_falsify (a : UInt32) (sector index : Nat) (words : List Word) (k : Nat)
    (f : Fault) :
    compare a sector index (pageAt words k) (Board.falsify f (pageAt words k)) =
      if f.Shows then some
        { sector, page := index, address := a, written := pageWords, read := pageWords
          differing := [(f.word, padded words (pageWords * k + f.word),
            padded words (pageWords * k + f.word) ^^^ f.mask)] }
      else none := by
  by_cases h : f.Shows
  · have hlen : (Board.falsify f (pageAt words k)).length = pageWords := by
      rw [Board.falsify, List.length_modify, length_pageAt]
    have hne : Board.falsify f (pageAt words k) ≠ pageAt words k := by
      intro he
      have hself := differences_falsify h words k
      rw [he, differences_self] at hself
      cases hself
    rw [compare, if_neg hne, if_pos h, differences_falsify h, hlen, length_pageAt, if_pos rfl]
  · rw [falsify_eq_self h, compare, if_pos rfl, if_neg h]

end Flash

end Readout
