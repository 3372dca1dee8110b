import Readout.Command.Frame
import Readout.Proofs.Text.Utf8
/-!
# Commands on the wire

A command travels as a word with its name and parameter, and a second word if it has one.  The name
takes three bytes, and a board shows a byte that is not printable as `?`.

* `exists_frame`: a command with a name that fits has a datagram;
* `frame_seek`: the datagram of an address is two words, whatever address but the sentinel it is;
* `eq_of_heard`: a name that is heard as printable text is that text.
-/

namespace Readout

/-! ## Frames -/

namespace Command

/-- A command with a name that fits is sent. -/
theorem exists_frame {c : Command} (h : isName c.name = true) :
    ∃ data, c.frame = .ok data := by
  rw [frame, words, word, if_pos h]
  exact ⟨_, rfl⟩

/-- An address that is no sentinel is sent, in a frame of two words. -/
theorem frame_seek {a : UInt32} (ha : a ≠ absentWord) :
    frame { name := setAddress, second := some a } = .ok (Word.encode [0x00455341, a]) := by
  have hword : word { name := setAddress, second := some a } = .ok 0x00455341 := by
    rw [word, if_pos (by decide : isName setAddress = true)]
    exact congrArg Except.ok (by decide : UInt32.ofNat (0 * 16777216 +
      (Word.ofAscii setAddress).toNat) = 0x00455341)
  have hkeep : (some a).filter (· ≠ absentWord) = some a :=
    Option.filter_eq_some_iff.2 ⟨rfl, by simpa using ha⟩
  rw [frame, words, hword, hkeep]
  rfl

theorem frame_read (n : UInt8) :
    ∃ data, frame { name := readFlash, parameter := some n } = .ok data :=
  exists_frame (by show isName readFlash = true; decide)

end Command

/-! ## Names -/

namespace Word

theorem showByte_eq {x : UInt8} {d : Char} (hd : d ≠ '?') (h : showByte x = d) :
    Char.ofNat x.toNat = d := by
  unfold showByte at h
  split at h
  · exact h
  · exact absurd h.symm hd

/-- Three ASCII characters are the low bytes of their word. -/
theorem bytes_ofAscii {a b c : Char} (ha : a.toNat < 128) (hb : b.toNat < 128)
    (hc : c.toNat < 128) : (bytes (ofAscii (String.ofList [a, b, c]))).drop 1 =
      [a, b, c].map fun d => UInt8.ofNat d.toNat := by
  have hword : (ofAscii (String.ofList [a, b, c])).toNat =
      a.toNat * 65536 + b.toNat * 256 + c.toNat := by
    simp only [ofAscii, String.toList_ofList, List.flatMap_cons, List.flatMap_nil,
      Text.Utf8.encodeChar_ascii ha, Text.Utf8.encodeChar_ascii hb, Text.Utf8.encodeChar_ascii hc,
      List.cons_append, List.nil_append, List.take_succ_cons, List.take_zero, List.foldl_cons,
      List.foldl_nil, UInt32.toNat_ofNat', UInt8.toNat_ofNat', UInt32.toNat_zero]
    omega
  simp only [bytes, List.drop_succ_cons, List.drop_zero, hword, List.map_cons, List.map_nil,
    List.cons.injEq, and_true, ← UInt8.toNat_inj, UInt8.toNat_ofNat']
  omega

end Word

/-- A name that a board hears as three printable characters is those characters. -/
theorem Command.eq_of_heard {name text : String} (hname : isName name = true)
    (hlen : text.toList.length = 3) (hprint : '?' ∉ text.toList)
    (hheard : Word.ascii (Word.ofAscii name) = text) : name = text := by
  simp only [isName, Bool.and_eq_true, beq_iff_eq, List.all_eq_true, decide_eq_true_eq] at hname
  obtain ⟨hthree, hascii⟩ := hname
  obtain ⟨a, b, c, habc⟩ := List.length_eq_three.1 hthree
  rw [habc] at hascii
  have hlist : name = String.ofList [a, b, c] := by rw [← habc, String.ofList_toList]
  rw [hlist, Word.ascii, Word.bytes_ofAscii (hascii a (by simp)) (hascii b (by simp))
    (hascii c (by simp))] at hheard
  have htext : _ = text.toList := (String.toList_ofList).symm.trans (congrArg String.toList hheard)
  -- no character is left out, as three are heard
  have hall := htext ▸ hlen
  rw [List.length_map, show 3 = ([a, b, c].map fun d => UInt8.ofNat d.toNat).length from rfl,
    List.length_filter_eq_length_iff] at hall
  rw [List.filter_eq_self.2 hall, List.map_map] at htext
  have hchar : ∀ d ∈ [a, b, c], Word.showByte (UInt8.ofNat d.toNat) = d := by
    intro d hd
    have hd128 := hascii d hd
    have hshown : Word.showByte (UInt8.ofNat d.toNat) ≠ '?' := by
      intro he
      refine hprint (htext ▸ List.mem_map.2 ⟨d, hd, he⟩)
    have := Word.showByte_eq hshown rfl
    rw [← this, UInt8.toNat_ofNat', Nat.mod_eq_of_lt (by omega), Char.ofNat_toNat]
  rw [hlist, ← String.toList_inj, String.toList_ofList, ← htext]
  exact (List.map_id _).symm.trans (List.map_congr_left fun d hd => (hchar d hd).symm)

end Readout
