import Mathlib.Data.List.TakeWhile
import Readout.Proofs.Image.Cards
/-!
# Adding cards to an image

Cards are added in place: the data unit is moved behind the longer header first, if the header takes
more blocks, and then the header is written over the old one.  A header never gets shorter by this,
so what is written last does not reach into the data unit.

* `Header.exists_of_length?`: the cards of a header that can be read, and where it ends;
* `Header.length?_bytes`: the zeros at the end of a file hold no end of a header;
* `addCards_eq`: what is in the file afterwards;
* `Addition` is what a call can come to, `addCardsTo_outcome` that it comes to this, and that cards
  can be added at once or one after the other.
-/

namespace Readout

namespace Content

theorem bytes_drop (c : Content) (n : Nat) : (c.drop n).bytes = c.bytes.drop n := by
  simp only [drop, bytes, List.drop_append, List.drop_replicate]

theorem length_drop (c : Content) (n : Nat) : (c.drop n).length = c.length - n := by
  simp only [length, drop, List.length_drop]
  omega

/-- A write at the start of a file. -/
theorem writeAt_start (c : Content) {bs : Bytes} (h : bs ≠ []) :
    c.writeAt 0 bs =
      { data := bs ++ c.data.drop bs.length
        hole := c.length - (bs.length + (c.data.length - bs.length)) } := by
  have hb : bs.isEmpty = false := by simpa using h
  simp [writeAt, hb]

end Content

/-! ## The directory -/

namespace Files

/-- Where a path leads to a file does not depend on what the files are. -/
theorem follow_file {f : Files} (f' : Files) {place name : String} {parts : List String}
    (h : f.follow place parts = .file name) : f'.follow place parts = .file name := by
  induction parts generalizing place with
  | nil => cases h
  | cons part rest ih =>
    unfold follow at h ⊢
    split at h
    · rw [if_pos ‹_›]
      exact ih h
    · rw [if_neg ‹_›]
      split at h
      · rw [if_pos ‹_›]
        exact ih h
      · rw [if_neg ‹_›]
        split at h
        · rw [if_pos ‹_›]
          exact h
        · split at h <;> cases h

theorem target_file {f : Files} (f' : Files) {path name : String}
    (h : f.target path = .file name) : f'.target path = .file name := by
  unfold target at h ⊢
  split at h
  · cases h
  · rw [if_neg ‹_›]
    split at h
    · cases h
    · rw [if_neg ‹_›]
      split at h
      · cases h
      · cases h
      · exact follow_file f' h
      · exact follow_file f' h

theorem open?_ok {f : Files} {path name : String} {c : Content} :
    f.open? path = .ok (name, c) ↔ f.target path = .file name ∧ f.get? name = some c := by
  constructor
  · intro h
    unfold open? at h
    split at h
    case h_4 other htarget =>
      cases hget : f.get? other with
      | none =>
        rw [hget] at h
        cases h
      | some found =>
        rw [hget] at h
        cases h
        exact ⟨htarget, hget⟩
    all_goals cases h
  · rintro ⟨htarget, hget⟩
    unfold open?
    rw [htarget]
    dsimp only
    rw [hget]

theorem open?_put {f : Files} {path name : String} {c : Content}
    (h : f.open? path = .ok (name, c)) (c' : Content) :
    (f.put name c').open? path = .ok (name, c') :=
  open?_ok.2 ⟨target_file _ (open?_ok.1 h).1, by rw [get?_put, if_pos rfl]⟩

theorem assign_assign (name : String) (c c' : Content) (es : List (String × Content)) :
    assign name c' (assign name c es) = assign name c' es := by
  induction es with
  | nil => simp [assign]
  | cons e es ih =>
    obtain ⟨n, old⟩ := e
    by_cases hn : n = name
    · simp [assign, hn]
    · simp [assign, hn, ih]

theorem put_put (f : Files) (name : String) (c c' : Content) :
    (f.put name c).put name c' = f.put name c' := by
  simp only [put, assign_assign]

/-- The directory after a call: a call that fails leaves it as it was. -/
def orKeep (f : Files) : Except Error Files → Files
  | .ok f' => f'
  | .error _ => f

end Files

namespace Image

namespace Header

/-! ## What can be read -/

theorem exists_chunks (bs : Bytes) :
    (∀ card ∈ chunks bs, card.length = Card.size) ∧ ∃ tail, bs = (chunks bs).flatten ++ tail := by
  induction h : bs.length using Nat.strongRecOn generalizing bs with
  | ind n ih =>
    subst h
    rw [chunks]
    split
    · rename_i hcard
      have hlt : (bs.drop Card.size).length < bs.length := by
        rw [List.length_take] at hcard
        rw [List.length_drop]
        have : 0 < Card.size := by decide
        omega
      obtain ⟨hsize, tail, htail⟩ := ih _ hlt (bs.drop Card.size) rfl
      refine ⟨fun card hmem => ?_, tail, ?_⟩
      · rcases List.mem_cons.1 hmem with rfl | hmem
        · exact hcard
        · exact hsize card hmem
      · rw [List.flatten_cons, List.append_assoc, ← htail, List.take_append_drop]
    · exact ⟨fun card hmem => absurd hmem List.not_mem_nil, bs, rfl⟩

/-- A header that can be read is the cards before its end, then the end, then anything. -/
theorem exists_of_length? {bs : Bytes} {old : Nat} (h : length? bs = some old) :
    Inner (cards bs) ∧ old = wholeBlocks (((cards bs).length + 1) * Card.size) ∧
      ∃ rest, bs = (cards bs).flatten ++ (Card.endBytes ++ rest) := by
  obtain ⟨hsize, tail, htail⟩ := exists_chunks bs
  have hsplit : chunks bs = cards bs ++ (chunks bs).dropWhile fun card => !isEnd card :=
    List.takeWhile_append_dropWhile.symm
  have hinner : Inner (cards bs) := by
    intro card hcard
    refine ⟨hsize card (List.takeWhile_subset _ hcard), ?_⟩
    simpa using List.mem_takeWhile_imp hcard
  cases hdrop : (chunks bs).dropWhile fun card => !isEnd card with
  | nil =>
    rw [hdrop, List.append_nil] at hsplit
    have hnone : (chunks bs).findIdx? isEnd = none := by
      rw [List.findIdx?_eq_none_iff, hsplit]
      exact fun card hcard => (hinner card hcard).2
    rw [length?, hnone] at h
    cases h
  | cons last more =>
    rw [hdrop] at hsplit
    have hend : last = Card.endBytes := by
      refine (isEnd_iff (hsize last (by rw [hsplit]; simp))).1 ?_
      have hhead := List.head?_dropWhile_not (fun card => !isEnd card) (chunks bs)
      simpa [hdrop] using hhead
    have hbytes : bs = (cards bs).flatten ++ (Card.endBytes ++ (more.flatten ++ tail)) := by
      conv_lhs => rw [htail, hsplit, hend]
      simp only [List.flatten_append, List.flatten_cons, List.append_assoc]
    refine ⟨hinner, ?_, _, hbytes⟩
    have hlength := length?_flatten hinner (more.flatten ++ tail)
    rw [← hbytes, h] at hlength
    exact Option.some.inj hlength

/-- The zeros at the end of a file hold no end of a header. -/
theorem length?_bytes (c : Content) : length? c.bytes = length? c.data := by
  cases hdata : length? c.data with
  | some old =>
    obtain ⟨hinner, rfl, rest, hrest⟩ := exists_of_length? hdata
    rw [Content.bytes, hrest, List.append_assoc, List.append_assoc, length?_flatten hinner]
    rw [← hrest]
  | none =>
    cases hbytes : length? c.bytes with
    | none => rfl
    | some old =>
      obtain ⟨hinner, -, rest, hrest⟩ := exists_of_length? hbytes
      obtain ⟨cs, hcs⟩ : ∃ cs, cs = cards c.bytes := ⟨_, rfl⟩
      rw [← hcs] at hinner hrest
      -- The last byte of the end is a space, so the end is no part of the zeros.
      have hlast : c.bytes[cs.flatten.length + 79]? = some 0x20 := by
        rw [hrest, List.getElem?_append_right (by omega), Nat.add_sub_cancel_left]
        rfl
      have hinside : (cs.flatten ++ Card.endBytes).length ≤ c.data.length := by
        have hsize : Card.endBytes.length = 80 := rfl
        rw [List.length_append, hsize]
        by_contra hout
        rw [Content.bytes, List.getElem?_append_right (by omega)] at hlast
        have hzero := List.eq_of_mem_replicate (List.mem_of_getElem? hlast)
        exact absurd hzero (by decide)
      have hprefix : c.data.take (cs.flatten ++ Card.endBytes).length =
          cs.flatten ++ Card.endBytes := by
        have htake := congrArg (List.take (cs.flatten ++ Card.endBytes).length) hrest
        rwa [← List.append_assoc, List.take_left, Content.bytes,
          List.take_append_of_le_length hinside] at htake
      have hread := length?_flatten hinner (c.data.drop (cs.flatten ++ Card.endBytes).length)
      rw [← List.append_assoc, ← hprefix, List.length_take_of_le hinside, List.take_append_drop,
        hdata] at hread
      cases hread

/-- The cards are read from the blocks of the header alone. -/
theorem cards_take {bs : Bytes} {old : Nat} (h : length? bs = some old) :
    cards (bs.take old) = cards bs := by
  obtain ⟨hinner, hold, rest, hrest⟩ := exists_of_length? h
  have hlen : ((cards bs).flatten ++ Card.endBytes).length ≤ old := by
    rw [hold, List.length_append, length_flatten_cards hinner.length]
    refine Nat.le_trans (Nat.le_of_eq ?_) (le_wholeBlocks _)
    rw [Nat.add_mul, Nat.one_mul]
    rfl
  conv_lhs => rw [hrest, ← List.append_assoc, List.take_append, List.take_of_length_le hlen,
    List.append_assoc, cards_flatten hinner]

theorem cards_bytes {c : Content} {old : Nat} (h : length? c.data = some old) :
    cards c.bytes = cards c.data := by
  obtain ⟨hinner, -, rest, hrest⟩ := exists_of_length? h
  conv_lhs => rw [Content.bytes, hrest, List.append_assoc, List.append_assoc, cards_flatten hinner]

end Header

/-! ## Adding -/

/-- Writing a header over a shorter one, behind which the rest was moved, puts it before the
rest. -/
theorem replaceHeader_eq {old : Nat} {header : Bytes} {c : Content} (hne : header ≠ [])
    (hgrow : old ≤ header.length) (hold : old ≤ c.length) :
    replaceHeader old header c = { c.drop old with data := header ++ (c.drop old).data } := by
  unfold replaceHeader
  dsimp only
  split
  · rename_i hsame
    rw [Content.writeAt_start c hne, hsame]
    simp only [Content.drop, Content.mk.injEq, true_and]
    rw [Content.length] at hold ⊢
    omega
  · rename_i hlonger
    by_cases hrest : (c.drop old).length = 0
    · have hdata : c.data.drop header.length = [] ∧ c.data.drop old = [] ∧
          c.hole - (old - c.data.length) = 0 := by
        rw [Content.length_drop, Content.length] at hrest
        rw [List.drop_eq_nil_iff, List.drop_eq_nil_iff]
        omega
      rw [Content.copyAt, if_pos hrest, Content.writeAt_start c hne, hdata.1]
      simp only [Content.drop, hdata.2.1, hdata.2.2, Content.mk.injEq, true_and]
      rw [Content.length_drop] at hrest
      omega
    · have hreach : c.length ≤ header.length + (c.drop old).length := by
        rw [Content.length_drop]
        omega
      have hfront : (c.data.take header.length ++
          List.replicate (header.length - c.data.length) 0).length = header.length := by
        rw [List.length_append, List.length_take, List.length_replicate]
        omega
      rw [Content.copyAt, if_neg hrest, if_pos hreach, Content.writeAt_start _ hne]
      simp only [List.drop_left' hfront, Content.mk.injEq, true_and, Content.length,
        List.length_append, hfront]
      omega

section

variable {c : Content} {old : Nat} {path : String} {new : List Card}

/-- The header of an image with more cards. -/
def longerHeader (c : Content) (new : List Card) : Bytes :=
  Header.assemble (Header.cards c.bytes ++ new.map Card.bytes)

/-- An image with more cards: the longer header, then what followed the old one. -/
def withCards (c : Content) (old : Nat) (new : List Card) : Content :=
  { c.drop old with data := longerHeader c new ++ (c.drop old).data }

theorem inner_longer (h : Header.length? c.bytes = some old) (new : List Card) :
    Header.Inner (Header.cards c.bytes ++ new.map Card.bytes) :=
  (Header.exists_of_length? h).1.append (Header.inner_bytes new)

/-- A header does not get shorter when cards are added. -/
theorem le_length_longerHeader (h : Header.length? c.bytes = some old) (new : List Card) :
    old ≤ (longerHeader c new).length := by
  obtain ⟨-, rfl, -⟩ := Header.exists_of_length? h
  rw [longerHeader, Header.length_assemble (inner_longer h new)]
  refine wholeBlocks_mono (Nat.mul_le_mul_right _ ?_)
  rw [List.length_append]
  omega

theorem longerHeader_ne_nil (c : Content) (new : List Card) : longerHeader c new ≠ [] := by
  intro hnil
  have hend := (List.append_eq_nil_iff.1 (List.append_eq_nil_iff.1 hnil).1).2
  exact absurd hend (by decide)

theorem addCards_eq (h : Header.length? c.bytes = some old) (hlong : old ≤ c.length) :
    addCards path new c = .ok (withCards c old new) := by
  have hdata := h
  rw [Header.length?_bytes] at hdata
  have hcards : Header.cards (c.data.take old) = Header.cards c.bytes := by
    rw [Header.cards_take hdata, Header.cards_bytes hdata]
  unfold addCards
  rw [hdata]
  dsimp only
  rw [if_neg (Nat.not_lt.2 hlong), hcards]
  exact congrArg Except.ok (replaceHeader_eq (longerHeader_ne_nil c new)
    (le_length_longerHeader h new) hlong)

theorem addCards_unreadable (h : Header.length? c.bytes = none) :
    addCards path new c = .error (.protocol (.notAnImage path)) := by
  rw [Header.length?_bytes] at h
  unfold addCards
  rw [h]

theorem addCards_short (h : Header.length? c.bytes = some old) (hshort : c.length < old) :
    addCards path new c = .error (.protocol (.truncatedImage path old c.length)) := by
  rw [Header.length?_bytes] at h
  unfold addCards
  rw [h]
  exact if_pos hshort

theorem bytes_withCards (c : Content) (old : Nat) (new : List Card) :
    (withCards c old new).bytes = longerHeader c new ++ c.bytes.drop old := by
  rw [← Content.bytes_drop, withCards, Content.bytes, List.append_assoc]
  rfl

theorem length?_withCards (h : Header.length? c.bytes = some old) (new : List Card) :
    Header.length? (withCards c old new).bytes = some (longerHeader c new).length := by
  rw [bytes_withCards, longerHeader, Header.length?_assemble (inner_longer h new)]

theorem cards_withCards (h : Header.length? c.bytes = some old) (new : List Card) :
    Header.cards (withCards c old new).bytes = Header.cards c.bytes ++ new.map Card.bytes := by
  rw [bytes_withCards, longerHeader, Header.cards_assemble (inner_longer h new)]

theorem length_withCards (h : Header.length? c.bytes = some old) (new : List Card) :
    c.length ≤ (withCards c old new).length := by
  have hgrow := le_length_longerHeader h new
  rw [← Content.length_bytes c, ← Content.length_bytes (withCards c old new), bytes_withCards,
    List.length_append, List.length_drop]
  omega

theorem drop_withCards (c : Content) (old : Nat) (new : List Card) :
    (withCards c old new).drop (longerHeader c new).length = c.drop old := by
  simp only [withCards, Content.drop, List.drop_left, Content.mk.injEq, true_and,
    List.length_append]
  omega

/-- Cards can be added at once, or one list after the other. -/
theorem addCards_append (path : String) (new more : List Card) (c : Content) :
    (addCards path new c >>= addCards path more) = addCards path (new ++ more) c := by
  cases h : Header.length? c.bytes with
  | none => rw [addCards_unreadable h, addCards_unreadable h]; rfl
  | some old =>
    rcases Nat.lt_or_ge c.length old with hshort | hlong
    · rw [addCards_short h hshort, addCards_short h hshort]; rfl
    · have hheader : longerHeader (withCards c old new) more = longerHeader c (new ++ more) := by
        rw [longerHeader, cards_withCards h, longerHeader, List.map_append, List.append_assoc]
      have hlong' : (longerHeader c new).length ≤ (withCards c old new).length := by
        rw [← Content.length_bytes, bytes_withCards, List.length_append]
        exact Nat.le_add_right _ _
      rw [addCards_eq h hlong, addCards_eq h hlong]
      show addCards path more (withCards c old new) = _
      rw [addCards_eq (length?_withCards h new) hlong', withCards, hheader, drop_withCards]
      rfl

end

/-! ## Files -/

variable {f : Files} {path name : String} {c : Content}

theorem addCardsTo_of_open (h : f.open? path = .ok (name, c)) (new : List Card) :
    addCardsTo path new f = (addCards path new c).map (f.put name) := by
  unfold addCardsTo
  rw [h]

theorem addCardsTo_append (path : String) (new more : List Card) (f : Files) :
    (addCardsTo path new f >>= addCardsTo path more) = addCardsTo path (new ++ more) f := by
  cases h : f.open? path with
  | error e =>
    unfold addCardsTo
    rw [h]
    rfl
  | ok file =>
    obtain ⟨name, c⟩ := file
    rw [addCardsTo_of_open h, addCardsTo_of_open h, ← addCards_append]
    cases hfirst : addCards path new c with
    | error e => rfl
    | ok c' =>
      show addCardsTo path more (f.put name c') = (addCards path more c').map (f.put name)
      rw [addCardsTo_of_open (Files.open?_put h c')]
      cases addCards path more c' with
      | error e => rfl
      | ok c'' => exact congrArg Except.ok (f.put_put name c' c'')

/-- What adding cards to a file can come to: the answer of the call, and the directory after it. -/
inductive Addition (path name : String) (c : Content) (new : List Card) (f : Files) :
    Except Error Files → Files → Prop
  | notAnImage (h : Header.length? c.bytes = none) :
    Addition path name c new f (.error (.protocol (.notAnImage path))) f
  | truncated {old : Nat} (h : Header.length? c.bytes = some old) (hshort : c.bytes.length < old) :
    Addition path name c new f (.error (.protocol (.truncatedImage path old c.bytes.length))) f
  | added {old : Nat} {header : Bytes} {c' : Content} (h : Header.length? c.bytes = some old)
    (hlong : old ≤ c.bytes.length)
    (hheader : Header.Laid (Header.cards c.bytes ++ new.map Card.bytes) header)
    (hbytes : c'.bytes = header ++ c.bytes.drop old)
    (hlength : c.bytes.length ≤ c'.bytes.length)
    (hread : Header.length? c'.bytes = some header.length)
    (hcards : Header.cards c'.bytes = Header.cards c.bytes ++ new.map Card.bytes) :
    Addition path name c new f (.ok (f.put name c')) (f.put name c')

/-- Adding cards puts them after those of the header and keeps what follows it, or it fails and
changes nothing; cards can be added at once, or one list after the other. -/
theorem addCardsTo_outcome (h : f.open? path = .ok (name, c)) (new : List Card) :
    Addition path name c new f (addCardsTo path new f) (f.orKeep (addCardsTo path new f)) ∧
      ∀ more, (addCardsTo path new f >>= addCardsTo path more) =
        addCardsTo path (new ++ more) f := by
  refine ⟨?_, fun more => addCardsTo_append path new more f⟩
  rw [addCardsTo_of_open h]
  cases hread : Header.length? c.bytes with
  | none =>
    rw [addCards_unreadable hread]
    exact .notAnImage hread
  | some old =>
    rcases Nat.lt_or_ge c.length old with hshort | hlong
    · rw [addCards_short hread hshort, ← Content.length_bytes]
      exact .truncated hread (by rwa [Content.length_bytes])
    · rw [addCards_eq hread hlong]
      refine .added hread (by rwa [Content.length_bytes])
        (Header.laid_assemble (inner_longer hread new)) (bytes_withCards c old new) ?_
        (length?_withCards hread new) (cards_withCards hread new)
      rw [Content.length_bytes, Content.length_bytes]
      exact length_withCards hread new

/-- The header of a new image takes one block. -/
theorem length_primary (width height : Nat) :
    (Header.encode (Header.primary width height)).length = 2880 := by
  have hfive : (Header.primary width height).length = 5 := rfl
  rw [Header.encode, Header.length_assemble (Header.inner_bytes _), List.length_map, hfive]
  decide

theorem length_blank (width height : Nat) :
    (blank width height).length =
      (Header.encode (Header.primary width height)).length +
        wholeBlocks (width * height * pixelBytes) := rfl

/-- Forty cards do not fit the block of a header of five, so the data unit of an image of one pixel
is moved by a block. -/
theorem addCardsTo_outcome_grown : ∃ c' : Content,
    addCardsTo "a.fits" (List.replicate 40 (.remark "")) { entries := [("a.fits", blank 1 1)] } =
        .ok { entries := [("a.fits", c')] } ∧
      Header.length? (blank 1 1).bytes = some 2880 ∧ Header.length? c'.bytes = some 5760 ∧
      c'.bytes.drop 5760 = (blank 1 1).bytes.drop 2880 := by
  have hinner := Header.inner_bytes (Header.primary 1 1)
  have hread : Header.length? (blank 1 1).bytes = some 2880 :=
    (Header.length?_assemble hinner _).trans (congrArg some (length_primary 1 1))
  have hcards : Header.cards (blank 1 1).bytes = (Header.primary 1 1).map Card.bytes :=
    Header.cards_assemble hinner _
  have hopen : Files.open? { entries := [("a.fits", blank 1 1)] } "a.fits" =
      .ok ("a.fits", blank 1 1) := rfl
  obtain ⟨houtcome, -⟩ := addCardsTo_outcome hopen (List.replicate 40 (.remark ""))
  generalize hanswer : addCardsTo _ _ _ = answer at houtcome
  generalize Files.orKeep _ answer = after at houtcome
  cases houtcome with
  | notAnImage h =>
    rw [hread] at h
    cases h
  | truncated h hshort =>
    rw [hread] at h
    cases h
    rw [Content.length_bytes, length_blank, length_primary] at hshort
    omega
  | @added old header c' h _ hheader hbytes _ hread' _ =>
    rw [hread] at h
    cases h
    have hlonger : header.length = 5760 := by
      rw [hcards] at hheader
      have hall := hinner.append (Header.inner_bytes (List.replicate 40 (.remark "")))
      rw [hheader.length.unique (Header.laid_assemble hall).length, Header.length_assemble hall,
        List.length_append, List.length_map, List.length_map, List.length_replicate]
      rfl
    refine ⟨c', rfl, hread, ?_, ?_⟩
    · rw [hread', hlonger]
    · rw [hbytes, ← hlonger, List.drop_left]

end Image

end Readout
