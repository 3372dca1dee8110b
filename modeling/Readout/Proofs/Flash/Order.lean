import Readout.Proofs.Command.Frames
import Readout.Proofs.Flash.ImageWords
import Readout.Proofs.Flash.Parts
import Readout.Proofs.Link.Script
/-!
# The order of datagrams

What an operation on the flash sends is fixed by its arguments, whatever the link does; a link can
only make it end early.  Every command is acknowledged before the next datagram is sent, and a page
is read back as it was written before the next page begins.

* `writeScript` and `imageScript` are the datagrams of the two operations;
* `write_order` is what holds of every run, on every link.
-/

namespace Readout.Flash

/-! ## Scripts -/

/-- A command of the flash: its word, and an address if it takes one. -/
def commandTurn (ws : List Word) (awaits : Awaited) : Turn :=
  { port := commandPort, data := Word.encode ws, awaits }

def clearTurn : Turn := commandTurn [0x00455242] .marker
def seekTurn (a : UInt32) : Turn := commandTurn [0x00455341, a] .marker
def eraseTurn : Turn := commandTurn [0x00455345] .marker
def commitTurn : Turn := commandTurn [0x40455752] .marker

/-- A read is answered by the words of the page. -/
def readTurn (page : List Word) : Turn := commandTurn [0x40455244] (.words page)

/-- The words of a page go to the firmware port. -/
def loadTurn (page : List Word) : Turn :=
  { port := firmwarePort, data := Word.encode page, awaits := .nothing }

/-- Page `k` of an operation from `start` on. -/
def pageScript (start : UInt32) (words : List Word) (k : Nat) : List Turn :=
  [seekTurn (wordAddress start (pageWords * k)), loadTurn (pageAt words k), commitTurn,
    readTurn (pageAt words k)]

/-- What an operation on words sends. -/
def writeScript (words : List Word) (start : UInt32) (erasing : Bool) : List Turn :=
  clearTurn :: seekTurn start :: (if erasing then [eraseTurn] else []) ++
    (List.range (pageCount words.length)).flatMap (pageScript start words)

/-- The round of page `k` of an image: a sector that begins with it is erased. -/
def roundScript (start : UInt32) (words : List Word) (k : Nat) : List Turn :=
  seekTurn (wordAddress start (pageWords * k)) ::
    (if (wordAddress start (pageWords * k)).toNat % sectorBytes = 0 then [eraseTurn] else []) ++
      pageScript start words k

/-- What an operation on an image sends. -/
def imageScript (image : Bytes) (pages : Nat) (start : UInt32) : List Turn :=
  clearTurn :: (List.range pages).flatMap (roundScript start (imageWords image))

/-! ## Primitives -/

variable {σ : Type} [Link σ] {limit : Option Duration}

theorem follows_clear : Follows (clear limit : Host σ Unit) [clearTurn] :=
  follows_execute rfl

theorem follows_seek {a : UInt32} (ha : a ≠ Command.absentWord) :
    Follows (seek limit a : Host σ Unit) [seekTurn a] :=
  follows_execute (Command.frame_seek ha)

theorem follows_erase : Follows (erase limit : Host σ Unit) [eraseTurn] :=
  follows_execute rfl

theorem follows_commitPage : Follows (commitPage limit : Host σ Unit) [commitTurn] :=
  follows_execute rfl

theorem follows_eraseIf (p : Prop) [Decidable p] :
    Follows (if p then erase limit else pure () : Host σ Unit) (if p then [eraseTurn] else []) := by
  split
  · exact follows_erase
  · exact .pure ()

/-- How a page ends once it was read back. -/
def judge (a : UInt32) (sector index : Nat) (page : List Word) (read : Bytes) : Host σ Unit :=
  match compare a sector index page (Word.decode read) with
  | none => pure ()
  | some found => Host.fail (.verifyMismatch found)

/-- A page passes only if it is read back as it was written. -/
theorem waits_judge (a : UInt32) (sector index : Nat) (page : List Word) :
    Waits (.words page)
      (Host.receive firmwarePort limit >>= judge a sector index page : Host σ Unit) := by
  intro j
  rw [Host.bind_apply, Host.receive_apply]
  rcases Link.receive firmwarePort limit j.link with ⟨r, link⟩
  cases r with
  | done data =>
    simp only [judge, compare]
    by_cases hsame : Word.decode (data.take maxDatagram) = page
    · rw [if_pos hsame]
      refine ⟨[_], Array.toList_push, List.forall_mem_singleton.2 rfl, fun _ => ?_⟩
      exact ⟨_, _, List.mem_singleton.2 rfl, hsame⟩
    · rw [if_neg hsame]
      exact ⟨[_], Array.toList_push, List.forall_mem_singleton.2 rfl, fun h => (by cases h)⟩
  | failed cause =>
    exact ⟨[_], Array.toList_push, List.forall_mem_singleton.2 rfl, fun h => (by cases h)⟩
  | never => exact ⟨[], (List.append_nil _).symm, fun _ h => (by cases h), fun h => (by cases h)⟩

/-! ## Pages -/

variable {start : UInt32}

theorem follows_programPage {k : Nat} (hspan : start.toNat + pageBytes * (k + 1) ≤ 2 ^ 32)
    (words : List Word) (sector : Nat) :
    Follows (programPage limit (wordAddress start (pageWords * k)) sector k (pageAt words k) :
      Host σ Unit) (pageScript start words k) := by
  have hread : Follows (readBack limit pageWords >>=
      judge (wordAddress start (pageWords * k)) sector k (pageAt words k) : Host σ Unit)
      [readTurn (pageAt words k)] := by
    rw [readBack, bind_assoc]
    exact follows_ask (t := readTurn (pageAt words k)) fun _ => waits_judge _ sector k _
  exact .bind (follows_seek (wordAddress_ne_absentWord hspan)) fun _ =>
    .bind (follows_send _ _) fun _ => .bind follows_commitPage fun _ => hread

theorem map_range_from {α : Type} (f : Nat → α) (i n : Nat) :
    (List.range (n + 1)).map (fun k => f (i + k)) =
      f i :: (List.range n).map fun k => f (i + 1 + k) := by
  rw [List.range_succ_eq_map, List.map_cons, List.map_map]
  congr 1
  exact List.map_congr_left fun k _ => congrArg f (Nat.succ_add_eq_add_succ i k).symm

theorem flatMap_range_from {α : Type} (f : Nat → List α) (i n : Nat) :
    (List.range (n + 1)).flatMap (fun k => f (i + k)) =
      f i ++ (List.range n).flatMap fun k => f (i + 1 + k) := by
  simp only [List.flatMap_def, map_range_from, List.flatten_cons]

theorem follows_programPages (words : List Word) (n : Nat) :
    ∀ i, start.toNat + pageBytes * (i + n) ≤ 2 ^ 32 →
      Follows (programPages limit start i ((List.range n).map fun k => pageAt words (i + k)) :
        Host σ Unit) ((List.range n).flatMap fun k => pageScript start words (i + k)) := by
  induction n with
  | zero => exact fun i _ => .pure ()
  | succ n ih =>
    intro i hspan
    have hspan₁ : start.toNat + pageBytes * (i + 1) ≤ 2 ^ 32 := span_mono (by omega) hspan
    have hnext : i + 1 + n = i + (n + 1) := Nat.add_right_comm i 1 n
    have hrest := ih (i + 1) (by rw [hnext]; exact hspan)
    rw [map_range_from (pageAt words), flatMap_range_from, programPages, page_starts hspan₁,
      Host.ofExcept_ok, pure_bind]
    exact .bind (follows_programPage hspan₁ words _) fun _ => hrest

theorem follows_imageRound {k : Nat} (hspan : start.toNat + pageBytes * (k + 1) ≤ 2 ^ 32)
    (total last : Nat) (words : List Word) :
    Follows (imageRound limit start (wordAddress start (pageWords * k)) total k last
      (pageAt words k) : Host σ Unit) (roundScript start words k) := by
  have hopen : Follows (openPage limit (wordAddress start (pageWords * k)) : Host σ Unit)
      ([seekTurn (wordAddress start (pageWords * k))] ++ _) :=
    .bind (follows_seek (wordAddress_ne_absentWord hspan)) fun _ => follows_eraseIf _
  refine .bind hopen fun _ => ?_
  rw [← List.append_nil (pageScript start words k)]
  exact .bind (follows_programPage hspan words _) fun _ => .note rfl

theorem follows_writeImagePages (image : Bytes) (total n : Nat) :
    ∀ i last, start.toNat + pageBytes * (i + n) ≤ 2 ^ 32 →
      Follows (writeImagePages limit start total i last n (image.drop (pageBytes * i)) :
        Host σ Unit)
        ((List.range n).flatMap fun k => roundScript start (imageWords image) (i + k)) := by
  induction n with
  | zero => exact fun i _ _ => .pure ()
  | succ n ih =>
    intro i last hspan
    have hspan₁ : start.toNat + pageBytes * (i + 1) ≤ 2 ^ 32 := span_mono (by omega) hspan
    have hnext : i + 1 + n = i + (n + 1) := Nat.add_right_comm i 1 n
    have hrest := fun last => ih (i + 1) last (by rw [hnext]; exact hspan)
    rw [flatMap_range_from, writeImagePages_succ, page_starts hspan₁, Host.ofExcept_ok, pure_bind,
      imagePage_drop, List.drop_drop]
    exact .bind (follows_imageRound hspan₁ _ _ _) fun _ => hrest _

/-! ## Operations -/

theorem follows_write (words : List Word) (start : UInt32) (erasing : Bool) :
    Follows (write limit words start erasing : Host σ Nat) (writeScript words start erasing) := by
  rw [write_eq]
  split
  · exact .fail _ _
  refine .of_check _ fun _ hcheck => ?_
  have hspan := (checkSpan_eq_ok_iff (pageCount_pos _)).1 hcheck
  have hstart := start_ne_absentWord (pageCount_pos _) hspan
  have hpages : Follows (programPages limit start 0
      ((List.range (pageCount words.length)).map fun k => pageAt words (0 + k)) : Host σ Unit) _ :=
    follows_programPages words _ 0 (by rw [Nat.zero_add]; exact hspan)
  simp only [Nat.zero_add] at hpages
  rw [← pagesOf_eq] at hpages
  have hall : Follows (writeParts limit words start erasing : Host σ Nat)
      ([clearTurn] ++ ([seekTurn start] ++ ((if erasing then [eraseTurn] else []) ++
        ((List.range (pageCount words.length)).flatMap (pageScript start words) ++ [])))) :=
    .bind follows_clear fun _ => .bind (follows_seek hstart) fun _ =>
      .bind (follows_eraseIf _) fun _ => .bind hpages fun _ => .pure _
  rw [List.append_nil] at hall
  exact hall

theorem follows_writeImage (image : Bytes) (map : FirmwareMap) (start : UInt32) :
    Follows (writeImage limit image map start : Host σ Nat)
      (imageScript image map.pages start) := by
  rw [writeImage_eq]
  split
  · exact .fail _ _
  refine .of_check _ fun _ hcheck => ?_
  have hspan := (checkSpan_eq_ok_iff map.pages_pos).1 hcheck
  have hpages : Follows (writeImagePages limit start map.pages 0 0 map.pages
      (image.drop (pageBytes * 0)) : Host σ Unit) _ :=
    follows_writeImagePages image map.pages map.pages 0 0 (by rw [Nat.zero_add]; exact hspan)
  simp only [Nat.zero_add] at hpages
  have hall : Follows (imageParts limit image map.pages start : Host σ Nat)
      ([clearTurn] ++ ([] ++
        ((List.range map.pages).flatMap (roundScript start (imageWords image)) ++ []))) :=
    .bind follows_clear fun _ => .bind (.note rfl) fun _ => .bind hpages fun _ => .pure _
  rw [List.append_nil] at hall
  exact hall

/-- **No step overtakes its acknowledgement.**  On every link, what an operation sends is the
beginning of its script, once each and in order; before it sends on, the answer to its last datagram
has come; and it has a value only when everything was sent and answered. -/
theorem write_order (limit : Option Duration) (j : Journal σ) :
    (∀ words start erasing, ∃ new,
      (write limit words start erasing j).2.events.toList = j.events.toList ++ new ∧
        InOrder (writeScript words start erasing) (write limit words start erasing j).1.isOk
          new) ∧
    ∀ image map start, ∃ new,
      (writeImage limit image map start j).2.events.toList = j.events.toList ++ new ∧
        InOrder (imageScript image map.pages start) (writeImage limit image map start j).1.isOk
          new := by
  constructor
  · intro words start erasing
    have hfollows : Follows (write limit words start erasing : Host σ Nat) _ :=
      follows_write words start erasing
    obtain ⟨new, hnew, hplays⟩ := hfollows j
    exact ⟨new, hnew, hplays.inOrder⟩
  · intro image map start
    have hfollows : Follows (writeImage limit image map start : Host σ Nat) _ :=
      follows_writeImage image map start
    obtain ⟨new, hnew, hplays⟩ := hfollows j
    exact ⟨new, hnew, hplays.inOrder⟩

end Readout.Flash
