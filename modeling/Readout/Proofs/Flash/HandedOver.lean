import Mathlib.Algebra.GroupWithZero.Nat
import Readout.Proofs.Board.Traffic
import Readout.Proofs.Flash.Pages
import Readout.Proofs.Flash.Parts
import Readout.Proofs.Link.Added
/-!
# What a dump hands over

A dump asks for full pages and then for the words that remain.  Whatever the link does, each answer
is handed over as it comes: its first whole words, at most as many as were asked for.  What a dump
has read is what it has handed over, also if it fails.

* `asked`, `readbacks` and `handed` are what a history asks the flash for, what it takes from the
  firmware port, and what it hands over; `requests` are the numbers of words that a dump asks for;
* `Handed` is how they go together in a run, `adds_request` one request, `adds_dumpPages` the loop;
* `dump_handsOver` says it of every dump, `dump_refused` which dumps are refused.
-/

namespace Readout

/-! ## Reading in a history -/

/-- The number of words that an event asks the flash for. -/
def Event.asked? : Event → Option Nat
  | sent port data _ =>
    if port = commandPort then
      (Board.understand (Word.decode data)).bind fun c =>
        if c.name = Command.readFlash then some c.parameter.toNat else none
    else none
  | _ => none

/-- The datagram that an event takes from the firmware port. -/
def Event.page? : Event → Option Bytes
  | received port _ (.ok data) => if port = firmwarePort then some data else none
  | _ => none

@[simp] theorem Event.asked?_received (port : Port) (limit : Option Duration)
    (result : Except LinkError Bytes) : (received port limit result).asked? = none := rfl

@[simp] theorem Event.asked?_stored (data : Bytes) : (stored data).asked? = none := rfl

/-- The numbers of words that a history asks the flash for, in order. -/
def asked (es : List Event) : List Nat := es.filterMap Event.asked?

/-- The datagrams that a history takes from the firmware port, in order. -/
def readbacks (es : List Event) : List Bytes := es.filterMap Event.page?

/-- The bytes that a history hands over. -/
def handed (es : List Event) : Bytes := es.flatMap Event.bytes

@[simp] theorem asked_append (es es' : List Event) : asked (es ++ es') = asked es ++ asked es' :=
  List.filterMap_append

@[simp] theorem readbacks_append (es es' : List Event) :
    readbacks (es ++ es') = readbacks es ++ readbacks es' := List.filterMap_append

@[simp] theorem handed_append (es es' : List Event) :
    handed (es ++ es') = handed es ++ handed es' := List.flatMap_append

@[simp] theorem asked_cons (e : Event) (es : List Event) :
    asked (e :: es) = e.asked?.toList ++ asked es := by
  rw [asked, List.filterMap_cons]
  cases e.asked? <;> rfl

@[simp] theorem readbacks_cons (e : Event) (es : List Event) :
    readbacks (e :: es) = e.page?.toList ++ readbacks es := by
  rw [readbacks, List.filterMap_cons]
  cases e.page? <;> rfl

@[simp] theorem handed_cons (e : Event) (es : List Event) :
    handed (e :: es) = e.bytes ++ handed es := List.flatMap_cons

@[simp] theorem asked_nil : asked [] = [] := rfl
@[simp] theorem readbacks_nil : readbacks [] = [] := rfl
@[simp] theorem handed_nil : handed [] = [] := rfl

theorem handed_eq_nil {es : List Event} (h : ∀ e ∈ es, e.bytes = []) : handed es = [] :=
  List.flatMap_eq_nil_iff.2 h

/-- An event has nothing to do with reading. -/
structure Event.Apart (e : Event) : Prop where
  asked : e.asked? = none
  page : e.page? = none
  bytes : e.bytes = []

theorem asked_apart {es : List Event} (h : ∀ e ∈ es, e.Apart) : asked es = [] := by
  rw [asked, List.filterMap_eq_nil_iff]
  intro e he
  exact (h e he).asked

theorem readbacks_apart {es : List Event} (h : ∀ e ∈ es, e.Apart) : readbacks es = [] := by
  rw [readbacks, List.filterMap_eq_nil_iff]
  intro e he
  exact (h e he).page

theorem handed_apart {es : List Event} (h : ∀ e ∈ es, e.Apart) : handed es = [] :=
  handed_eq_nil fun e he => (h e he).bytes

/-- The exchange of any command but a read has nothing to do with reading. -/
theorem Event.OfExchange.apart {c : Command} {data : Bytes} {e : Event}
    (hframe : c.frame = .ok data) (hname : c.heard.name ≠ Command.readFlash)
    (h : e.OfExchange data) : e.Apart := by
  cases h with
  | sent result =>
    refine ⟨?_, rfl, rfl⟩
    simp [Event.asked?, Board.understand_frame hframe, hname]
  | received limit result => cases result <;> exact ⟨rfl, rfl, rfl⟩

namespace Flash

variable {σ : Type} [Link σ] {limit : Option Duration}

/-- The exchange of a command that is heard as something else than a read. -/
theorem only_apart {c : Command} (hname : Command.isName c.name = true)
    (hheard : Word.ascii (Word.ofAscii c.name) ≠ Command.readFlash) :
    Only Event.Apart (Exchange.execute limit c : Host σ Unit) := by
  obtain ⟨data, hframe⟩ := Command.exists_frame hname
  apply Only.mono (only_execute hframe)
  intro e he
  exact he.apart hframe hheard

theorem only_clear : Only Event.Apart (clear limit : Host σ Unit) := by
  apply only_apart
  · decide
  · decide

/-- The address of a page is set, also if it is the sentinel of the command encoding. -/
theorem only_seek (a : UInt32) : Only Event.Apart (seek limit a : Host σ Unit) := by
  apply only_apart
  · show Command.isName Command.setAddress = true
    decide
  · show Word.ascii (Word.ofAscii Command.setAddress) ≠ Command.readFlash
    decide

/-! ## Requests and answers -/

/-- What is handed over of an answer: its first whole words, as many as were asked for. -/
def taken (ask : Nat) (answer : Bytes) : Bytes := answer.take (4 * min (answer.length / 4) ask)

@[simp] theorem length_taken (ask : Nat) (answer : Bytes) :
    (taken ask answer).length = 4 * min (answer.length / 4) ask := by
  rw [taken, List.length_take]
  omega

/-- The numbers of words that a dump asks for: full pages, then what remains. -/
def requests (words : Nat) : List Nat :=
  List.replicate (words / pageWords) pageWords ++
    if words % pageWords = 0 then [] else [words % pageWords]

theorem sum_requests (words : Nat) : (requests words).sum = words := by
  have hsplit := Nat.div_add_mod' words pageWords
  rw [requests, List.sum_append, List.sum_replicate_nat]
  split
  · rename_i h
    rw [List.sum_nil]
    omega
  · rw [List.sum_singleton]
    exact hsplit

example : requests 130 = [64, 64, 2] := by decide

/-- Requests that are not answered hand over nothing. -/
theorem zipWith_taken_append {asks : List Nat} (asks' : List Nat) :
    ∀ {answers : List Bytes}, answers.length ≤ asks.length →
      List.zipWith taken (asks ++ asks') answers = List.zipWith taken asks answers := by
  induction asks with
  | nil =>
    intro answers hle
    obtain rfl : answers = [] := List.eq_nil_of_length_eq_zero (Nat.le_zero.1 hle)
    simp
  | cons ask asks ih =>
    intro answers hle
    cases answers with
    | nil => rfl
    | cons answer answers =>
      rw [List.cons_append, List.zipWith_cons_cons, List.zipWith_cons_cons, ih (by simpa using hle)]

/-- As many words are handed over as were asked for, exactly if no answer is too short. -/
theorem handed_eq_iff {asks : List Nat} : ∀ {answers : List Bytes} {n : Nat},
    answers.length = asks.length →
      (List.zipWith taken asks answers).flatten.length = 4 * n →
      n ≤ asks.sum ∧ (n = asks.sum ↔ ∀ p ∈ asks.zip answers, 4 * p.1 ≤ p.2.length) := by
  induction asks with
  | nil =>
    intro answers n hlen hn
    simp only [List.zipWith_nil_left, List.flatten_nil, List.length_nil] at hn
    obtain rfl : n = 0 := by omega
    simp
  | cons ask asks ih =>
    intro answers n hlen hn
    cases answers with
    | nil => simp at hlen
    | cons answer answers =>
      simp only [List.zipWith_cons_cons, List.flatten_cons, List.length_append, length_taken] at hn
      obtain ⟨k, rfl⟩ : ∃ k, n = min (answer.length / 4) ask + k :=
        ⟨n - min (answer.length / 4) ask, by omega⟩
      obtain ⟨hle, hiff⟩ := ih (by simpa using hlen) (show _ = 4 * k by omega)
      simp only [List.sum_cons, List.zip_cons_cons, List.forall_mem_cons, ← hiff]
      omega

/-! ## Runs that read -/

/-- How a run goes that makes the requests `asks`, at most.  It hands over what answers them; a
value is the number of words handed over, when all are answered.  It fails as the link does, or for
a reason in `past` when all are answered. -/
structure Handed (asks : List Nat) (past : Error → Prop) (r : Except Stop Nat)
    (es : List Event) : Prop where
  requested : asked es <+: asks
  answered : (readbacks es).length ≤ (asked es).length
  bytes : handed es = (List.zipWith taken asks (readbacks es)).flatten
  value : ∀ n, r = .ok n → (readbacks es).length = asks.length ∧ (handed es).length = 4 * n
  fails : ∀ e, r = .error (.error e) →
    (∃ cause, e = .ofLink cause) ∨ (readbacks es).length = asks.length ∧ past e

namespace Handed

variable {asks asks' : List Nat} {past : Error → Prop} {r : Except Stop Nat} {es es' : List Event}

/-- What comes before the requests and has nothing to do with reading. -/
theorem after (h : Handed asks past r es') (hes : ∀ e ∈ es, e.Apart) :
    Handed asks past r (es ++ es') := by
  obtain ⟨hasked, hanswered, hbytes, hvalue, hfails⟩ := h
  refine ⟨?_, ?_, ?_, ?_, ?_⟩
  all_goals simpa [asked_apart hes, readbacks_apart hes, handed_apart hes]

/-- A run that failed before its first request. -/
theorem of_apart {e : Stop} (hes : ∀ e ∈ es, e.Apart) (he : OfLink (.error e : Except Stop Nat)) :
    Handed asks past (.error e) es where
  requested := by simp [asked_apart hes]
  answered := by simp [readbacks_apart hes]
  bytes := by simp [readbacks_apart hes, handed_apart hes]
  value _ h := by cases h
  fails e' h := by
    cases h
    exact .inl he

/-- A run that failed as the link does may have been about to make other requests. -/
theorem extend {e : Stop} (h : Handed asks (fun _ => False) (.error e) es) (asks' : List Nat) :
    Handed (asks ++ asks') past (.error e) es where
  requested := h.requested.trans (List.prefix_append _ _)
  answered := h.answered
  bytes := by
    have hle := Nat.le_trans h.answered h.requested.length_le
    rw [h.bytes, zipWith_taken_append asks' hle]
  value _ h := by cases h
  fails e' he := (h.fails e' he).imp_right fun hpast => hpast.2.elim

/-- Requests after requests that were all answered. -/
theorem append {n : Nat} {past' : Error → Prop} (h : Handed asks past' (.ok n) es)
    (h' : Handed asks' past r es') : Handed (asks ++ asks') past (r.map (n + ·)) (es ++ es') := by
  obtain ⟨hall, hlen⟩ := h.value n rfl
  have hasked : asked es = asks :=
    h.requested.eq_of_length_le (by rw [← hall]; exact h.answered)
  refine ⟨?_, ?_, ?_, fun m hm => ?_, fun e he => ?_⟩
  · rw [asked_append, hasked]
    exact (List.prefix_append_right_inj asks).2 h'.requested
  · have := h.answered
    have := h'.answered
    simp only [readbacks_append, asked_append, List.length_append]
    omega
  · rw [handed_append, readbacks_append, List.zipWith_append hall.symm, List.flatten_append,
      ← h.bytes, ← h'.bytes]
  · cases r with
    | error e => cases hm
    | ok k =>
      cases hm
      obtain ⟨hall', hlen'⟩ := h'.value k rfl
      simp only [readbacks_append, handed_append, List.length_append]
      omega
  · cases r with
    | ok k => cases he
    | error e' =>
      cases he
      refine (h'.fails e rfl).imp_right fun hpast => ⟨?_, hpast.2⟩
      rw [readbacks_append, List.length_append, List.length_append, hall, hpast.1]

theorem mono {past' : Error → Prop} (h : Handed asks past r es) (hpast : ∀ e, past e → past' e) :
    Handed asks past' r es :=
  ⟨h.requested, h.answered, h.bytes, h.value, fun e he =>
    (h.fails e he).imp_right fun hp => ⟨hp.1, hpast e hp.2⟩⟩

end Handed

omit [Link σ] in
/-- What follows on a run that has nothing to do with reading. -/
theorem adds_after {α : Type} {asks : List Nat} {past : Error → Prop} {m : Host σ α}
    {f : α → Host σ Nat} (hm : Only Event.Apart m) (hf : ∀ a, Adds (f a) (Handed asks past)) :
    Adds (m >>= f) (Handed asks past) := by
  apply Adds.bind hm hf
  · intro a r es es' hes h
    exact h.after hes.1
  · intro e es hes
    exact .of_apart hes.1 hes.2.of_error

/-! ## One request -/

/-- How the answer to a request is taken, and what it adds. -/
inductive Answering (limit : Option Duration) (count : Nat) : Except Stop Nat → List Event → Prop
  | done (data : Bytes) : Answering limit count (.ok (min (data.length / 4) count))
    [.received firmwarePort limit (.ok data), .stored (taken count data)]
  | failed (cause : LinkError) : Answering limit count (.error (.error (.ofLink cause)))
    [.received firmwarePort limit (.error cause)]
  | never : Answering limit count (.error .never) []

theorem adds_answer (count : Nat) :
    Adds (Host.receive firmwarePort limit >>= handOver count : Host σ Nat)
      (Answering limit count) := by
  apply Adds.bind (Q := fun data r es => r = .ok (min (data.length / 4) count) ∧
    es = [.stored (taken count data)]) (adds_receive firmwarePort limit)
  · intro data j
    rw [handOver, Nat.mul_comm]
    exact ⟨[_], Array.toList_push, rfl, rfl⟩
  · rintro data r es es' ⟨⟩ ⟨rfl, rfl⟩
    exact .done data
  · rintro e es ⟨⟩
    · exact .failed _
    · exact .never

/-- A request hands over what answers it. -/
theorem adds_request {count : Nat} (hcount : count < 256) :
    Adds (request limit count : Host σ Nat) (Handed [count] fun _ => False) := by
  obtain ⟨frame, hframe⟩ := Command.frame_read (UInt8.ofNat count)
  have hask : ∀ result, (Event.sent commandPort frame result).asked? = some count := by
    intro result
    simp only [Event.asked?, if_true, Board.understand_frame hframe, Command.heard_read,
      Option.bind_some, UInt8.toNat_ofNat', Option.some.injEq]
    omega
  have hrun : (request limit count : Host σ Nat) = Host.send commandPort frame >>= fun _ =>
      Host.receive firmwarePort limit >>= handOver count := by
    rw [request, readBack, Exchange.command, hframe, Host.ofExcept_ok, pure_bind, bind_assoc]
  rw [hrun]
  apply Adds.bind (Q := fun _ => Answering limit count) (adds_send commandPort frame)
  · intro n
    exact adds_answer count
  · rintro n r es es' ⟨⟩ hanswer
    cases hanswer <;> refine ⟨?_, ?_, ?_, ?_, ?_⟩ <;> simp [hask, Event.page?, Event.bytes]
  · rintro e es hsend
    cases hsend <;> refine ⟨?_, ?_, ?_, ?_, ?_⟩ <;> simp [hask, Event.page?, Event.bytes]

/-! ## Pages -/

variable {start : UInt32}

/-- Why a dump can fail when all its full pages are read: they end with the address space, so that
there is no address to set behind them. -/
def AtTop (start : UInt32) (pages : Nat) (e : Error) : Prop :=
  start.toNat + pageBytes * pages = 2 ^ 32 ∧ e = .invalidParameter (.pagePastEnd pages start)

/-- The full pages of a dump are requested one after the other. -/
theorem adds_dumpPages (n : Nat) : ∀ i, start.toNat + pageBytes * (i + n) ≤ 2 ^ 32 →
    Adds (dumpPages limit start i n : Host σ Nat)
      (Handed (List.replicate n pageWords) (AtTop start (i + n))) := by
  induction n with
  | zero =>
    intro i _
    apply Adds.pure
    constructor <;> simp
  | succ n ih =>
    intro i hspan
    have hrest : Adds (dumpRest limit start (i + 1) n : Host σ Nat)
        (Handed (List.replicate n pageWords) (AtTop start (i + (n + 1)))) := by
      rw [dumpRest]
      rcases Nat.lt_or_ge (start.toNat + pageBytes * (i + 1)) (2 ^ 32) with hnext | hpast
      · rw [pageAddress_eq_ok hnext, Host.ofExcept_ok, pure_bind,
          show i + (n + 1) = i + 1 + n by omega]
        exact adds_after (only_seek _) fun _ => ih (i + 1)
          (by rw [show i + 1 + n = i + (n + 1) by omega]; exact hspan)
      · rw [pageAddress_eq_error hpast]
        -- only the page behind the last one can be past the end
        obtain rfl : n = 0 := by
          simp only [pageBytes] at hspan hpast
          omega
        have htop := Nat.le_antisymm hspan hpast
        apply Adds.fail
        constructor <;> simp [AtTop, htop]
    rw [dumpPages_succ]
    apply Adds.bind (adds_request (by decide))
    · intro read
      exact hrest.map (read + ·)
    · rintro read r es es' h ⟨r', rfl, h'⟩
      exact h.append h'
    · intro e es h
      exact h.extend (List.replicate n pageWords)

/-- An accepted dump makes its requests. -/
theorem adds_dumpParts {words : Nat} (hspan : start.toNat + pageBytes * pageCount words ≤ 2 ^ 32) :
    Adds (dumpParts limit start words : Host σ Nat) (Handed (requests words)
      fun e => words % pageWords = 0 ∧ AtTop start (words / pageWords) e) := by
  have hfull : words / pageWords ≤ pageCount words := by
    simp only [pageCount, groups, pageWords]
    omega
  have hpages : Adds (dumpPages limit start 0 (words / pageWords) : Host σ Nat)
      (Handed _ (AtTop start (0 + words / pageWords))) :=
    adds_dumpPages _ 0 (by simp only [pageBytes] at hspan ⊢; omega)
  rw [Nat.zero_add] at hpages
  apply adds_after only_clear
  intro _
  apply adds_after (only_seek start)
  intro _
  by_cases hrem : words % pageWords = 0
  · simp only [hrem, if_true, bind_pure, requests, List.append_nil]
    apply hpages.mono
    intro r es h
    exact h.mono fun e he => ⟨trivial, he⟩
  · simp only [hrem, if_false, requests]
    have hlast : words % pageWords < 256 :=
      Nat.lt_trans (Nat.mod_lt words (by decide : 0 < pageWords)) (by decide)
    apply Adds.bind hpages
    · intro read
      exact (adds_request hlast).map (read + ·)
    · rintro read r es es' h ⟨r', rfl, h'⟩
      exact (h.append h').mono fun e he => he.elim
    · intro e es h
      apply Handed.extend
      apply h.mono
      intro e he
      -- the words that remain lie on a page behind the full ones
      have := he.1
      simp only [pageCount, groups, pageBytes, pageWords] at hspan hrem this
      omega

/-! ## Dumps -/

theorem dump_fits {words : Nat} (hspan : start.toNat + pageBytes * pageCount words ≤ 2 ^ 32) :
    (dump limit start words : Host σ Nat) = dumpParts limit start words := by
  have hcount : max 1 (groups pageWords words) = pageCount words := rfl
  rw [dump_eq, checkSpan_eq, hcount, if_pos hspan, Host.ofExcept_ok, pure_bind]

/-- A dump whose pages do not fit is refused before anything is done. -/
theorem dump_misfit {words : Nat} (h : 2 ^ 32 < start.toNat + pageBytes * pageCount words)
    (j : Journal σ) :
    ∃ cause, dump limit start words j = (.error (.error (.invalidParameter cause)), j) := by
  have hcount : max 1 (groups pageWords words) = pageCount words := rfl
  rw [dump_eq, checkSpan_eq, hcount, if_neg (Nat.not_le.2 h)]
  exact ⟨_, rfl⟩

/-- A dump that fits makes its requests. -/
theorem adds_dump {words : Nat} (hspan : start.toNat + pageBytes * pageCount words ≤ 2 ^ 32) :
    Adds (dump limit start words : Host σ Nat) (Handed (requests words)
      fun e => words % pageWords = 0 ∧ AtTop start (words / pageWords) e) := by
  rw [dump_fits hspan]
  exact adds_dumpParts hspan

/-- A dump that fits is refused only at the top of the address space, when all is read. -/
theorem dump_refused {words : Nat} (hspan : start.toNat + pageBytes * pageCount words ≤ 2 ^ 32)
    {j : Journal σ} {cause : InvalidParameter}
    (h : (dump limit start words j).1 = .error (.error (.invalidParameter cause))) :
    AtTop start (words / pageWords) (.invalidParameter cause) ∧
      ∃ new, (dump limit start words j).2.events.toList = j.events.toList ++ new ∧
        (readbacks new).length = words / pageWords := by
  obtain ⟨new, hnew, hhanded⟩ := adds_dump hspan j
  obtain ⟨link, hlink⟩ | ⟨hall, hrem, htop⟩ := hhanded.fails _ h
  · cases link <;> cases hlink
  · refine ⟨htop, new, hnew, ?_⟩
    rw [hall, requests, if_pos hrem, List.append_nil, List.length_replicate]

/-- **What a dump hands over, on every link.**  It makes its requests in order and hands over the
first whole words of what answers them, as many as were asked for, also if it fails.  Its value is
the number of words handed over; they are as many as were wanted exactly if no answer was too
short. -/
theorem dump_handsOver (limit : Option Duration) (start : UInt32) (words : Nat) (j : Journal σ) :
    ∃ new, (dump limit start words j).2.events.toList = j.events.toList ++ new ∧
      asked new <+: requests words ∧ (readbacks new).length ≤ (asked new).length ∧
      handed new = (List.zipWith taken (requests words) (readbacks new)).flatten ∧
      ∀ n, (dump limit start words j).1 = .ok n →
        (readbacks new).length = (requests words).length ∧ (handed new).length = 4 * n ∧
          n ≤ words ∧
          (n = words ↔ ∀ p ∈ (requests words).zip (readbacks new), 4 * p.1 ≤ p.2.length) := by
  rcases Nat.lt_or_ge (2 ^ 32) (start.toNat + pageBytes * pageCount words) with hmisfit | hspan
  · obtain ⟨cause, hrun⟩ := dump_misfit hmisfit j
    rw [hrun]
    exact ⟨[], (List.append_nil _).symm, by simp, by simp, by simp, fun n hn => by cases hn⟩
  · obtain ⟨new, hnew, h⟩ := adds_dump hspan j
    refine ⟨new, hnew, h.requested, h.answered, h.bytes, fun n hn => ?_⟩
    obtain ⟨hall, hlen⟩ := h.value n hn
    have hcount := handed_eq_iff hall (by rw [← h.bytes]; exact hlen)
    rw [sum_requests] at hcount
    exact ⟨hall, hlen, hcount⟩

end Flash

end Readout
