import Readout.Proofs.Flash.Write
import Readout.Station
/-!
# Boot pages are replayed

A configuration that is stored in a boot page is what the board replays from that page when it
starts: the blocks of the message are found again, and the erased words behind them end the reading.

* `replay_frame`: what is replayed from the blocks of a message and erased words behind them;
* `Station.storeRegisters_replay`: what is replayed after the registers were stored in a page.
-/

namespace Readout

namespace Flash

namespace BootPage

/-! ## Headers -/

theorem toNat_header {count : Nat} (h : count < 256) (port : Port) :
    (header count port).toNat = 205 * 16777216 + count * 65536 + port.toNat := by
  have hport := port.toNat_lt
  have hmark : headerMark.toNat = 205 := rfl
  have hcount : (UInt8.ofNat count).toNat = count := by
    rw [UInt8.toNat_ofNat']
    omega
  rw [header, Word.register, hmark, hcount, UInt32.toNat_ofNat']
  omega

/-- A header is told by its mark, and gives its count and its port. -/
theorem replay_header {count : Nat} (h : count < 256) (port : Port) (rest : List Word) :
    replay (header count port :: rest) = (port, rest.take count) :: replay (rest.drop payload) := by
  have hword := toNat_header h port
  have hport := port.toNat_lt
  have hmark : (header count port).toNat / 16777216 = headerMark.toNat := by
    show _ = 205
    omega
  have hcount : (header count port).toNat / 65536 % 256 = count := by omega
  have hfields : UInt16.ofNat (header count port).toNat = port := by
    rw [← UInt16.toNat_inj, UInt16.toNat_ofNat']
    omega
  rw [replay, if_pos hmark, hcount, hfields]

/-- An erased word is no header. -/
theorem replay_erased (k : Nat) : replay (List.replicate k erasedWord) = [] := by
  cases k with
  | zero => rw [List.replicate_zero, replay]
  | succ k =>
    have hmark : ¬ erasedWord.toNat / 16777216 = headerMark.toNat := by decide
    rw [List.replicate_succ, replay, if_neg hmark]

/-! ## Blocks -/

theorem frame_cons {port : Port} {message : List Word} (h : message ≠ []) :
    frame port message = header (message.take payload).length port ::
      (message.take payload ++ frame port (message.drop payload)) := by
  cases message with
  | nil => exact absurd rfl h
  | cons w ws =>
    rw [frame]
    rfl

/-- A message takes one more word for every block. -/
theorem length_frame (port : Port) (message : List Word) :
    (frame port message).length = message.length + groups payload message.length := by
  induction hn : message.length using Nat.strongRecOn generalizing message with
  | ind n ih =>
    subst hn
    by_cases hempty : message = []
    · rw [hempty, frame]
      rfl
    · have hpos : 0 < message.length := List.length_pos_of_ne_nil hempty
      have hshorter : (message.drop payload).length < message.length := by
        rw [List.length_drop, payload, pageWords]
        omega
      have hrest := ih _ hshorter (message.drop payload) rfl
      rw [frame_cons hempty, List.length_cons, List.length_append, hrest, List.length_take,
        List.length_drop]
      simp only [groups, payload, pageWords]
      omega

/-- The blocks of a message are replayed up to the erased words behind them. -/
theorem replay_frame (port : Port) (message : List Word) (k : Nat) :
    (replay (frame port message ++ List.replicate k erasedWord)).flatMap Prod.snd = message ∧
      ∀ block ∈ replay (frame port message ++ List.replicate k erasedWord), block.1 = port := by
  -- one block is cut off the message in each step
  induction hn : message.length using Nat.strongRecOn generalizing message with
  | ind n ih =>
    subst hn
    by_cases hempty : message = []
    · rw [hempty, frame, List.nil_append, replay_erased]
      simp
    · have hpos : 0 < message.length := List.length_pos_of_ne_nil hempty
      have hblock : (message.take payload).length < 256 := by
        rw [List.length_take, payload, pageWords]
        omega
      have hreplay : replay (frame port message ++ List.replicate k erasedWord) =
          (port, message.take payload) ::
            replay (((message.take payload ++ frame port (message.drop payload)) ++
              List.replicate k erasedWord).drop payload) := by
        rw [frame_cons hempty, List.cons_append, replay_header hblock, List.append_assoc,
          List.take_left' rfl]
      rw [hreplay]
      rcases Nat.lt_or_ge message.length payload with hlast | hfull
      · have hdrop : message.drop payload = [] := List.drop_eq_nil_of_le (by omega)
        have htake : message.take payload = message := List.take_of_length_le (by omega)
        have hrest : (message ++ List.replicate k erasedWord).drop payload =
            List.replicate (k - (payload - message.length)) erasedWord := by
          rw [List.drop_append, List.drop_eq_nil_of_le (by omega), List.nil_append,
            List.drop_replicate]
        rw [hdrop, frame, htake, List.append_nil, hrest, replay_erased]
        simp
      · have hlen : (message.take payload).length = payload := by
          rw [List.length_take]
          omega
        have hrest : ((message.take payload ++ frame port (message.drop payload)) ++
            List.replicate k erasedWord).drop payload =
              frame port (message.drop payload) ++ List.replicate k erasedWord := by
          rw [List.append_assoc, List.drop_left' hlen]
        have hshorter : (message.drop payload).length < message.length := by
          rw [List.length_drop, payload, pageWords]
          omega
        obtain ⟨hwords, hports⟩ := ih _ hshorter (message.drop payload) rfl
        rw [hrest]
        constructor
        · rw [List.flatMap_cons, hwords, List.take_append_drop]
        · intro block hmem
          rcases List.mem_cons.1 hmem with rfl | hmem
          · rfl
          · exact hports block hmem

/-! ## Addresses -/

/-- Every boot page begins a sector. -/
theorem addresses_aligned : ∀ a ∈ addresses, a.toNat % sectorBytes = 0 := by
  simp [addresses, sectorBytes]

end BootPage

/-! ## A sector -/

/-- The pages of what fits a sector lie in the sector. -/
theorem pages_le_sector {n : Nat} (h : 4 * n ≤ sectorBytes) :
    pageWords * pageCount n ≤ sectorBytes / 4 := by
  simp only [sectorBytes] at h
  simp only [pageCount, groups, pageWords, sectorBytes]
  omega

/-- A run that is filled up with erased words. -/
theorem map_padded_range {words : List Word} {n : Nat} (h : words.length ≤ n) :
    (List.range n).map (padded words) =
      words ++ List.replicate (n - words.length) erasedWord := by
  apply List.ext_getElem
  · simp only [List.length_map, List.length_range, List.length_append, List.length_replicate]
    omega
  · intro i h₁ h₂
    simp only [List.getElem_map, List.getElem_range, List.getElem_append, List.getElem_replicate,
      padded, List.getD_eq_getElem?_getD]
    split
    · rename_i hlt
      rw [List.getElem?_eq_getElem hlt, Option.getD_some]
    · rename_i hge
      rw [List.getElem?_eq_none (by omega), Option.getD_none]

/-- The words of a sector from its beginning on. -/
theorem sector_wordAddress_of_lt {start : UInt32} (hstart : start.toNat % sectorBytes = 0)
    {i : Nat} (hi : i < sectorBytes / 4) : sector (wordAddress start i) = sector start := by
  refine sector_wordAddress_of_within ?_
  rw [hstart]
  simp only [sectorBytes] at hi ⊢
  omega

/-- A sector that was erased and written from its beginning on. -/
theorem read_sector {f f' : Nor} {start : UInt32} {words : List Word}
    (hstart : start.toNat % sectorBytes = 0) (hwords : 4 * words.length ≤ sectorBytes)
    (h : f'.Holds (before f start true) start (pageWords * pageCount words.length)
      (padded words)) :
    f'.read start (sectorBytes / 4) =
      words ++ List.replicate (sectorBytes / 4 - words.length) erasedWord := by
  have hfit : words.length ≤ sectorBytes / 4 := by omega
  rw [Nor.read_eq, ← map_padded_range hfit]
  refine List.map_congr_left fun i hi => ?_
  have hi := List.mem_range.1 hi
  rcases Nat.lt_or_ge i (pageWords * pageCount words.length) with hlt | hge
  · exact h.1 i hlt
  · have hlast : start.toNat + 4 * i < 2 ^ 32 := by
      have hlt := start.toNat_lt
      simp only [sectorBytes] at hstart hi
      omega
    have hword := h.beyond hge hlast
    have hpadding : words.length ≤ i := by
      refine Nat.le_trans ?_ hge
      simp only [pageCount, groups, pageWords]
      omega
    rw [hword, before, if_pos ⟨rfl, sector_wordAddress_of_lt hstart hi⟩, padded,
      List.getD_eq_getElem?_getD, List.getElem?_eq_none hpadding, Option.getD_none]

end Flash

open Flash

/-- **What was stored is replayed.**  Storing the registers in a boot page succeeds if their blocks
fit a sector.  It changes no word outside the sector of the page; and what the board replays from
that sector when it starts is the message of the registers, all of it for the port of registers.
If the blocks do not fit, nothing is sent. -/
theorem Station.storeRegisters_replay (s : Station) {page : Nat} (hpage : page < 10)
    {j : Journal Bench} (hclear : j.link.Clear) (hboard : j.link.board.Acknowledges)
    (hfault : j.link.board.fault = none)
    (hfaults : ∀ a : UInt32, j.link.board.addressFaults[a]? = none)
    (hqueue : j.link.board.queue firmwarePort = []) :
    let address := BootPage.addresses[page]
    let framed := BootPage.frame configPort s.message
    (4 * framed.length ≤ sectorBytes →
      ∃ j', s.storeRegisters page j = (.ok (pageCount framed.length * pageWords), j') ∧
        (∀ a, sector a ≠ sector address →
          j'.link.board.flash.word a = j.link.board.flash.word a) ∧
        (BootPage.replay (j'.link.board.flash.read address (sectorBytes / 4))).flatMap Prod.snd =
          s.message ∧
        ∀ block ∈ BootPage.replay (j'.link.board.flash.read address (sectorBytes / 4)),
          block.1 = configPort) ∧
    (sectorBytes < 4 * framed.length →
      s.storeRegisters page j =
        (.error (.error (.sectorOverflow (4 * framed.length) sectorBytes)), j)) := by
  intro address framed
  have hstart := BootPage.addresses_aligned address (List.getElem_mem _)
  have hstore : s.storeRegisters page =
      (write s.options.flashTimeout framed address true : Host Bench Nat) := by
    rw [Station.storeRegisters, writeBootPage, List.getElem?_eq_getElem hpage]
  rw [hstore]
  constructor
  · intro hfits
    have hpages := pages_le_sector hfits
    have hsector : address.toNat % sectorBytes + pageBytes * pageCount framed.length ≤
        sectorBytes := by
      rw [hstart]
      simp only [pageWords, sectorBytes] at hpages
      simp only [pageBytes, sectorBytes]
      omega
    obtain ⟨j', hrun, hholds⟩ := write_erased s.options.flashTimeout hclear hboard hfault hfaults
      hqueue hsector
    have hread := read_sector hstart hfits hholds
    have hreplay := BootPage.replay_frame configPort s.message (sectorBytes / 4 - framed.length)
    refine ⟨j', hrun, fun a ha => ?_, ?_, ?_⟩
    · have hother := hholds.2 a fun i hi he => ?_
      · rw [hother, before, if_neg fun h => ha h.2]
      · refine ha ?_
        rw [he]
        exact sector_wordAddress_of_lt hstart (Nat.lt_of_lt_of_le hi hpages)
    · rw [hread]
      exact hreplay.1
    · rw [hread]
      exact hreplay.2
  · intro hover
    rw [write_eq, if_pos hover]
    rfl

/-- The default registers, stored in the last page of an erased flash. -/
theorem Station.storeRegisters_replay_standard :
    ∃ j', ({} : Station).storeRegisters 9 (answering {}) = (.ok 128, j') ∧
      (BootPage.replay (j'.link.board.flash.read 0x01FF0000 (sectorBytes / 4))).flatMap Prod.snd =
        ({} : Station).message := by
  have hstep := answering_inStep {}
  have hlen : ({} : Station).message.length = 107 := by decide +kernel
  have hframed : (BootPage.frame configPort ({} : Station).message).length = 109 := by
    rw [BootPage.length_frame, hlen]
    rfl
  obtain ⟨j', hrun, -, hreplay, -⟩ := (Station.storeRegisters_replay {} (by decide : 9 < 10)
    hstep.toClear answering_acknowledges rfl (fun a => Std.HashMap.getElem?_empty)
    hstep.pages).1 (by rw [hframed]; decide)
  rw [hframed] at hrun
  exact ⟨j', hrun, hreplay⟩

end Readout
