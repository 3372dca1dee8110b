import Readout.Proofs.Flash.BootPages
/-!
# The blocks of a message

A message is cut into blocks of 63 words, the last one perhaps shorter, and every block stands
behind a header that counts its words.  So block `k` begins at word `64 * k`, and a reader that goes
by the counts alone finds all blocks and ends with the last word.

* `drop_frame`: what stands behind the first `k` blocks is the frame of what remains of the message;
* `blocks?` is the reader by counts, `blocks?_frame` what it finds in a frame;
* `frame_blocks`: the layout of a frame, and what is read from it.
-/

namespace Readout.Flash.BootPage

/-! ## Blocks -/

/-- The words of block `k` of a message. -/
def block (message : List Word) (k : Nat) : List Word := (message.drop (payload * k)).take payload

theorem length_block (message : List Word) (k : Nat) :
    (block message k).length = min payload (message.length - payload * k) := by
  simp [block]

theorem block_drop (message : List Word) (k : Nat) :
    block (message.drop payload) k = block message (k + 1) := by
  simp only [block, List.drop_drop, Nat.mul_succ, Nat.add_comm]

/-- The blocks of a message are cut off one by one. -/
theorem groups_payload {message : List Word} (h : message ≠ []) :
    groups payload message.length = groups payload (message.drop payload).length + 1 := by
  have hpos : 0 < message.length := List.length_pos_of_ne_nil h
  simp only [groups, List.length_drop, payload, pageWords]
  omega

/-- The blocks of a message are the message. -/
theorem flatMap_block (message : List Word) :
    (List.range (groups payload message.length)).flatMap (block message) = message := by
  fun_induction frame 0 message with
  | case1 => rfl
  | case2 w ws _ ih =>
    have hnext : block ((w :: ws).drop payload) = fun k => block (w :: ws) (k + 1) :=
      funext (block_drop (w :: ws))
    rw [hnext] at ih
    rw [groups_payload (List.cons_ne_nil w ws), List.range_succ_eq_map, List.flatMap_cons,
      List.flatMap_map, ih]
    exact List.take_append_drop payload (w :: ws)

/-- The frame of what remains of a message stands behind its first blocks. -/
theorem drop_frame (port : Port) (k : Nat) {message : List Word}
    (h : payload * k ≤ message.length) :
    (frame port message).drop (pageWords * k) = frame port (message.drop (payload * k)) := by
  induction k generalizing message with
  | zero => rfl
  | succ k ih =>
    have hfull : payload ≤ message.length := by
      rw [Nat.mul_succ] at h
      omega
    have hne : message ≠ [] := by
      rintro rfl
      simp [payload, pageWords] at hfull
    have hblock : (frame port message).drop pageWords = frame port (message.drop payload) := by
      rw [frame_cons hne]
      show (message.take payload ++ frame port (message.drop payload)).drop payload = _
      exact List.drop_left' (by rw [List.length_take, Nat.min_eq_left hfull])
    have hrest : payload * k ≤ (message.drop payload).length := by
      rw [List.length_drop, Nat.mul_succ] at *
      omega
    rw [Nat.mul_succ, Nat.add_comm, ← List.drop_drop, hblock, ih hrest, List.drop_drop,
      Nat.mul_succ, Nat.add_comm]

/-- A block in a frame: the header, then the words that it counts. -/
theorem block_stands (port : Port) {message : List Word} {k : Nat}
    (h : payload * k < message.length) :
    ∃ rest, (frame port message).drop (pageWords * k) =
      header (block message k).length port :: (block message k ++ rest) := by
  have hne : message.drop (payload * k) ≠ [] := by
    simpa using h
  rw [drop_frame port k (Nat.le_of_lt h), frame_cons hne]
  exact ⟨_, rfl⟩

/-! ## The reader -/

/-- The blocks that words are made of, each with the port of its header: a header is followed by as
many words as it counts, and the next header by theirs.  There are none if a block begins with
another word than a header, or if it is cut short. -/
def blocks? (words : List Word) : Option (List (Port × List Word)) :=
  match words with
  | [] => some []
  | h :: rest =>
    let count := h.toNat / 65536 % 256
    if h.toNat / 16777216 = headerMark.toNat ∧ count ≤ rest.length then
      (blocks? (rest.drop count)).map ((UInt16.ofNat h.toNat, rest.take count) :: ·)
    else none
  termination_by words.length
  decreasing_by
    simp only [List.length_drop, List.length_cons]
    omega

/-- A header is followed by its block. -/
theorem blocks?_header (port : Port) {ws : List Word} (h : ws.length < 256) (rest : List Word) :
    blocks? (header ws.length port :: (ws ++ rest)) = (blocks? rest).map ((port, ws) :: ·) := by
  have hword := toNat_header h port
  have hport := port.toNat_lt
  have hmark : (header ws.length port).toNat / 16777216 = headerMark.toNat := by
    show _ = 205
    omega
  have hcount : (header ws.length port).toNat / 65536 % 256 = ws.length := by omega
  have hfields : UInt16.ofNat (header ws.length port).toNat = port := by
    rw [← UInt16.toNat_inj, UInt16.toNat_ofNat']
    omega
  have hlen : ws.length ≤ (ws ++ rest).length := by simp
  rw [blocks?, hcount, hfields, if_pos ⟨hmark, hlen⟩, List.drop_left, List.take_left]

/-- The reader finds the blocks of a message, and nothing else. -/
theorem blocks?_frame (port : Port) (message : List Word) :
    blocks? (frame port message) =
      some ((List.range (groups payload message.length)).map fun k => (port, block message k)) := by
  fun_induction frame port message with
  | case1 => rw [blocks?]; rfl
  | case2 w ws _ ih =>
    have hshort : ((w :: ws).take payload).length < 256 := by
      simp only [List.length_take, payload, pageWords]
      omega
    rw [List.cons_append, blocks?_header port hshort, ih, groups_payload (List.cons_ne_nil w ws),
      List.range_succ_eq_map, List.map_cons, List.map_map]
    simp only [block_drop]
    rfl

/-- **A frame loses nothing.**  It takes one word more for every block.  Block `k` begins at word
`64 * k` with a header of its mark, its count and its port; every block but the last has 63 words,
and the last has those that remain.  A reader that goes by the counts finds these blocks and the
message in them, so that different messages have different frames. -/
theorem frame_blocks (port : Port) (message : List Word) :
    (frame port message).length = message.length + groups 63 message.length ∧
    (∀ k < groups 63 message.length,
      (∃ h rest, (frame port message).drop (64 * k) = h :: (block message k ++ rest) ∧
        h.toNat / 2 ^ 24 = 0xCD ∧ h.toNat / 2 ^ 16 % 2 ^ 8 = (block message k).length ∧
        h.toNat % 2 ^ 16 = port.toNat) ∧
      (k + 1 < groups 63 message.length → (block message k).length = 63) ∧
      (k + 1 = groups 63 message.length → (block message k).length = message.length - 63 * k ∧
        1 ≤ (block message k).length ∧ (block message k).length ≤ 63)) ∧
    blocks? (frame port message) =
      some ((List.range (groups 63 message.length)).map fun k => (port, block message k)) ∧
    (List.range (groups 63 message.length)).flatMap (block message) = message ∧
    ∀ message', frame port message' = frame port message → message' = message := by
  refine ⟨length_frame port message, ?_, blocks?_frame port message, flatMap_block message, ?_⟩
  · intro k hk
    have hlen := length_block message k
    simp only [groups, payload, pageWords] at hk hlen ⊢
    refine ⟨?_, ?_, ?_⟩
    · have hbegins : payload * k < message.length := by
        simp only [payload, pageWords]
        omega
      have hcount : (block message k).length < 256 := by omega
      obtain ⟨rest, hstands⟩ := block_stands port hbegins
      have hword := toNat_header hcount port
      have hport := port.toNat_lt
      refine ⟨_, rest, hstands, ?_, ?_, ?_⟩
      all_goals
        rw [hword]
        omega
    · intro _
      omega
    · intro _
      omega
  · intro message' hframe
    have hblocks := blocks?_frame port message'
    rw [hframe, blocks?_frame, Option.some.injEq] at hblocks
    have hwords := congrArg (List.flatMap Prod.snd) hblocks
    simpa only [List.flatMap_map, flatMap_block] using hwords.symm

/-- A message of 64 words takes a full block and one of a single word. -/
theorem frame_blocks_second :
    (block (List.replicate 64 7) 0).length = 63 ∧ (block (List.replicate 64 7) 1).length = 1 ∧
      ∃ rest, (frame configPort (List.replicate 64 7)).drop 64 = 0xCD014268 :: 7 :: rest := by
  have hgroups : groups 63 (List.replicate 64 (7 : Word)).length = 2 := by decide
  obtain ⟨-, hblocks, -⟩ := frame_blocks configPort (List.replicate 64 7)
  rw [hgroups] at hblocks
  obtain ⟨-, hfull, -⟩ := hblocks 0 (by decide)
  obtain ⟨⟨h, rest, hdrop, hmark, hcount, hport⟩, -, hlast⟩ := hblocks 1 (by decide)
  have hone : (block (List.replicate 64 7) 1).length = 1 := (hlast rfl).1
  have hword : h = 0xCD014268 := by
    rw [hone] at hcount
    rw [← UInt32.toNat_inj]
    have hvalue : (0xCD014268 : UInt32).toNat = 0xCD014268 := rfl
    have hconfig : configPort.toNat = 0x4268 := rfl
    omega
  have hblock : block (List.replicate 64 7) 1 = [7] := by decide
  refine ⟨hfull (by decide), hone, rest, ?_⟩
  rw [hdrop, hword, hblock]
  rfl

end Readout.Flash.BootPage
