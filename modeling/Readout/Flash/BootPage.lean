import Readout.Flash.Geometry
/-!
# Boot pages

A configuration stored in flash is replayed by the board when it starts.  It is stored in blocks
of up to 64 words: a header with the number of words and the port they go to, then the words.

* `frame` cuts a message into blocks, `replay` is the reader of the board.
-/

namespace Readout.Flash.BootPage

/-- The flash addresses of the ten stored configurations, one sector each. -/
def addresses : List UInt32 :=
  [0x01F60000, 0x01F70000, 0x01F80000, 0x01F90000, 0x01FA0000,
    0x01FB0000, 0x01FC0000, 0x01FD0000, 0x01FE0000, 0x01FF0000]

/-- The top byte of every header. -/
def headerMark : UInt8 := 0xCD

/-- The words of a block besides its header. -/
def payload : Nat := pageWords - 1

/-- The header of a block: the mark, the number of words, the port. -/
def header (count : Nat) (port : Port) : Word :=
  Word.register headerMark (UInt8.ofNat count) port

/-- The blocks of a message.  No message, no block. -/
def frame (port : Port) (message : List Word) : List Word :=
  match message with
  | [] => []
  | w :: ws =>
    let block := (w :: ws).take payload
    header block.length port :: block ++ frame port ((w :: ws).drop payload)
  termination_by message.length
  decreasing_by
    simp only [List.length_drop, List.length_cons, payload, pageWords]
    omega

/-- What the board replays from the words at a boot address, block by block, with the port of each
block: it stops where no header stands. -/
def replay (words : List Word) : List (Port × List Word) :=
  match words with
  | [] => []
  | h :: rest =>
    if h.toNat / 16777216 = headerMark.toNat then
      (UInt16.ofNat h.toNat, rest.take (h.toNat / 65536 % 256)) :: replay (rest.drop payload)
    else []
  termination_by words.length
  decreasing_by
    simp only [List.length_drop, List.length_cons, payload, pageWords]
    omega

end Readout.Flash.BootPage
