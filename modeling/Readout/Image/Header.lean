import Readout.Image.Card
/-!
# Image headers

A header is a sequence of cards, closed by the card `END` and filled with spaces to whole blocks of
2880 bytes.

* `Header.encode` writes a header, `Header.length?` and `Header.cards` read one.
-/

namespace Readout.Image

/-- The bytes of a block; headers and data fill whole blocks. -/
def blockBytes : Nat := 2880

/-- The least multiple of the block size that holds `n` bytes. -/
def wholeBlocks (n : Nat) : Nat := (n + blockBytes - 1) / blockBytes * blockBytes

/-- Fill to whole blocks. -/
def padBlocks (fill : UInt8) (bs : Bytes) : Bytes :=
  bs ++ List.replicate (wholeBlocks bs.length - bs.length) fill

namespace Header

/-- The cards that every image of signed 32-bit pixels starts with. -/
def primary (width height : Nat) : List Card :=
  [{ keyword := "SIMPLE", value := .logical true },
    { keyword := "BITPIX", value := .int 32, comment := "signed 32-bit pixels" },
    { keyword := "NAXIS", value := .int 2, comment := "image dimensions" },
    { keyword := "NAXIS1", value := .int (Int64.ofNat width), comment := "columns" },
    { keyword := "NAXIS2", value := .int (Int64.ofNat height), comment := "rows" }]

/-- A header of cards that are already written. -/
def assemble (cards : List Bytes) : Bytes :=
  padBlocks 0x20 (cards.flatten ++ Card.endBytes)

def encode (cards : List Card) : Bytes := assemble (cards.map Card.bytes)

/-- The whole cards of a byte string; an incomplete card at the end is dropped. -/
def chunks (bs : Bytes) : List Bytes :=
  let card := bs.take Card.size
  if card.length = Card.size then card :: chunks (bs.drop Card.size) else []
  termination_by bs.length
  decreasing_by
    rename_i h
    have hle : Card.size ≤ bs.length := by
      rw [← h]
      exact List.length_take_le' Card.size bs
    have hpos : 0 < Card.size := by decide
    rw [List.length_drop]
    omega

/-- The card that ends a header: `END` and spaces. -/
def isEnd (card : Bytes) : Bool :=
  card.take 3 == [0x45, 0x4E, 0x44] && (card.drop 3).all (· == 0x20)

/-- The length of the header that a byte string starts with, none if nothing ends it. -/
def length? (bs : Bytes) : Option Nat :=
  ((chunks bs).findIdx? isEnd).map fun i => wholeBlocks ((i + 1) * Card.size)

/-- The cards of a header before the one that ends it. -/
def cards (bs : Bytes) : List Bytes := (chunks bs).takeWhile fun card => !isEnd card

end Header

end Readout.Image
