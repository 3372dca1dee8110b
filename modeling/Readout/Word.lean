/-!
# Words and bytes

The board exchanges 32-bit words, most significant byte first.  Everything above this module works
with words; these functions are the only place where words become bytes and bytes become words.

* `decode_encode`: decoding undoes encoding, whatever incomplete word follows;
* `length_encode`, `length_decode`: four bytes to a word.
-/

namespace Readout

abbrev Bytes := List UInt8
abbrev Word := UInt32
abbrev Port := UInt16

/-- The port that takes commands and answers them. -/
def commandPort : Port := 0x3000

/-- The port that carries flash pages both ways. -/
def firmwarePort : Port := 0x4000

/-- The port that takes register words. -/
def configPort : Port := 0x4268

/-- The longest datagram that the host takes in; what goes beyond is cut. -/
def maxDatagram : Nat := 2048

namespace Word

/-- The four bytes of a word, most significant first. -/
def bytes (w : Word) : Bytes :=
  [UInt8.ofNat (w.toNat / 16777216), UInt8.ofNat (w.toNat / 65536), UInt8.ofNat (w.toNat / 256),
    UInt8.ofNat w.toNat]

/-- The word with the given bytes, most significant first. -/
def ofBytes (a b c d : UInt8) : Word :=
  UInt32.ofNat (a.toNat * 16777216 + b.toNat * 65536 + c.toNat * 256 + d.toNat)

def encode (ws : List Word) : Bytes := ws.flatMap bytes

/-- The whole words of a byte string; an incomplete word at the end is dropped. -/
def decode : Bytes → List Word
  | a :: b :: c :: d :: r => ofBytes a b c d :: decode r
  | _ => []

/-- The low 24 bits hold three ASCII characters. -/
def asciiField (w : Word) : Word := w &&& 0x00FFFFFF

/-- The first three bytes of a text in the low 24 bits, the first byte most significant. -/
def ofAscii (s : String) : Word :=
  ((s.toList.flatMap String.utf8EncodeChar).take 3).foldl
    (fun acc b => UInt32.ofNat (acc.toNat * 256 + b.toNat)) 0

/-- The character that shows a byte: printable ASCII as itself, anything else as `?`. -/
def showByte (b : UInt8) : Char :=
  if 0x20 ≤ b.toNat ∧ b.toNat ≤ 0x7E then Char.ofNat b.toNat else '?'

/-- The low 24 bits as text; zero bytes are left out. -/
def ascii (w : Word) : String :=
  String.ofList (((bytes w).drop 1).filter (· ≠ 0) |>.map showByte)

/-- A register word: block address, sub-address and value. -/
def register (block sub : UInt8) (value : UInt16) : Word :=
  UInt32.ofNat (block.toNat * 16777216 + sub.toNat * 65536 + value.toNat)

/-! ## Laws -/

@[simp] theorem length_bytes (w : Word) : (bytes w).length = 4 := rfl

theorem ofBytes_bytes (w : Word) :
    ofBytes (UInt8.ofNat (w.toNat / 16777216)) (UInt8.ofNat (w.toNat / 65536))
      (UInt8.ofNat (w.toNat / 256)) (UInt8.ofNat w.toNat) = w := by
  have hw : w.toNat < 4294967296 := w.toNat_lt
  rw [ofBytes, ← UInt32.toNat_inj]
  simp only [UInt8.toNat_ofNat', UInt32.toNat_ofNat']
  omega

theorem length_encode (ws : List Word) : (encode ws).length = 4 * ws.length := by
  induction ws with
  | nil => rfl
  | cons w ws ih =>
    rw [show encode (w :: ws) = bytes w ++ encode ws from rfl, List.length_append, ih]
    simp only [length_bytes, List.length_cons]
    omega

theorem encode_append (ws ws' : List Word) : encode (ws ++ ws') = encode ws ++ encode ws' :=
  List.flatMap_append

/-- Decoding undoes encoding, also before an incomplete word. -/
theorem decode_encode_append (ws : List Word) (tail : Bytes) (h : tail.length < 4) :
    decode (encode ws ++ tail) = ws := by
  induction ws with
  | nil =>
    match tail, h with
    | [], _ => rfl
    | [_], _ => rfl
    | [_, _], _ => rfl
    | [_, _, _], _ => rfl
  | cons w ws ih =>
    show decode (bytes w ++ encode ws ++ tail) = w :: ws
    rw [List.append_assoc]
    show ofBytes _ _ _ _ :: decode (encode ws ++ tail) = w :: ws
    rw [ih, ofBytes_bytes]

@[simp] theorem decode_encode (ws : List Word) : decode (encode ws) = ws := by
  simpa using decode_encode_append ws [] (by decide)

theorem length_decode : (bs : Bytes) → (decode bs).length = bs.length / 4
  | [] => by simp [decode]
  | [_] => by simp [decode]
  | [_, _] => by simp [decode]
  | [_, _, _] => by simp [decode]
  | a :: b :: c :: d :: r => by
    simp only [decode, List.length_cons, length_decode r]
    omega

end Word

end Readout
