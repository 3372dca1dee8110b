/-!
# UTF-8

Text files are read as UTF-8 or refused; header cards are shown with a replacement character for
every maximal piece that is no UTF-8.

* `Utf8.step` reads one character or says how many bytes to give up;
* `Utf8.decode?` reads a whole text, and `Utf8.decodeLossy` never fails.
-/

namespace Readout.Text.Utf8

/-- The UTF-8 bytes of a text. -/
def encode (cs : List Char) : List UInt8 := cs.flatMap String.utf8EncodeChar

/-- What starts at a position: a character and its length, or the length of the malformed piece. -/
inductive Step
  | char (c : Char) (length : Nat)
  | malformed (length : Nat)

/-- The bounds of the second byte, which rule out overlong forms, surrogates and numbers above the
last code point. -/
def secondBounds (lead : Nat) : Nat × Nat :=
  if lead = 0xE0 then (0xA0, 0xBF)
  else if lead = 0xED then (0x80, 0x9F)
  else if lead = 0xF0 then (0x90, 0xBF)
  else if lead = 0xF4 then (0x80, 0x8F)
  else (0x80, 0xBF)

/-- How many continuation bytes a lead byte asks for; none for a byte that leads nothing. -/
def following? (lead : Nat) : Option Nat :=
  if lead < 0x80 then some 0
  else if 0xC2 ≤ lead ∧ lead ≤ 0xDF then some 1
  else if 0xE0 ≤ lead ∧ lead ≤ 0xEF then some 2
  else if 0xF0 ≤ lead ∧ lead ≤ 0xF4 then some 3
  else none

/-- The bits of a lead byte that belong to the code point. -/
def leadBits (lead following : Nat) : Nat :=
  match following with
  | 0 => lead
  | 1 => lead % 32
  | 2 => lead % 16
  | _ => lead % 8

/-- The continuation bytes that are there, at most `want`, the first between its own bounds. -/
def continuation (lo hi : Nat) : (want : Nat) → List UInt8 → List UInt8
  | 0, _ => []
  | _ + 1, [] => []
  | want + 1, b :: r =>
    if lo ≤ b.toNat && b.toNat ≤ hi then b :: continuation 0x80 0xBF want r else []

/-- Read what starts with the byte `lead`.  A malformed piece is as long as the part of a character
that it could have been, and at least one byte. -/
def step (lead : UInt8) (rest : List UInt8) : Step :=
  match following? lead.toNat with
  | none => .malformed 1
  | some want =>
    let (lo, hi) := secondBounds lead.toNat
    let more := continuation lo hi want rest
    if more.length = want then
      let code := more.foldl (fun acc b => acc * 64 + b.toNat % 64) (leadBits lead.toNat want)
      .char (Char.ofNat code) (want + 1)
    else .malformed (more.length + 1)

/-- Read a text from the bytes; `fuel` bounds the number of characters. -/
def decodeAux (onBad : Option Char) : (fuel : Nat) → List UInt8 → Option (List Char)
  | 0, _ => some []
  | _ + 1, [] => some []
  | fuel + 1, b :: r =>
    match step b r with
    | .char c n => (decodeAux onBad fuel (r.drop (n - 1))).map (c :: ·)
    | .malformed n => onBad.bind fun c => (decodeAux onBad fuel (r.drop (n - 1))).map (c :: ·)

/-- The text that the bytes spell, if they are UTF-8. -/
def decode? (bytes : List UInt8) : Option (List Char) := decodeAux none bytes.length bytes

/-- The text that the bytes spell, with U+FFFD for every malformed piece. -/
def decodeLossy (bytes : List UInt8) : List Char :=
  (decodeAux (some '\ufffd') bytes.length bytes).getD []

end Readout.Text.Utf8
