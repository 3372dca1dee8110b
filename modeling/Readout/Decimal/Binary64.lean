/-!
# Binary floating point

A finite 64-bit floating-point number is a whole number of units, each a power of two.

* `Binary64` is such a number: sign, significand and exponent, or no number;
* `Binary64.ofBits` and `Binary64.toBits` are its form in memory, and undo each other for numbers
  (`toBits_ofBits`).
-/

namespace Readout.Decimal

/-- A floating-point number.  A finite number is `significand * 2 ^ exponent`; what is no number has
a sign all the same. -/
inductive Binary64
  | nan (negative : Bool)
  | infinite (negative : Bool)
  | finite (negative : Bool) (significand : Nat) (exponent : Int)
  deriving DecidableEq, Repr

namespace Binary64

/-- The exponent of the smallest unit. -/
def minExponent : Int := -1074

/-- The significand of a normal number has this bit. -/
def hiddenBit : Nat := 0x10000000000000

/-- The bit that is set for a negative number. -/
def signBit : Nat := 0x8000000000000000

def ofBits (bits : UInt64) : Binary64 :=
  let n := bits.toNat
  let negative := n / signBit == 1
  let biased := n / hiddenBit % 2048
  let fraction := n % hiddenBit
  if biased = 2047 then if fraction = 0 then infinite negative else nan negative
  else if biased = 0 then finite negative fraction minExponent
  else finite negative (hiddenBit + fraction) (minExponent + (biased - 1 : Nat))

def ofFloat (x : Float) : Binary64 := ofBits x.toBits

/-- The bits of a sign, a biased exponent and a fraction. -/
def pack (negative : Bool) (biased fraction : Nat) : UInt64 :=
  UInt64.ofNat ((if negative then signBit else 0) + biased * hiddenBit + fraction)

def toBits : Binary64 → UInt64
  | nan negative => pack negative 2047 (hiddenBit / 2)
  | infinite negative => pack negative 2047 0
  | finite negative significand exponent =>
    if significand < hiddenBit then pack negative 0 significand
    else pack negative ((exponent - minExponent).toNat + 1) (significand - hiddenBit)

/-- The number with the other sign. -/
def negate : Binary64 → Binary64
  | nan negative => nan !negative
  | infinite negative => infinite !negative
  | finite negative significand exponent => finite (!negative) significand exponent

def zero : Binary64 := finite false 0 minExponent

/-- A sign, a biased exponent and a fraction that make up given bits are packed into them. -/
theorem pack_eq (bits : UInt64) (biased fraction : Nat)
    (h : bits.toNat / signBit * signBit + biased * hiddenBit + fraction = bits.toNat) :
    pack (bits.toNat / signBit == 1) biased fraction = bits := by
  have hlt : bits.toNat < 2 ^ 64 := bits.toNat_lt
  have hsign : (if bits.toNat / signBit == 1 then signBit else 0) =
      bits.toNat / signBit * signBit := by
    split
    · next hone => rw [beq_iff_eq.mp hone, Nat.one_mul]
    · next hnot =>
      rw [beq_iff_eq] at hnot
      simp only [signBit] at hnot ⊢
      omega
  rw [pack, hsign, h, UInt64.ofNat_toNat]

/-- The bits of a number are those that it was read from. -/
theorem toBits_ofBits (bits : UInt64) (h : ∀ negative, ofBits bits ≠ nan negative) :
    (ofBits bits).toBits = bits := by
  have hlt : bits.toNat < 2 ^ 64 := bits.toNat_lt
  unfold ofBits at h ⊢
  dsimp only at h ⊢
  split
  · next hlast =>
    rw [if_pos hlast] at h
    split
    · next hzero => exact pack_eq bits 2047 0 (by simp only [signBit, hiddenBit] at *; omega)
    · next hsome =>
      rw [if_neg hsome] at h
      exact absurd rfl (h _)
  · next hlast =>
    split
    · next hzero =>
      have hsmall : bits.toNat % hiddenBit < hiddenBit := Nat.mod_lt _ (by decide)
      rw [toBits, if_pos hsmall]
      exact pack_eq bits 0 _ (by simp only [signBit, hiddenBit] at *; omega)
    · next hnormal =>
      have hlarge : ¬ hiddenBit + bits.toNat % hiddenBit < hiddenBit := by omega
      rw [toBits, if_neg hlarge, Nat.add_sub_cancel_left]
      exact pack_eq bits _ _ (by simp only [signBit, hiddenBit] at *; omega)

end Binary64

end Readout.Decimal
