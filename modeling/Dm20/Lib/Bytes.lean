import Mathlib.Data.Nat.Digits.Defs

namespace Bytes

/-- The lowest digits of a number in base 256, the lowest first. -/
def digits : Nat → Nat → List Nat
  | 0, _ => []
  | width + 1, n => n % 256 :: digits width (n / 256)

@[simp] theorem length_digits (width n : Nat) : (digits width n).length = width := by
  induction width generalizing n with
  | zero => rfl
  | succ width ih => rw [digits, List.length_cons, ih]

theorem lt_of_mem_digits {width n d : Nat} (h : d ∈ digits width n) : d < 256 := by
  induction width generalizing n with
  | zero => cases h
  | succ width ih =>
    obtain rfl | h := List.mem_cons.mp h
    · exact Nat.mod_lt n (by decide)
    · exact ih h

/-- The digits are those of the number, as far as it fits into the width. -/
theorem ofDigits_digits (width n : Nat) : Nat.ofDigits 256 (digits width n) = n % 256 ^ width := by
  induction width generalizing n with
  | zero => exact (Nat.mod_one n).symm
  | succ width ih => rw [digits, Nat.ofDigits_cons, ih, Nat.pow_succ', Nat.mod_mul]

/-- A byte as a character, and back. -/
def toChar (d : Nat) : Char :=
  Char.ofNat (d % 256)

def ofChar (c : Char) : Nat :=
  c.toNat % 256

theorem ofChar_toChar (d : Nat) : ofChar (toChar d) = d % 256 := by
  have hvalid : (d % 256).isValidChar := .inl (by omega)
  have htoNat : (Char.ofNat (d % 256)).toNat = d % 256 := by
    rw [Char.ofNat, dif_pos hvalid]
    rfl
  rw [ofChar, toChar, htoNat, Nat.mod_mod]

/-- The bytes of a number in memory, the lowest first. -/
def littleEndian (width n : Nat) : List Char :=
  (digits width n).map toChar

def ofLittleEndian (s : List Char) : Nat :=
  Nat.ofDigits 256 (s.map ofChar)

@[simp] theorem length_littleEndian (width n : Nat) : (littleEndian width n).length = width := by
  rw [littleEndian, List.length_map, length_digits]

/-- A number is read back from its bytes, modulo what the width can hold. -/
theorem ofLittleEndian_littleEndian (width n : Nat) : ofLittleEndian (littleEndian width n) = n % 256 ^ width := by
  have hbytes : ((digits width n).map toChar).map ofChar = digits width n := by
    rw [List.map_map]
    exact (List.map_congr_left fun d hd => (ofChar_toChar d).trans (Nat.mod_eq_of_lt (lt_of_mem_digits hd))).trans (List.map_id' _)
  rw [ofLittleEndian, littleEndian, hbytes, ofDigits_digits]

/-- The bytes of a number on the network, the highest first. -/
def bigEndian (width n : Nat) : List Char :=
  (littleEndian width n).reverse

def ofBigEndian (s : List Char) : Nat :=
  ofLittleEndian s.reverse

@[simp] theorem length_bigEndian (width n : Nat) : (bigEndian width n).length = width := by
  rw [bigEndian, List.length_reverse, length_littleEndian]

/-- A number is read back from its bytes, modulo what the width can hold. -/
theorem ofBigEndian_bigEndian (width n : Nat) : ofBigEndian (bigEndian width n) = n % 256 ^ width := by
  rw [ofBigEndian, bigEndian, List.reverse_reverse, ofLittleEndian_littleEndian]

end Bytes
