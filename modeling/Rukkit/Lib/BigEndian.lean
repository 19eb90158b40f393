import Mathlib

/-!
# Big-endian byte strings

Fixed-width big-endian encodings of natural numbers, and the inverse reading.
-/

namespace Rukkit.Lib.BigEndian

/-- The `width` low bytes of `n`, most significant first. -/
def toBytes : (width : Nat) → (n : Nat) → List UInt8
  | 0, _ => []
  | width + 1, n => UInt8.ofNat (n / 256 ^ width) :: toBytes width n

/-- The number a byte string denotes, most significant byte first. -/
def toNat (bytes : List UInt8) : Nat :=
  bytes.foldl (fun acc b => acc * 256 + b.toNat) 0

@[simp] theorem length_toBytes (width n : Nat) : (toBytes width n).length = width := by
  induction width with
  | zero => rfl
  | succ width ih => simp [toBytes, ih]

theorem foldl_toBytes (width n acc : Nat) :
    (toBytes width n).foldl (fun acc b => acc * 256 + b.toNat) acc =
      acc * 256 ^ width + n % 256 ^ width := by
  induction width generalizing acc with
  | zero => simp [toBytes, Nat.mod_one]
  | succ width ih =>
      have hsplit : n % 256 ^ (width + 1) =
          n / 256 ^ width % 256 * 256 ^ width + n % 256 ^ width := by
        rw [Nat.pow_succ, Nat.mod_mul]
        ring
      have hbyte : (UInt8.ofNat (n / 256 ^ width)).toNat = n / 256 ^ width % 256 := by simp
      rw [toBytes, List.foldl_cons, ih, hbyte, hsplit]
      ring

/-- Reading what was written gives the number back, modulo the width. -/
theorem toNat_toBytes (width n : Nat) : toNat (toBytes width n) = n % 256 ^ width := by
  rw [toNat, foldl_toBytes, Nat.zero_mul, Nat.zero_add]

theorem toNat_toBytes_of_lt {width n : Nat} (h : n < 256 ^ width) :
    toNat (toBytes width n) = n := by
  rw [toNat_toBytes, Nat.mod_eq_of_lt h]

end Rukkit.Lib.BigEndian
