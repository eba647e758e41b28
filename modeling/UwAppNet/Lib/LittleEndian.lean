import Mathlib.Data.Nat.Digits.Defs
import Mathlib.Algebra.Order.Ring.Nat

/-!
Little-endian words as byte lists: the base-256 digits of a number, least
significant first, in a fixed width.
-/

namespace LittleEndian

/-- The number a byte list denotes. -/
def decode (bs : List UInt8) : Nat := Nat.ofDigits 256 (bs.map UInt8.toNat)

/-- The lowest `width` bytes of a number. -/
def encode : Nat → Nat → List UInt8
  | 0, _ => []
  | width + 1, n => UInt8.ofNat n :: encode width (n / 256)

@[simp] theorem length_encode (width n : Nat) : (encode width n).length = width := by
  induction width generalizing n with
  | zero => rfl
  | succ width ih => simp [encode, ih]

theorem decode_cons (x : UInt8) (bs : List UInt8) :
    decode (x :: bs) = x.toNat + 256 * decode bs := rfl

/-- A number that fits the width is read back. -/
theorem decode_encode {width n : Nat} (fits : n < 256 ^ width) :
    decode (encode width n) = n := by
  induction width generalizing n with
  | zero =>
      have zero : n = 0 := by simpa using fits
      subst zero
      rfl
  | succ width ih =>
      have quotient : n / 256 < 256 ^ width := by
        apply Nat.div_lt_of_lt_mul
        rwa [Nat.mul_comm, ← pow_succ]
      rw [encode, decode_cons, ih quotient, UInt8.toNat_ofNat']
      exact Nat.mod_add_div n 256

/-- Bytes are what their number is written as. -/
theorem encode_decode (bs : List UInt8) : encode bs.length (decode bs) = bs := by
  induction bs with
  | nil => rfl
  | cons x bs ih =>
      have small := x.toNat_lt
      have quotient : (x.toNat + 256 * decode bs) / 256 = decode bs := by omega
      have digit : UInt8.ofNat (x.toNat + 256 * decode bs) = x := by
        apply UInt8.toNat_inj.mp
        rw [UInt8.toNat_ofNat']
        omega
      rw [List.length_cons, decode_cons, encode, quotient, digit, ih]

theorem decode_lt (bs : List UInt8) : decode bs < 256 ^ bs.length := by
  induction bs with
  | nil => exact Nat.one_pos
  | cons x bs ih =>
      have small := x.toNat_lt
      rw [decode_cons, List.length_cons, pow_succ]
      omega

/-- The last byte is the most significant one. -/
theorem le_decode_concat (bs : List UInt8) (x : UInt8) :
    256 ^ bs.length * x.toNat ≤ decode (bs ++ [x]) := by
  have split : decode (bs ++ [x]) = decode bs + 256 ^ bs.length * x.toNat := by
    simp [decode, Nat.ofDigits_append]
  rw [split]
  exact Nat.le_add_left _ _

end LittleEndian
