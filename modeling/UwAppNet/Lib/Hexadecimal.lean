import Mathlib.Data.List.Basic
import Mathlib.Algebra.Ring.Nat

/-!
Bytes written as two upper-case hexadecimal digits each, and read back.

`numeral` is the shortest numeral of a number. Padded to two digits it is the pair of a
byte as long as the number is below 256, and longer than the padding from there on
(`length_padded`).
-/

namespace Hexadecimal

/-- The upper-case digit of a number below 16. -/
def digit (d : Nat) : Char := d.digitChar.toUpper

/-- The upper-case hexadecimal numeral of a number. -/
def numeral (n : Nat) : List Char := (Nat.toDigits 16 n).map Char.toUpper

/-- The numeral with zeros before it up to the given width. -/
def padded (width n : Nat) : List Char := (numeral n).leftpad width '0'

/-- The two digits of a byte. -/
def pair (b : UInt8) : List Char := [digit (b.toNat / 16), digit (b.toNat % 16)]

/-- The value of a digit of either case. -/
def value (c : Char) : Option Nat :=
  if '0' ≤ c ∧ c ≤ '9' then some (c.toNat - '0'.toNat)
  else if 'A' ≤ c ∧ c ≤ 'F' then some (c.toNat - 'A'.toNat + 10)
  else if 'a' ≤ c ∧ c ≤ 'f' then some (c.toNat - 'a'.toNat + 10)
  else none

/-- Read a text of digit pairs. -/
def decode : List Char → Option (List UInt8)
  | [] => some []
  | [_] => none
  | high :: low :: rest => do
      let h ← value high
      let l ← value low
      let bs ← decode rest
      return UInt8.ofNat (16 * h + l) :: bs

theorem value_digit : ∀ d < 16, value (digit d) = some d := by decide

theorem length_pair (b : UInt8) : (pair b).length = 2 := rfl

/-- A text of pairs reads back as the bytes. -/
theorem decode_flatMap_pair (bs : List UInt8) : decode (bs.flatMap pair) = some bs := by
  induction bs with
  | nil => rfl
  | cons b bs ih =>
      have small : b.toNat < 256 := b.toNat_lt
      have high : value (digit (b.toNat / 16)) = some (b.toNat / 16) :=
        value_digit _ (by omega)
      have low : value (digit (b.toNat % 16)) = some (b.toNat % 16) :=
        value_digit _ (Nat.mod_lt _ (by decide))
      have whole : UInt8.ofNat (16 * (b.toNat / 16) + b.toNat % 16) = b := by
        rw [Nat.div_add_mod, UInt8.ofNat_toNat]
      simp only [List.flatMap_cons, pair, List.cons_append, List.nil_append, decode, high, low,
        ih, Option.bind_eq_bind, Option.bind_some, whole]
      rfl

/-- Two digits are enough for a byte. -/
theorem padded_two (b : UInt8) : padded 2 b.toNat = pair b := by
  have small : b.toNat < 256 := b.toNat_lt
  by_cases one : b.toNat < 16
  · have high : b.toNat / 16 = 0 := Nat.div_eq_of_lt one
    rw [padded, numeral, Nat.toDigits_of_lt_base one, pair, high, Nat.mod_eq_of_lt one]
    rfl
  · have single : b.toNat / 16 < 16 := by omega
    rw [padded, numeral, Nat.toDigits_of_base_le (by decide) (Nat.not_lt.mp one),
      Nat.toDigits_of_lt_base single]
    rfl

/-- The width is only a minimum: a number that needs more digits gets them. -/
theorem length_padded {width k n : Nat} (width_le : width ≤ k + 1) (low : 16 ^ k ≤ n)
    (high : n < 16 ^ (k + 1)) (pos : 0 < k) : (padded width n).length = k + 1 := by
  have above : ¬ (Nat.toDigits 16 n).length ≤ k := by
    rw [Nat.length_toDigits_le_iff (by decide) pos]
    exact Nat.not_lt.mpr low
  have below : (Nat.toDigits 16 n).length ≤ k + 1 :=
    (Nat.length_toDigits_le_iff (by decide) (Nat.succ_pos k)).mpr high
  rw [padded, List.length_leftpad, numeral, List.length_map]
  omega

end Hexadecimal
