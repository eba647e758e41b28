import UwAppNet.Header
import UwAppNet.Lib.Hexadecimal

/-!
The hexadecimal rendering of `string_utils.h`, which `HandleTCPclient` logs payloads
with.

A `char` is signed on the supported targets, so `(int)in` is negative for a byte from
0x80 on. `std::hex` prints the 32 bits of it, and `setw(2)` does not cut them.
-/

namespace UwAppNet

open Hexadecimal

/-- `(int)in` of a `char`. -/
def charToInt (c : UInt8) : Int := Int.bmod c.toNat 256

/-- An `int` put into a stream under `std::hex << std::setfill('0') << std::setw(2) <<
std::uppercase`: the digits of its value as an `unsigned int`. -/
def streamHex (n : Int) : List Char := padded 2 (n % 0x100000000).toNat

/-- `to_hexstring` of a `char`. -/
def toHexstring (c : UInt8) (withSpace withLeadingX : Bool) : List Char :=
  (if withLeadingX then ['0', 'x'] else []) ++ streamHex (charToInt c) ++
    if withSpace then [' '] else []

def stringToHexstring (s : List UInt8) (withSpace withLeadingX : Bool) : List Char :=
  s.flatMap fun c => toHexstring c withSpace withLeadingX

def bufferToHexstring (buf : Buffer) (size : Int) (withSpace withLeadingX : Bool) :
    List Char :=
  (List.range size.toNat).flatMap fun i => toHexstring (buf i) withSpace withLeadingX

/-! ### One byte -/

/-- A byte below 0x80 is a nonnegative `char`. -/
theorem streamHex_low {c : UInt8} (low : c < 0x80) : streamHex (charToInt c) = pair c := by
  have small : c.toNat < 128 := UInt8.lt_iff_toNat_lt.mp low
  have same : charToInt c = c.toNat := Int.bmod_eq_of_le (by omega) (by omega)
  have unsigned : ((c.toNat : Int) % 0x100000000).toNat = c.toNat := by omega
  rw [streamHex, same, unsigned, padded_two]

/-- The upper half of the bytes wraps around to the negative numbers. -/
theorem bmod_negative {n : Nat} (large : 128 ≤ n) (small : n < 256) :
    Int.bmod n 256 = n - 256 := by
  rw [Int.bmod_def]
  omega

/-- A byte from 0x80 on is a negative one, whose high bits take six digits more. -/
theorem length_streamHex_high {c : UInt8} (high : ¬ c < 0x80) :
    (streamHex (charToInt c)).length = 8 := by
  have large : 128 ≤ c.toNat := by
    simpa using UInt8.le_iff_toNat_le.mp (UInt8.not_lt.mp high)
  have small : c.toNat < 256 := c.toNat_lt
  have negative : charToInt c = c.toNat - 256 := bmod_negative large small
  have unsigned : (((c.toNat : Int) - 256) % 0x100000000).toNat = 0xffffff00 + c.toNat := by
    omega
  have above : 16 ^ 7 ≤ 0xffffff00 + c.toNat := by omega
  have below : 0xffffff00 + c.toNat < 16 ^ (7 + 1) := by omega
  rw [streamHex, negative, unsigned]
  exact length_padded (by decide) above below (by decide)

/-! ### Whole buffers -/

/-- Both renderings of a text are the same. -/
theorem bufferToHexstring_eq (buf : Buffer) (size : Nat) (withSpace withLeadingX : Bool) :
    bufferToHexstring buf size withSpace withLeadingX =
      stringToHexstring (buf.bytes size) withSpace withLeadingX := by
  rw [bufferToHexstring, stringToHexstring, Buffer.bytes, List.flatMap_map, Int.toNat_natCast]

/-- Every byte from 0x80 on makes the text six characters too long. -/
theorem length_stringToHexstring (s : List UInt8) :
    (stringToHexstring s false false).length =
      2 * s.length + 6 * s.countP fun c => !decide (c < 0x80) := by
  induction s with
  | nil => rfl
  | cons c s ih =>
      have split : (stringToHexstring (c :: s) false false).length =
          (streamHex (charToInt c)).length + (stringToHexstring s false false).length := by
        simp [stringToHexstring, toHexstring]
      rw [split, ih, List.countP_cons, List.length_cons]
      by_cases low : c < 0x80
      · rw [streamHex_low low, length_pair]
        simp only [low, decide_true, Bool.not_true, Bool.false_eq_true, if_false]
        omega
      · rw [length_streamHex_high low]
        simp only [low, decide_false, Bool.not_false, if_true]
        omega

/-- What the renderings of a buffer should be. -/
structure HexFaithful (buf : Buffer) (size : Nat) : Prop where
  digits : bufferToHexstring buf size false false = (buf.bytes size).flatMap pair
  length : (bufferToHexstring buf size false false).length = 2 * size
  decoded : decode (bufferToHexstring buf size false false) = some (buf.bytes size)
  decorated : ∀ withSpace withLeadingX, bufferToHexstring buf size withSpace withLeadingX =
    (buf.bytes size).flatMap fun c =>
      (if withLeadingX then ['0', 'x'] else []) ++ pair c ++ if withSpace then [' '] else []
  string : ∀ withSpace withLeadingX, stringToHexstring (buf.bytes size) withSpace withLeadingX =
    bufferToHexstring buf size withSpace withLeadingX

theorem decorated_of_low {s : List UInt8} (low : ∀ c ∈ s, c < 0x80)
    (withSpace withLeadingX : Bool) : stringToHexstring s withSpace withLeadingX =
      s.flatMap fun c =>
        (if withLeadingX then ['0', 'x'] else []) ++ pair c ++ if withSpace then [' '] else [] := by
  rw [stringToHexstring]
  apply List.flatMap_congr
  intro c hc
  rw [toHexstring, streamHex_low (low c hc)]

/-- The rendering of a buffer is faithful exactly when it holds no byte from 0x80 on. -/
theorem hex_faithful_iff (buf : Buffer) (size : Nat) :
    HexFaithful buf size ↔ ∀ c ∈ buf.bytes size, c < 0x80 := by
  constructor
  · intro faithful
    have length := faithful.length
    rw [bufferToHexstring_eq, length_stringToHexstring, Buffer.length_bytes] at length
    have none : (buf.bytes size).countP (fun c => !decide (c < 0x80)) = 0 := by omega
    simpa using List.countP_eq_zero.mp none
  · intro low
    have digits : bufferToHexstring buf size false false = (buf.bytes size).flatMap pair := by
      rw [bufferToHexstring_eq, decorated_of_low low]
      simp
    constructor
    · exact digits
    · rw [digits, List.length_flatMap]
      simp only [length_pair, List.map_const', List.sum_replicate_nat, Buffer.length_bytes]
      exact Nat.mul_comm ..
    · rw [digits]
      exact decode_flatMap_pair _
    · intro withSpace withLeadingX
      rw [bufferToHexstring_eq]
      exact decorated_of_low low withSpace withLeadingX
    · intro withSpace withLeadingX
      exact (bufferToHexstring_eq buf size withSpace withLeadingX).symm

/-- The byte 0x80 is rendered as eight digits. -/
theorem high_byte_sign_extended :
    bufferToHexstring (fun _ => 0x80) 1 false false = "FFFFFF80".toList ∧
      ¬ HexFaithful (fun _ => 0x80) 1 := by
  refine ⟨by decide, fun faithful => ?_⟩
  have low := (hex_faithful_iff _ _).mp faithful 0x80 (by decide)
  exact absurd low (by decide)

end UwAppNet
