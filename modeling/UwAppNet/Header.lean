import Mathlib.Data.Rat.Defs

/-!
The packet: `hdr_DATA_APPLICATION` of `uwAppNet_cmn_header.h` and the fields of
the common, UDP and IP headers that the module writes or reads.

A `char` array is the memory at its address (`Buffer`), so a copy of more bytes
than the array has is expressible; whether one happens is what the framing
results are about.
-/

namespace UwAppNet

/-- `MAX_LENGTH_PAYLOAD`. -/
def maxLengthPayload : Nat := 4096

/-- `USHRT_MAX` of `<climits>`. -/
def ushrtMax : Nat := 65535

/-- The bytes found at and after the address of a `char` array. -/
abbrev Buffer := Nat → UInt8

/-- The first `n` bytes of a buffer. -/
def Buffer.bytes (buf : Buffer) (n : Nat) : List UInt8 :=
  (List.range n).map buf

/-- Store `bs` from the start of the buffer; what lies behind stays. -/
def Buffer.store (buf : Buffer) (bs : List UInt8) : Buffer :=
  fun i => bs.getD i (buf i)

/-- `memcpy(dst, src, n)`. -/
def memcpy (dst src : Buffer) (n : Nat) : Buffer :=
  fun i => if i < n then src i else dst i

@[simp] theorem Buffer.length_bytes (buf : Buffer) (n : Nat) : (buf.bytes n).length = n := by
  simp [Buffer.bytes]

/-- Reading back what was stored. -/
@[simp] theorem Buffer.bytes_store (buf : Buffer) (bs : List UInt8) :
    (buf.store bs).bytes bs.length = bs := by
  apply List.ext_getElem
  · simp
  · intro i _ hi
    simp [Buffer.bytes, Buffer.store, hi]

/-- A copy carries the first `n` bytes over unchanged. -/
@[simp] theorem bytes_memcpy (dst src : Buffer) (n : Nat) :
    Buffer.bytes (memcpy dst src n) n = src.bytes n := by
  apply List.map_congr_left
  intro i hi
  simp [memcpy, List.mem_range.mp hi]

/-- `packet_t`: the registered type of this application and every other one. -/
inductive PacketType where
  | dataApplication
  | other (id : Nat)
deriving DecidableEq, Repr

/-- `hdr_cmn::dir_t`. -/
inductive Direction where
  | down | none | up
deriving DecidableEq, Repr

/-- The fields of `hdr_cmn` the module uses. -/
structure HdrCmn where
  uid : Int
  ptype : PacketType
  direction : Direction
  size : Int
  timestamp : ℚ

/-- `hdr_DATA_APPLICATION`. -/
structure HdrDataApplication where
  sn : UInt16
  rftt : Int
  rfttValid : Bool
  priority : UInt8
  payloadSize : UInt16
  payloadMsg : Buffer

/-- A packet with its common, UDP (`dport`), IP (`daddr`) and application
headers. -/
structure Packet where
  ch : HdrCmn
  dport : Int
  daddr : UInt8
  uwApph : HdrDataApplication

/-- The bytes `payload_msg[0 .. payload_size)`. -/
def Packet.payload (p : Packet) : List UInt8 :=
  p.uwApph.payloadMsg.bytes p.uwApph.payloadSize.toNat

end UwAppNet
