import UwAppNet.Header
import Mathlib.Logic.Function.Basic
import Mathlib.Algebra.Order.Field.Rat

/-!
`uwAppNetModule`: the counters of `uwAppNet_module.h` and the receive path
`statistics` of `uwAppNet_module.cpp`.

`int` counters are integers without a bound: they only ever step by one or by a
gap below `2 ^ 16`, so what is said of them describes the code as long as fewer
than `2 ^ 31` calls were made. `uint16_t` and `uint32_t` members keep their width,
because the comparisons of `statistics` mix them. A `double` is the exact rational.
Console output is left out; `debug_` only selects it.

What the source leaves undefined is kept visible in three ways. Where a thread runs
into it nothing more can be said, and the model stops there: the `memcpy` after a
failed `read` is the status `fault`, and the location `Loc.fault`. Where a value is
converted to an `int` it may not fit, the value before is still known, and results
carry the conjunct `converted`, that all conversions were defined. An access behind
the end of `sn_check` reads and writes memory that decides later steps: it goes to
the cells of a heap that the statements take as an input.
-/

namespace UwAppNet

/-- The state of a `uwAppNetModule`. `pTcpListener` says whether the pointer
`p_tcp_listener` is set. `snCheck i` is the `bool` stored `i` cells after
`sn_check`, whether or not the table reaches that far. -/
structure UwAppNetModule where
  dropOutOfOrder : Int
  dstAddr : UInt8
  portNum : Int
  pTcpListener : Bool
  snCheck : Nat → Bool
  uidcnt : Int
  txsn : Int
  rftt : Int
  pktsLost : Int
  pktsRecv : Int
  pktsOoseq : Int
  pktsInvalid : Int
  pktsPushQueue : Int
  lrtime : ℚ
  sumrtt : ℚ
  sumrtt2 : ℚ
  rttsamples : Int
  sumftt : ℚ
  sumftt2 : ℚ
  fttsamples : Int
  esn : UInt32
  sumbytes : ℚ
  sumdt : ℚ
  hrsn : Int

/-- The values of the Tcl-bound variables the model reads. -/
structure Bound where
  dropOutOfOrder : Int
  destAddr : UInt8
  destPort : Int
deriving DecidableEq, Repr

namespace UwAppNetModule

/-- The constructor: `new bool[USHRT_MAX]` finds `heap` at the address it
returns, and the loop clears exactly the `USHRT_MAX` cells of the table. -/
def init (heap : Nat → Bool) (b : Bound) : UwAppNetModule where
  dropOutOfOrder := b.dropOutOfOrder
  dstAddr := b.destAddr
  portNum := b.destPort
  pTcpListener := false
  snCheck := fun i => if i < ushrtMax then false else heap i
  uidcnt := 0
  txsn := 1
  rftt := 0
  pktsLost := 0
  pktsRecv := 0
  pktsOoseq := 0
  pktsInvalid := 0
  pktsPushQueue := 0
  lrtime := 0
  sumrtt := 0
  sumrtt2 := 0
  rttsamples := 0
  sumftt := 0
  sumftt2 := 0
  fttsamples := 0
  esn := 0
  sumbytes := 0
  sumdt := 0
  hrsn := 0

/-! ### The inline counters of `uwAppNet_module.h` -/

def useDropOutOfOrder (m : UwAppNetModule) : Bool := m.dropOutOfOrder == 1

def incrPktsPushQueue (m : UwAppNetModule) : UwAppNetModule :=
  { m with pktsPushQueue := m.pktsPushQueue + 1 }

/-- `return ++txsn`. -/
def incrPktSent (m : UwAppNetModule) : Int × UwAppNetModule :=
  (m.txsn + 1, { m with txsn := m.txsn + 1 })

/-- `return ++uidcnt`. -/
def incrUidCnt (m : UwAppNetModule) : Int × UwAppNetModule :=
  (m.uidcnt + 1, { m with uidcnt := m.uidcnt + 1 })

def getDstAddr (m : UwAppNetModule) : UInt8 := m.dstAddr

def getDstPort (m : UwAppNetModule) : Int := m.portNum

def getRftt (m : UwAppNetModule) : Int := m.rftt

def incrPktLost (m : UwAppNetModule) (npkts : Int) : UwAppNetModule :=
  { m with pktsLost := m.pktsLost + npkts }

def incrPktRecv (m : UwAppNetModule) : UwAppNetModule :=
  { m with pktsRecv := m.pktsRecv + 1 }

def incrPktOoseq (m : UwAppNetModule) : UwAppNetModule :=
  { m with pktsOoseq := m.pktsOoseq + 1 }

def incrPktInvalid (m : UwAppNetModule) : UwAppNetModule :=
  { m with pktsInvalid := m.pktsInvalid + 1 }

def getPktSent (m : UwAppNetModule) : Int := m.txsn - 1

def getPktLost (m : UwAppNetModule) : Int := m.pktsLost

def getPktRecv (m : UwAppNetModule) : Int := m.pktsRecv

def getPktsOOSequence (m : UwAppNetModule) : Int := m.pktsOoseq

def getPktsInvalidRx (m : UwAppNetModule) : Int := m.pktsInvalid

def getPktsPushQueue (m : UwAppNetModule) : Int := m.pktsPushQueue

/-! ### Accumulators -/

def updateRTT (m : UwAppNetModule) (rtt : ℚ) : UwAppNetModule :=
  { m with
    sumrtt := m.sumrtt + rtt
    sumrtt2 := m.sumrtt2 + rtt * rtt
    rttsamples := m.rttsamples + 1 }

def updateFTT (m : UwAppNetModule) (ftt : ℚ) : UwAppNetModule :=
  { m with
    sumftt := m.sumftt + ftt
    sumftt2 := m.sumftt2 + ftt * ftt
    fttsamples := m.fttsamples + 1 }

def updateThroughput (m : UwAppNetModule) (bytes : Int) (dt : ℚ) : UwAppNetModule :=
  { m with
    sumbytes := m.sumbytes + bytes
    sumdt := m.sumdt + dt }

def getRTT (m : UwAppNetModule) : ℚ :=
  if m.rttsamples > 0 then m.sumrtt / m.rttsamples else 0

def getFTT (m : UwAppNetModule) : ℚ :=
  if m.fttsamples > 0 then m.sumftt / m.fttsamples else 0

/-- `var` of `GetRTTstd`. -/
def rttVar (m : UwAppNetModule) : ℚ :=
  (m.sumrtt2 - m.sumrtt * m.sumrtt / m.rttsamples) / (m.rttsamples - 1 : Int)

/-- `var` of `GetFTTstd`. -/
def fttVar (m : UwAppNetModule) : ℚ :=
  (m.sumftt2 - m.sumftt * m.sumftt / m.fttsamples) / (m.fttsamples - 1 : Int)

/-- The standard deviation of the round trip times; `sqrt` has no value (a NaN) for a
negative number. -/
def getRTTstd {F : Type*} [Zero F] (sqrt : ℚ → Option F) (m : UwAppNetModule) : Option F :=
  if m.rttsamples > 1 then sqrt m.rttVar else some 0

def getFTTstd {F : Type*} [Zero F] (sqrt : ℚ → Option F) (m : UwAppNetModule) : Option F :=
  if m.fttsamples > 1 then
    if m.fttVar > 0 then sqrt m.fttVar else some 0
  else some 0

def getTHR (m : UwAppNetModule) : ℚ :=
  if m.sumdt ≠ 0 then m.sumbytes * 8 / m.sumdt else 0

/-- The packet error rate: in drop mode lost over lost plus received, else one
minus received over `esn - 1`, an unsigned difference. -/
def getPER (m : UwAppNetModule) : ℚ :=
  if m.dropOutOfOrder ≠ 0 then
    if m.pktsRecv + m.pktsLost > 0 then m.pktsLost / (m.pktsRecv + m.pktsLost : Int) else 0
  else
    if m.esn > 1 then 1 - m.pktsRecv / ((m.esn - 1).toNat : ℚ) else 0

end UwAppNetModule

/-! ### The receive path -/

/-- The reasons given to `drop`. -/
inductive DropReason where
  | unknownType | duplicatedPacket | outOfSequence
deriving DecidableEq, Repr

/-- The texts of the `UWAPPLICATION_DROP_REASON_*` macros. -/
def DropReason.text : DropReason → String
  | .unknownType => "DPUT"
  | .duplicatedPacket => "DPD"
  | .outOfSequence => "DOOS"

/-- How `statistics` disposes of a packet: dropped with a reason, or accepted,
with the bytes handed to `send_data` when there is a listener. -/
inductive Exit where
  | drop (reason : DropReason)
  | accept (sendData : Option (List UInt8))
deriving DecidableEq, Repr

/-- The subscript `sn_ & 0x00ffffff`. -/
def snIndex (sn : UInt16) : Nat := sn.toNat &&& 0x00ffffff

/-- Conversion of a `double` to `int`: the fraction is cut off. -/
def truncToInt (q : ℚ) : Int := q.num.tdiv q.den

/-- `uint32_t` read as `int`. -/
def uint32ToInt (x : UInt32) : Int := Int.bmod x.toNat 0x100000000

/-- A `bool` promoted to `int`. -/
def boolToInt (b : Bool) : Int := if b then 1 else 0

namespace UwAppNetModule

/-- `statistics` from the forward trip time on: the packet passed every check. -/
def accept (m : UwAppNetModule) (clock : ℚ) (p : Packet) : UwAppNetModule × Exit :=
  -- the clock difference is a double, the member an int
  let m := { m with rftt := truncToInt (clock - p.ch.timestamp) }
  let m :=
    if (boolToInt p.uwApph.rfttValid).tdiv 10000 ≠ 0 then
      m.updateRTT (m.rftt + p.uwApph.rftt : Int)
    else m
  let m := m.updateFTT m.rftt
  let m := { m with hrsn := p.uwApph.sn.toNat }
  -- verify if a packet is lost
  let m :=
    if m.useDropOutOfOrder && decide (p.uwApph.sn.toUInt32 > m.esn) then
      m.incrPktLost (uint32ToInt (p.uwApph.sn.toUInt32 - m.esn))
    else m
  let dt := clock - m.lrtime
  let m := m.updateThroughput p.uwApph.payloadSize.toNat dt
  let m := m.incrPktRecv
  let m := { m with lrtime := clock }
  (m, .accept (if m.pTcpListener then some p.payload else none))

/-- `statistics(p)` at the scheduler time `clock`. -/
def statistics (m : UwAppNetModule) (clock : ℚ) (p : Packet) : UwAppNetModule × Exit :=
  if p.ch.ptype ≠ .dataApplication then
    (m.incrPktInvalid, .drop .unknownType)
  else
    let m := { m with esn := UInt32.ofInt (m.hrsn + 1) }
    -- verify if the data packet is already processed
    if m.useDropOutOfOrder && m.snCheck (snIndex p.uwApph.sn) then
      (m.incrPktInvalid, .drop .duplicatedPacket)
    else
      let m := { m with snCheck := Function.update m.snCheck (snIndex p.uwApph.sn) true }
      -- the data packet received is out of order
      if m.useDropOutOfOrder && decide (p.uwApph.sn.toUInt32 < m.esn) then
        (m.incrPktOoseq, .drop .outOfSequence)
      else
        m.accept clock p

end UwAppNetModule

end UwAppNet
