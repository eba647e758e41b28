import UwAppNet.Sender
import UwAppNet.Lib.LittleEndian

/-!
One client connection: `ReceivePacket` and the loop of `HandleTCPclient`.

The peer is whatever answers `read`. The words `magic` and `size` are stack
variables that nothing initialises, so a short read leaves part of their old
contents in place. A `memcpy` longer than `payload_msg` has no defined outcome: the
run ends there, in `fault`.
-/

namespace UwAppNet

/-! ### Reading -/

/-- `MAGIC`. -/
def magicTag : Nat := 0x20041969

/-- What one `read` returns: -1, or the bytes it stored (none at the end of the
stream). -/
inductive ReadResult where
  | error
  | bytes (bs : List UInt8)
deriving DecidableEq, Repr

/-- The value `read` returns. -/
def ReadResult.ret : ReadResult → Int
  | .error => -1
  | .bytes bs => bs.length

/-- The other end of a connection, as seen through `read`: never more bytes than
asked for. -/
structure Peer (σ : Type*) where
  read : σ → Nat → ReadResult × σ
  bounded : ∀ s n bs, (read s n).1 = .bytes bs → bs.length ≤ n

/-- The `uint32_t` at the start of a buffer, on a little-endian host. -/
def Buffer.word (buf : Buffer) : Nat := LittleEndian.decode (buf.bytes 4)

/-- The outcome of `ReceivePacket`: its return value, `buffer_msg` and the peer
afterwards, and what its calls of `read` returned. -/
structure Received (σ : Type*) where
  ret : Int
  bufferMsg : Buffer
  peer : σ
  reads : List ReadResult

/-- `ReceivePacket`; `magic` and `size` are what its stack variables hold before the
reads. -/
def receivePacket {σ : Type*} (peer : Peer σ) (s : σ) (magic size bufferMsg : Buffer) :
    Received σ :=
  match peer.read s 4 with
  | (.error, s) => ⟨-1, bufferMsg, s, [.error]⟩
  | (.bytes m, s) =>
      if m.length = 0 then ⟨0, bufferMsg, s, [.bytes m]⟩
      else if (magic.store m).word ≠ magicTag then ⟨0, bufferMsg, s, [.bytes m]⟩
      else
        match peer.read s 4 with
        | (.error, s) => ⟨-1, bufferMsg, s, [.bytes m, .error]⟩
        | (.bytes l, s) =>
            if l.length = 0 then ⟨0, bufferMsg, s, [.bytes m, .bytes l]⟩
            else if (size.store l).word > maxLengthPayload then
              ⟨0, bufferMsg, s, [.bytes m, .bytes l]⟩
            else
              match peer.read s (size.store l).word with
              | (.error, s) => ⟨-1, bufferMsg, s, [.bytes m, .bytes l, .error]⟩
              | (.bytes d, s) =>
                  ⟨d.length, bufferMsg.store d, s, [.bytes m, .bytes l, .bytes d]⟩

/-! ### The loop -/

/-- What the loop works on. -/
structure Client (σ : Type*) where
  peer : σ
  clnSockDescr : Nat
  bufferMsg : Buffer
  queuePckRead : List Packet
  pktsPushQueue : Int

/-- What an iteration finds: `StopRequested()`, the outcome of `ReadyToRead`, the
stack under `magic` and `size`, and the storage `Packet::alloc()` returns. -/
structure Tick where
  stopRequested : Bool
  ready : Bool
  magic : Buffer
  size : Buffer
  alloc : Packet

/-- How an iteration ends. -/
inductive Status where
  | again | closed | fault
deriving DecidableEq, Repr

/-- A record of one iteration: the results of its reads, the length given to
`memcpy`, the packet enqueued, the state afterwards. -/
structure Iteration (σ : Type*) where
  before : Client σ
  reads : List ReadResult
  memcpyLen : Option Nat
  pushed : Option Packet
  after : Client σ
  status : Status

/-- The outcome of the loop over some iterations; `again` means it still runs. -/
structure Handled (σ : Type*) where
  iterations : List (Iteration σ)
  client : Client σ
  status : Status

namespace Client

variable {σ : Type*}

/-- `queuePckRead.push(p); p_Owner->incrPktsPushQueue()`. -/
def push (c : Client σ) (p : Packet) : Client σ :=
  { c with
    queuePckRead := c.queuePckRead ++ [p]
    pktsPushQueue := c.pktsPushQueue + 1 }

/-- `close(clnSockDescr); clnSockDescr = 0`. -/
def close (c : Client σ) : Client σ := { c with clnSockDescr := 0 }

/-- The body of the loop. -/
def iterate (peer : Peer σ) (c : Client σ) (t : Tick) : Iteration σ :=
  if !t.ready then
    { before := c, reads := [], memcpyLen := none, pushed := none, after := c
      status := .again }
  else
    let r := receivePacket peer c.peer t.magic t.size c.bufferMsg
    let read := { c with peer := r.peer, bufferMsg := r.bufferMsg }
    -- client disconnected, or a bad header
    if r.ret = 0 then
      { before := c, reads := r.reads, memcpyLen := none, pushed := none, after := read
        status := .closed }
    else if sizeT r.ret > maxLengthPayload then
      { before := c, reads := r.reads, memcpyLen := some (sizeT r.ret), pushed := none
        after := read, status := .fault }
    else
      let p := makePacket t.alloc r.bufferMsg r.ret
      { before := c, reads := r.reads, memcpyLen := some (sizeT r.ret), pushed := some p
        after := read.push p, status := .again }

/-- `HandleTCPclient`, as far as the given ticks last. -/
def handleTCPclient (peer : Peer σ) (c : Client σ) : List Tick → Handled σ
  | [] => ⟨[], c, .again⟩
  | t :: ticks =>
      if t.stopRequested then ⟨[], c.close, .closed⟩
      else
        let i := c.iterate peer t
        match i.status with
        | .again =>
            let rest := i.after.handleTCPclient peer ticks
            { rest with iterations := i :: rest.iterations }
        | .closed => ⟨[i], i.after.close, .closed⟩
        | .fault => ⟨[i], i.after, .fault⟩

end Client

/-! ### The exits of `ReceivePacket` -/

section Receive

variable {σ : Type*} (peer : Peer σ) (s : σ) (magic size bufferMsg : Buffer)

/-- The six exits of `ReceivePacket`, by what they return: an error, which a read
reported; 0, for the end of the stream or a bad header; the length of the last read,
which fits the buffer. -/
theorem receivePacket_cases :
    (∃ s' reads, .error ∈ reads ∧
        receivePacket peer s magic size bufferMsg = ⟨-1, bufferMsg, s', reads⟩) ∨
      (∃ s' reads, .error ∉ reads ∧
        receivePacket peer s magic size bufferMsg = ⟨0, bufferMsg, s', reads⟩) ∨
      ∃ s' m l d, d.length ≤ maxLengthPayload ∧
        receivePacket peer s magic size bufferMsg =
          ⟨d.length, bufferMsg.store d, s', [.bytes m, .bytes l, .bytes d]⟩ := by
  unfold receivePacket
  split
  · exact .inl ⟨_, _, by simp, rfl⟩
  · split
    · exact .inr (.inl ⟨_, _, by simp, rfl⟩)
    split
    · exact .inr (.inl ⟨_, _, by simp, rfl⟩)
    split
    · exact .inl ⟨_, _, by simp, rfl⟩
    · split
      · exact .inr (.inl ⟨_, _, by simp, rfl⟩)
      split
      · exact .inr (.inl ⟨_, _, by simp, rfl⟩)
      rename_i l _ _ _ fits
      split
      · exact .inl ⟨_, _, by simp, rfl⟩
      · rename_i d s' third
        have short := peer.bounded _ _ d (congrArg Prod.fst third)
        exact .inr (.inr ⟨s', _, l, d, short.trans (not_lt.mp fits), rfl⟩)

variable {peer s magic size bufferMsg} {s₁ s₂ s₃ : σ} {m l d : List UInt8}

/-- The end of the stream where a frame may begin is the end of the connection. -/
theorem receivePacket_end (first : peer.read s 4 = (.bytes m, s₁)) (nothing : m.length = 0) :
    receivePacket peer s magic size bufferMsg = ⟨0, bufferMsg, s₁, [.bytes m]⟩ := by
  rw [receivePacket, first]
  simp [nothing]

/-- Four bytes that are not the tag end the connection. -/
theorem receivePacket_bad_tag (first : peer.read s 4 = (.bytes m, s₁))
    (bad : (magic.store m).word ≠ magicTag) :
    receivePacket peer s magic size bufferMsg = ⟨0, bufferMsg, s₁, [.bytes m]⟩ := by
  rw [receivePacket, first]
  simp [bad]

/-- So does the end of the stream behind the tag. -/
theorem receivePacket_no_length (first : peer.read s 4 = (.bytes m, s₁))
    (nonempty : m.length ≠ 0) (tag : (magic.store m).word = magicTag)
    (second : peer.read s₁ 4 = (.bytes l, s₂)) (nothing : l.length = 0) :
    receivePacket peer s magic size bufferMsg = ⟨0, bufferMsg, s₂, [.bytes m, .bytes l]⟩ := by
  rw [receivePacket, first]
  dsimp only
  rw [if_neg nonempty, if_neg (not_not.mpr tag), second]
  simp [nothing]

/-- So does a length above the buffer's. -/
theorem receivePacket_bad_length (first : peer.read s 4 = (.bytes m, s₁))
    (nonempty : m.length ≠ 0) (tag : (magic.store m).word = magicTag)
    (second : peer.read s₁ 4 = (.bytes l, s₂)) (bad : maxLengthPayload < (size.store l).word) :
    receivePacket peer s magic size bufferMsg = ⟨0, bufferMsg, s₂, [.bytes m, .bytes l]⟩ := by
  rw [receivePacket, first]
  dsimp only
  rw [if_neg nonempty, if_neg (not_not.mpr tag), second]
  simp [bad]

/-- A tag and a length in range let the last read decide. -/
theorem receivePacket_data (first : peer.read s 4 = (.bytes m, s₁))
    (nonempty : m.length ≠ 0) (tag : (magic.store m).word = magicTag)
    (second : peer.read s₁ 4 = (.bytes l, s₂)) (nonempty' : l.length ≠ 0)
    (fits : (size.store l).word ≤ maxLengthPayload)
    (third : peer.read s₂ (size.store l).word = (.bytes d, s₃)) :
    receivePacket peer s magic size bufferMsg =
      ⟨d.length, bufferMsg.store d, s₃, [.bytes m, .bytes l, .bytes d]⟩ := by
  rw [receivePacket, first]
  dsimp only
  rw [if_neg nonempty, if_neg (not_not.mpr tag), second]
  dsimp only
  rw [if_neg nonempty', if_neg (not_lt.mpr fits), third]

end Receive

/-! ### One iteration -/

section Iterate

variable {σ : Type*} (peer : Peer σ) (c : Client σ) (t : Tick)

variable {peer c t} in
/-- Without data an iteration changes nothing. -/
theorem iterate_idle (idle : t.ready = false) :
    c.iterate peer t = ⟨c, [], none, none, c, .again⟩ := by
  simp [Client.iterate, idle]

variable {peer c t} in
/-- A return value of 0 ends the connection. -/
theorem iterate_zero (ready : t.ready = true)
    (zero : (receivePacket peer c.peer t.magic t.size c.bufferMsg).ret = 0) :
    (c.iterate peer t).status = .closed ∧ (c.iterate peer t).pushed = none := by
  simp [Client.iterate, ready, zero]

variable {peer c t} in
/-- A length is copied and enqueued. -/
theorem iterate_data (ready : t.ready = true) {n : Nat}
    (ret : (receivePacket peer c.peer t.magic t.size c.bufferMsg).ret = n) (pos : 1 ≤ n)
    (fits : n ≤ maxLengthPayload) :
    let r := receivePacket peer c.peer t.magic t.size c.bufferMsg
    let p := makePacket t.alloc r.bufferMsg n
    c.iterate peer t = ⟨c, r.reads, some n, some p,
      { c with peer := r.peer, bufferMsg := r.bufferMsg }.push p, .again⟩ := by
  intro r p
  have fits' : n ≤ 4096 := fits
  have len : sizeT (n : Int) = n := sizeT_natCast (by omega)
  have nonzero : ¬ (n : Int) = 0 := by omega
  unfold Client.iterate
  dsimp only
  rw [ready, if_neg (by decide), ret, if_neg nonzero, len, if_neg (not_lt.mpr fits)]

/-- What an iteration does. -/
theorem iterate_cases :
    -- nothing to read
    (t.ready = false ∧ c.iterate peer t = ⟨c, [], none, none, c, .again⟩) ∨
      -- a failed read: the error code is taken for a length
      (∃ s' reads, t.ready = true ∧ .error ∈ reads ∧ c.iterate peer t =
        ⟨c, reads, some 0xffffffffffffffff, none, { c with peer := s' }, .fault⟩) ∨
      -- end of the stream, or a bad header
      (∃ s' reads bufferMsg, t.ready = true ∧ .error ∉ reads ∧ c.iterate peer t =
        ⟨c, reads, none, none, { c with peer := s', bufferMsg := bufferMsg }, .closed⟩) ∨
      -- a packet
      ∃ s' m l d, t.ready = true ∧ 1 ≤ d.length ∧ d.length ≤ maxLengthPayload ∧
        c.iterate peer t =
          ⟨c, [.bytes m, .bytes l, .bytes d], some d.length,
            some (makePacket t.alloc (c.bufferMsg.store d) d.length),
            { c with peer := s', bufferMsg := c.bufferMsg.store d }.push
              (makePacket t.alloc (c.bufferMsg.store d) d.length), .again⟩ := by
  cases ready : t.ready with
  | false => exact .inl ⟨rfl, iterate_idle ready⟩
  | true =>
      right
      rcases receivePacket_cases peer c.peer t.magic t.size c.bufferMsg with
        ⟨s', reads, failed, eq⟩ | ⟨s', reads, fine, eq⟩ | ⟨s', m, l, d, fits, eq⟩
      · refine .inl ⟨s', reads, rfl, failed, ?_⟩
        rw [Client.iterate, ready, eq]
        rfl
      · refine .inr (.inl ⟨s', reads, c.bufferMsg, rfl, fine, ?_⟩)
        rw [Client.iterate, ready, eq]
        rfl
      · by_cases empty : d.length = 0
        · refine .inr (.inl ⟨s', [.bytes m, .bytes l, .bytes d], c.bufferMsg.store d, rfl,
            by simp, ?_⟩)
          rw [Client.iterate, ready, eq, List.length_eq_zero_iff.mp empty]
          rfl
        · have pos : 1 ≤ d.length := Nat.pos_of_ne_zero empty
          have data := iterate_data ready (congrArg Received.ret eq) pos fits
          rw [eq] at data
          exact .inr (.inr ⟨s', m, l, d, rfl, pos, fits, data⟩)

/-- An iteration appends the packet it built, if any, and counts it. -/
theorem iterate_after :
    (c.iterate peer t).after.queuePckRead =
        c.queuePckRead ++ (c.iterate peer t).pushed.toList ∧
      (c.iterate peer t).after.pktsPushQueue =
        c.pktsPushQueue + (c.iterate peer t).pushed.toList.length := by
  rcases iterate_cases peer c t with
    ⟨-, eq⟩ | ⟨s', reads, -, -, eq⟩ | ⟨s', reads, buf, -, -, eq⟩ | ⟨s', m, l, d, -, -, -, eq⟩ <;>
    rw [eq] <;> simp [Client.push]

end Iterate

/-! ### The whole loop -/

section Loop

variable {σ : Type*} {peer : Peer σ}

/-- The iterations of the loop are iterations of its body. -/
theorem exists_iterate {c : Client σ} {ticks : List Tick} {i : Iteration σ}
    (hi : i ∈ (c.handleTCPclient peer ticks).iterations) :
    ∃ c' t, i = Client.iterate peer c' t := by
  induction ticks generalizing c with
  | nil => simp [Client.handleTCPclient] at hi
  | cons t ticks ih =>
      unfold Client.handleTCPclient at hi
      split at hi
      · simp at hi
      · dsimp only at hi
        split at hi
        · rcases List.mem_cons.mp hi with first | later
          · exact ⟨c, t, first⟩
          · exact ih later
        · exact ⟨c, t, List.mem_singleton.mp hi⟩
        · exact ⟨c, t, List.mem_singleton.mp hi⟩

section Cons

variable {c : Client σ} {t : Tick} {ticks : List Tick}

theorem handleTCPclient_again (running : t.stopRequested = false)
    (again : (c.iterate peer t).status = .again) :
    c.handleTCPclient peer (t :: ticks) =
      { (c.iterate peer t).after.handleTCPclient peer ticks with
        iterations := c.iterate peer t ::
          ((c.iterate peer t).after.handleTCPclient peer ticks).iterations } := by
  simp [Client.handleTCPclient, running, again]

theorem handleTCPclient_closed (running : t.stopRequested = false)
    (closed : (c.iterate peer t).status = .closed) :
    c.handleTCPclient peer (t :: ticks) =
      ⟨[c.iterate peer t], (c.iterate peer t).after.close, .closed⟩ := by
  simp [Client.handleTCPclient, running, closed]

end Cons

/-- The packets enqueued over a loop, in order. -/
def Handled.pushed (h : Handled σ) : List Packet :=
  h.iterations.flatMap fun i => i.pushed.toList

/-- The loop appends exactly the packets its iterations built, and counts them. -/
theorem handled_queue (c : Client σ) (ticks : List Tick) :
    (c.handleTCPclient peer ticks).client.queuePckRead =
        c.queuePckRead ++ (c.handleTCPclient peer ticks).pushed ∧
      (c.handleTCPclient peer ticks).client.pktsPushQueue =
        c.pktsPushQueue + (c.handleTCPclient peer ticks).pushed.length := by
  induction ticks generalizing c with
  | nil => simp [Client.handleTCPclient, Handled.pushed]
  | cons t ticks ih =>
      obtain ⟨queue, count⟩ := iterate_after peer c t
      unfold Client.handleTCPclient
      split
      · simp [Handled.pushed, Client.close]
      · dsimp only
        split
        · obtain ⟨queueRest, countRest⟩ := ih (c.iterate peer t).after
          simp only [Handled.pushed, List.flatMap_cons, List.length_append] at *
          rw [queueRest, countRest, queue, count]
          refine ⟨List.append_assoc .., ?_⟩
          push_cast
          exact add_assoc ..
        · simpa [Handled.pushed, Client.close] using ⟨queue, count⟩
        · simpa [Handled.pushed] using ⟨queue, count⟩

/-! ### Failed reads -/

/-- What an iteration should guarantee whatever its reads return: copies stay inside
the payload buffer, packets have the size they carry, and a failed read enqueues
nothing and ends the connection. -/
structure ReadSafe (i : Iteration σ) : Prop where
  copied : ∀ n, i.memcpyLen = some n → 1 ≤ n ∧ n ≤ maxLengthPayload
  enqueued : ∀ p, i.pushed = some p →
    p.ch.size = p.uwApph.payloadSize.toNat ∧ 1 ≤ p.ch.size ∧ p.ch.size ≤ maxLengthPayload
  failed : .error ∈ i.reads →
    i.after.queuePckRead = i.before.queuePckRead ∧
      i.after.pktsPushQueue = i.before.pktsPushQueue ∧ i.status = .closed

/-- The sizes a packet of `n` bytes is given. -/
theorem size_makePacket (alloc : Packet) (bufferMsg : Buffer) {n : Nat}
    (small : n ≤ maxLengthPayload) :
    (makePacket alloc bufferMsg n).ch.size = n ∧
      (makePacket alloc bufferMsg n).uwApph.payloadSize.toNat = n := by
  have small' : n ≤ 4096 := small
  refine ⟨rfl, ?_⟩
  have cut : ((n : Int) % 2 ^ 16).toNat = n := by omega
  rw [makePacket, UInt16.ofInt, cut, UInt16.toNat_ofNat']
  omega

/-- An iteration is safe exactly when none of its reads failed. -/
theorem readSafe_iff (c : Client σ) (t : Tick) :
    ReadSafe (c.iterate peer t) ↔ .error ∉ (c.iterate peer t).reads := by
  rcases iterate_cases peer c t with
    ⟨-, eq⟩ | ⟨s', reads, -, failed, eq⟩ | ⟨s', reads, buf, -, fine, eq⟩ |
      ⟨s', m, l, d, -, some_bytes, fits, eq⟩
  · rw [eq]
    refine ⟨fun _ => by simp, fun _ => ⟨by simp, by simp, by simp⟩⟩
  · rw [eq]
    refine ⟨fun safe => ?_, fun fine => absurd failed fine⟩
    have copied := (safe.copied _ rfl).2
    exact absurd copied (by decide)
  · rw [eq]
    exact ⟨fun _ => fine, fun _ => ⟨by simp, by simp, fun failed => absurd failed fine⟩⟩
  · rw [eq]
    refine ⟨fun _ => by simp, fun _ => ⟨?_, ?_, by simp⟩⟩
    · rintro n ⟨⟩
      exact ⟨some_bytes, fits⟩
    · rintro p ⟨⟩
      obtain ⟨size, payloadSize⟩ := size_makePacket t.alloc (c.bufferMsg.store d) fits
      rw [size, payloadSize]
      exact ⟨rfl, Int.ofNat_le.mpr some_bytes, Int.ofNat_le.mpr fits⟩

/-- Over any number of iterations and whatever the reads return, the loop keeps its
copies and packets in bounds and handles failures exactly while no read fails. -/
theorem failed_reads_contained_iff (peer : Peer σ) (c : Client σ) (ticks : List Tick) :
    (∀ i ∈ (c.handleTCPclient peer ticks).iterations, ReadSafe i) ↔
      ∀ i ∈ (c.handleTCPclient peer ticks).iterations, .error ∉ i.reads := by
  refine forall₂_congr fun i hi => ?_
  obtain ⟨c', t, rfl⟩ := exists_iterate hi
  exact readSafe_iff c' t

end Loop

/-- A peer whose reads return the given results in turn. -/
def scriptedPeer : Peer (List ReadResult) where
  read
    | [], _ => (.bytes [], [])
    | .error :: script, _ => (.error, script)
    | .bytes bs :: script, n => (.bytes (bs.take n), script)
  bounded := by
    rintro (_ | ⟨_ | bs, script⟩) n bs' h
    · cases h
      exact Nat.zero_le _
    · cases h
    · cases h
      exact List.length_take_le ..

/-- A connection just accepted, with an empty queue. -/
def acceptedClient {σ : Type*} (peer : σ) : Client σ :=
  ⟨peer, 5, fun _ => 0, [], 0⟩

/-- The peer resets the connection: the first read fails, and the error code -1 is
given to `memcpy` as a length. -/
theorem reset_connection_faults :
    let h := (acceptedClient [.error]).handleTCPclient scriptedPeer
      [⟨false, true, fun _ => 0, fun _ => 0, oneBytePacket 0⟩]
    h.status = .fault ∧
      ∃ i ∈ h.iterations, i.memcpyLen = some 0xffffffffffffffff ∧ ¬ ReadSafe i := by
  refine ⟨rfl, _, List.mem_singleton_self _, rfl, fun safe => ?_⟩
  exact absurd (safe.copied _ rfl).2 (by decide)

end UwAppNet
