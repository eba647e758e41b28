import UwAppNet.ClientLoop

/-!
The frame format over a byte stream.

A frame is the tag, the length and the bytes of a message. The stream may be handed
over in any portions; `receivePacket` makes one `read` for each of the three fields
and never asks again for what a read left over, so a frame is understood only where
every portion is as long as the request.
-/

namespace UwAppNet

open LittleEndian

/-! ### Frames and sockets -/

/-- A message as a client sends it. -/
def frame (payload : List UInt8) : List UInt8 :=
  encode 4 magicTag ++ (encode 4 payload.length ++ payload)

/-- The stream of a list of messages. -/
def frames (payloads : List (List UInt8)) : List UInt8 := payloads.flatMap frame

/-- How a socket hands over its bytes: read number `i` returns at most `portion i`
of them, and at least one while there are any. -/
structure Schedule where
  portion : Nat → Nat
  pos : ∀ i, 1 ≤ portion i

/-- The receiving end of a stream that the other side has closed: the reads made so
far and the bytes not yet read. -/
structure Socket where
  calls : Nat
  unread : List UInt8

/-- A socket read by a schedule. -/
def socketPeer (sched : Schedule) : Peer Socket where
  read s n :=
    let k := min (sched.portion s.calls) (min n s.unread.length)
    (.bytes (s.unread.take k), ⟨s.calls + 1, s.unread.drop k⟩)
  bounded := by
    rintro s n bs ⟨⟩
    rw [List.length_take]
    omega

section Reads

variable {sched : Schedule} {calls n : Nat} (xs rest : List UInt8)

/-- A portion as long as the request returns all of it. -/
theorem read_whole (long : xs.length ≤ sched.portion calls) :
    (socketPeer sched).read ⟨calls, xs ++ rest⟩ xs.length = (.bytes xs, ⟨calls + 1, rest⟩) := by
  have all : min (sched.portion calls) (min xs.length (xs ++ rest).length) = xs.length := by
    rw [List.length_append]
    omega
  simp only [socketPeer, all, List.take_left, List.drop_left]

/-- A shorter portion returns some bytes, but not all that were asked for. -/
theorem read_part (short : sched.portion calls < n) (enough : n ≤ xs.length) :
    ∃ bs s', (socketPeer sched).read ⟨calls, xs⟩ n = (.bytes bs, s') ∧
      1 ≤ bs.length ∧ bs.length < n := by
  have pos := sched.pos calls
  have part : min (sched.portion calls) (min n xs.length) = sched.portion calls := by omega
  refine ⟨_, _, rfl, ?_, ?_⟩
  · simp only [part, List.length_take]
    omega
  · simp only [part, List.length_take]
    omega

/-- At the end of the stream a read returns nothing. -/
theorem read_end : (socketPeer sched).read ⟨calls, []⟩ n = (.bytes [], ⟨calls + 1, []⟩) := by
  simp [socketPeer]

end Reads

/-! ### Words on the stack -/

/-- A word read whole is the word sent. -/
theorem word_store {bs : List UInt8} (whole : bs.length = 4) (stack : Buffer) :
    (stack.store bs).word = decode bs := by
  rw [Buffer.word, ← whole, Buffer.bytes_store]

/-- Stack contents that no short read turns into a tag or a length. -/
def staleStack : Buffer := fun _ => 255

theorem word_staleStack {bs : List UInt8} (part : bs.length < 4) :
    256 ^ 3 * 255 ≤ (staleStack.store bs).word := by
  have last : (staleStack.store bs) 3 = 255 := by
    simp [Buffer.store, staleStack, List.getElem?_eq_none (Nat.le_of_lt_succ part)]
  have split : (staleStack.store bs).bytes 4 = (staleStack.store bs).bytes 3 ++ [255] := by
    rw [Buffer.bytes, Buffer.bytes, List.range_succ, List.map_append, List.map_singleton, last]
  have top := le_decode_concat ((staleStack.store bs).bytes 3) 255
  rw [Buffer.word, split]
  rwa [Buffer.length_bytes] at top

/-! ### Receiving one frame -/

section Frame

variable {sched : Schedule} {calls : Nat} (payload rest : List UInt8)

/-- The tag, handed over whole. -/
theorem read_tag (tag : 4 ≤ sched.portion calls) :
    (socketPeer sched).read ⟨calls, frame payload ++ rest⟩ 4 =
      (.bytes (encode 4 magicTag), ⟨calls + 1, encode 4 payload.length ++ (payload ++ rest)⟩) := by
  have whole := read_whole (encode 4 magicTag) (encode 4 payload.length ++ (payload ++ rest))
    (show (encode 4 magicTag).length ≤ sched.portion calls by simpa using tag)
  rw [length_encode] at whole
  simpa [frame] using whole

/-- The length, handed over whole. -/
theorem read_length (length : 4 ≤ sched.portion (calls + 1)) :
    (socketPeer sched).read ⟨calls + 1, encode 4 payload.length ++ (payload ++ rest)⟩ 4 =
      (.bytes (encode 4 payload.length), ⟨calls + 2, payload ++ rest⟩) := by
  have whole := read_whole (encode 4 payload.length) (payload ++ rest)
    (show (encode 4 payload.length).length ≤ sched.portion (calls + 1) by simpa using length)
  rwa [length_encode] at whole

theorem word_tag (magic : Buffer) : (magic.store (encode 4 magicTag)).word = magicTag := by
  rw [word_store (length_encode ..), decode_encode (by decide)]

variable {payload} in
theorem word_length (size : Buffer) (fits : payload.length ≤ maxLengthPayload) :
    (size.store (encode 4 payload.length)).word = payload.length := by
  have fits' : payload.length ≤ 4096 := fits
  rw [word_store (length_encode ..), decode_encode (by omega)]

variable {payload} in
/-- A frame handed over in whole portions is received. -/
theorem receivePacket_frame (magic size bufferMsg : Buffer)
    (fits : payload.length ≤ maxLengthPayload)
    (tag : 4 ≤ sched.portion calls) (length : 4 ≤ sched.portion (calls + 1))
    (data : payload.length ≤ sched.portion (calls + 2)) :
    receivePacket (socketPeer sched) ⟨calls, frame payload ++ rest⟩ magic size bufferMsg =
      ⟨payload.length, bufferMsg.store payload, ⟨calls + 3, rest⟩,
        [.bytes (encode 4 magicTag), .bytes (encode 4 payload.length), .bytes payload]⟩ := by
  have wordLength := word_length size fits
  refine receivePacket_data (read_tag payload rest tag) (by simp) (word_tag magic)
    (read_length payload rest length) (by simp) ?_ ?_
  · rw [wordLength]
    exact fits
  · rw [wordLength]
    exact read_whole payload rest data

variable {payload} in
/-- Where some portion of a frame is short and the stack is stale, the connection
ends or a truncated message is received. -/
theorem receivePacket_part (bufferMsg : Buffer) (fits : payload.length ≤ maxLengthPayload)
    (split : ¬ (4 ≤ sched.portion calls ∧ 4 ≤ sched.portion (calls + 1) ∧
      payload.length ≤ sched.portion (calls + 2))) :
    let r := receivePacket (socketPeer sched) ⟨calls, frame payload ++ rest⟩ staleStack staleStack
      bufferMsg
    r.ret = 0 ∨ ∃ n : Nat, r.ret = n ∧ 1 ≤ n ∧ n < payload.length := by
  intro r
  by_cases tag : 4 ≤ sched.portion calls
  · by_cases length : 4 ≤ sched.portion (calls + 1)
    · have data : sched.portion (calls + 2) < payload.length := by
        by_contra long
        exact split ⟨tag, length, not_lt.mp long⟩
      obtain ⟨d, s₃, third, some_bytes, truncated⟩ :=
        read_part (payload ++ rest) data (by simp)
      have wordLength := word_length staleStack fits
      have eq : r = _ := receivePacket_data (read_tag payload rest tag) (by simp)
        (word_tag staleStack) (read_length payload rest length) (by simp)
        (wordLength.le.trans fits) (by rw [wordLength]; exact third)
      exact .inr ⟨d.length, by rw [eq], some_bytes, truncated⟩
    · obtain ⟨l, s₂, second, -, part⟩ := read_part
        (encode 4 payload.length ++ (payload ++ rest)) (not_le.mp length) (by simp)
      have huge := word_staleStack part
      have eq : r = _ := receivePacket_bad_length (read_tag payload rest tag) (by simp)
        (word_tag staleStack) second (lt_of_lt_of_le (by decide) huge)
      exact .inl (by rw [eq])
  · obtain ⟨m, s₁, first, -, part⟩ := read_part (frame payload ++ rest) (not_le.mp tag)
      (by simp [frame])
    have huge := word_staleStack part
    have eq : r = _ := receivePacket_bad_tag first
      (lt_of_lt_of_le (show magicTag < _ by decide) huge).ne'
    exact .inl (by rw [eq])

end Frame

/-! ### The loop over a stream -/

section Loop

variable {sched : Schedule} {payload : List UInt8} {payloads : List (List UInt8)}

/-- The messages enqueued over a loop. -/
def Handled.messages {σ : Type*} (h : Handled σ) : List (List UInt8) :=
  h.pushed.map Packet.payload

theorem Handled.messages_cons {σ : Type*} (h : Handled σ) (i : Iteration σ) :
    Handled.messages { h with iterations := i :: h.iterations } =
      i.pushed.toList.map Packet.payload ++ h.messages := by
  simp [Handled.messages, Handled.pushed]

/-- Every message is 1 to `MAX_LENGTH_PAYLOAD` bytes long. -/
def Framable (payloads : List (List UInt8)) : Prop :=
  ∀ p ∈ payloads, 1 ≤ p.length ∧ p.length ≤ maxLengthPayload

instance : Decidable (Framable payloads) :=
  inferInstanceAs (Decidable (∀ p ∈ payloads, 1 ≤ p.length ∧ p.length ≤ maxLengthPayload))

/-- Every read made for these frames, the first of them number `calls`, returns all
the bytes it asks for. -/
def WholeReads (sched : Schedule) (calls : Nat) (payloads : List (List UInt8)) : Prop :=
  ∀ (i : Nat) (h : i < payloads.length),
    4 ≤ sched.portion (calls + 3 * i) ∧ 4 ≤ sched.portion (calls + 3 * i + 1) ∧
      payloads[i].length ≤ sched.portion (calls + 3 * i + 2)

theorem wholeReads_cons {calls : Nat} :
    WholeReads sched calls (payload :: payloads) ↔
      (4 ≤ sched.portion calls ∧ 4 ≤ sched.portion (calls + 1) ∧
        payload.length ≤ sched.portion (calls + 2)) ∧ WholeReads sched (calls + 3) payloads := by
  constructor
  · intro whole
    refine ⟨whole 0 (Nat.succ_pos _), fun i hi => ?_⟩
    have next := whole (i + 1) (Nat.succ_lt_succ hi)
    have shift : calls + 3 * (i + 1) = calls + 3 + 3 * i := by omega
    rw [shift] at next
    exact next
  · rintro ⟨first, later⟩ i hi
    cases i with
    | zero => exact first
    | succ i =>
        have next := later i (Nat.lt_of_succ_lt_succ hi)
        have shift : calls + 3 * (i + 1) = calls + 3 + 3 * i := by omega
        rw [shift]
        exact next

/-- An iteration over a frame in whole portions enqueues its message and leaves the
rest of the stream. -/
theorem iterate_frame (rest : List UInt8) {c : Client Socket} {t : Tick}
    (ready : t.ready = true) {calls : Nat}
    (peer : c.peer = ⟨calls, frame payload ++ rest⟩) (some_bytes : 1 ≤ payload.length)
    (fits : payload.length ≤ maxLengthPayload)
    (whole : 4 ≤ sched.portion calls ∧ 4 ≤ sched.portion (calls + 1) ∧
      payload.length ≤ sched.portion (calls + 2)) :
    let i := c.iterate (socketPeer sched) t
    i.status = .again ∧ i.after.peer = ⟨calls + 3, rest⟩ ∧
      i.pushed.toList.map Packet.payload = [payload] := by
  obtain ⟨tag, length, data⟩ := whole
  have received := receivePacket_frame rest t.magic t.size c.bufferMsg fits tag length data
  rw [← peer] at received
  have eq := iterate_data ready (congrArg Received.ret received) some_bytes fits
  rw [received] at eq
  intro i
  have eq : i = _ := eq
  rw [eq]
  refine ⟨rfl, rfl, ?_⟩
  simp [payload_makePacket t.alloc _ fits]

/-- An iteration at the end of the stream ends the loop. -/
theorem iterate_end (sched : Schedule) {c : Client Socket} {t : Tick}
    (ready : t.ready = true) {calls : Nat} (peer : c.peer = ⟨calls, []⟩) :
    (c.iterate (socketPeer sched) t).status = .closed ∧
      (c.iterate (socketPeer sched) t).pushed = none := by
  apply iterate_zero ready
  rw [peer, receivePacket, read_end]
  rfl

/-- An iteration over a frame with a short portion does not enqueue its message when
the stack is stale. -/
theorem iterate_part (rest : List UInt8) {c : Client Socket} {t : Tick}
    (ready : t.ready = true) (stale : t.magic = staleStack ∧ t.size = staleStack) {calls : Nat}
    (peer : c.peer = ⟨calls, frame payload ++ rest⟩) (fits : payload.length ≤ maxLengthPayload)
    (split : ¬ (4 ≤ sched.portion calls ∧ 4 ≤ sched.portion (calls + 1) ∧
      payload.length ≤ sched.portion (calls + 2))) :
    let i := c.iterate (socketPeer sched) t
    (i.status = .closed ∧ i.pushed = none) ∨
      ∃ p, i.status = .again ∧ i.pushed = some p ∧ p.payload.length < payload.length := by
  have part := receivePacket_part rest c.bufferMsg fits split
  have received : receivePacket (socketPeer sched) c.peer t.magic t.size c.bufferMsg =
      receivePacket (socketPeer sched) ⟨calls, frame payload ++ rest⟩ staleStack staleStack
        c.bufferMsg := by
    rw [peer, stale.1, stale.2]
  rw [← received] at part
  rcases part with zero | ⟨n, ret, some_bytes, truncated⟩
  · exact .inl (iterate_zero ready zero)
  · have short : n ≤ maxLengthPayload := truncated.le.trans fits
    have eq := iterate_data ready ret some_bytes short
    refine .inr ⟨_, congrArg Iteration.status eq, congrArg Iteration.pushed eq, ?_⟩
    rw [payload_makePacket t.alloc _ short, Buffer.length_bytes]
    exact truncated

/-- The loop over a stream of frames in whole portions enqueues exactly the messages
and ends with the connection. -/
theorem messages_of_wholeReads {calls : Nat} (framable : Framable payloads)
    (whole : WholeReads sched calls payloads) {c : Client Socket}
    (peer : c.peer = ⟨calls, frames payloads⟩) {ticks : List Tick}
    (running : ∀ t ∈ ticks, t.stopRequested = false)
    (long : payloads.length < ticks.countP Tick.ready) :
    (c.handleTCPclient (socketPeer sched) ticks).status = .closed ∧
      (c.handleTCPclient (socketPeer sched) ticks).messages = payloads := by
  induction ticks generalizing c calls payloads with
  | nil => simp at long
  | cons t ticks ih =>
      obtain ⟨noStop, running⟩ := List.forall_mem_cons.mp running
      cases ready : t.ready with
      | false =>
          have idle : c.iterate (socketPeer sched) t = _ := iterate_idle ready
          rw [handleTCPclient_again noStop (by rw [idle]), Handled.messages_cons, idle]
          rw [List.countP_cons_of_neg (by simp [ready])] at long
          exact ih framable whole peer running long
      | true =>
          rw [List.countP_cons_of_pos ready] at long
          cases payloads with
          | nil =>
              have ended := iterate_end sched ready peer
              rw [handleTCPclient_closed noStop ended.1]
              simp [Handled.messages, Handled.pushed, ended.2]
          | cons payload payloads =>
              obtain ⟨⟨some_bytes, fits⟩, framable⟩ := List.forall_mem_cons.mp framable
              obtain ⟨first, later⟩ := wholeReads_cons.mp whole
              obtain ⟨again, after, pushed⟩ :=
                iterate_frame (frames payloads) ready peer some_bytes fits first
              have rest := ih framable later after running (Nat.lt_of_succ_lt_succ long)
              rw [handleTCPclient_again noStop again, Handled.messages_cons, pushed]
              exact ⟨rest.1, congrArg (payload :: ·) rest.2⟩

/-- A tick with data on the socket and a stale stack. -/
def staleTick : Tick := ⟨false, true, staleStack, staleStack, oneBytePacket 0⟩

/-- On a stale stack the messages come out only of whole portions. -/
theorem wholeReads_of_messages {calls : Nat} (framable : Framable payloads) {c : Client Socket}
    (peer : c.peer = ⟨calls, frames payloads⟩)
    (received : (c.handleTCPclient (socketPeer sched)
      (List.replicate (payloads.length + 1) staleTick)).messages = payloads) :
    WholeReads sched calls payloads := by
  induction payloads generalizing c calls with
  | nil => exact fun i hi => absurd hi (Nat.not_lt_zero i)
  | cons payload payloads ih =>
      obtain ⟨⟨some_bytes, fits⟩, framable⟩ := List.forall_mem_cons.mp framable
      rw [List.replicate_succ] at received
      by_cases whole : 4 ≤ sched.portion calls ∧ 4 ≤ sched.portion (calls + 1) ∧
          payload.length ≤ sched.portion (calls + 2)
      · obtain ⟨again, after, pushed⟩ :=
          iterate_frame (t := staleTick) (frames payloads) rfl peer some_bytes fits whole
        rw [handleTCPclient_again rfl again, Handled.messages_cons, pushed] at received
        exact wholeReads_cons.mpr ⟨whole, ih framable after (List.cons.inj received).2⟩
      · rcases iterate_part (t := staleTick) (frames payloads) rfl ⟨rfl, rfl⟩ peer fits
          whole with ⟨closed, none⟩ | ⟨p, again, pushed, truncated⟩
        · rw [handleTCPclient_closed rfl closed] at received
          simp [Handled.messages, Handled.pushed, none] at received
        · rw [handleTCPclient_again rfl again, Handled.messages_cons, pushed] at received
          have same : p.payload = payload := (List.cons.inj received).1
          rw [same] at truncated
          exact absurd truncated (lt_irrefl _)

end Loop

/-! ### Independence of the portions -/

/-- However long the loop runs and whatever the stack holds, once it found data more
often than there are messages it has enqueued exactly these, in order, counted them,
and closed the connection. -/
def Reassembled (sched : Schedule) (payloads : List (List UInt8)) : Prop :=
  ∀ (c : Client Socket) (ticks : List Tick), c.peer = ⟨0, frames payloads⟩ →
    (∀ t ∈ ticks, t.stopRequested = false) → payloads.length < ticks.countP Tick.ready →
    let h := c.handleTCPclient (socketPeer sched) ticks
    h.status = .closed ∧
      h.client.queuePckRead.map Packet.payload = c.queuePckRead.map Packet.payload ++ payloads ∧
      h.client.pktsPushQueue = c.pktsPushQueue + payloads.length

/-- The loop puts the messages together again exactly when no read of their frames
returns less than it asked for. -/
theorem reassembled_iff (sched : Schedule) (payloads : List (List UInt8))
    (framable : Framable payloads) :
    Reassembled sched payloads ↔ WholeReads sched 0 payloads := by
  constructor
  · intro reassembled
    let c : Client Socket := acceptedClient ⟨0, frames payloads⟩
    let ticks := List.replicate (payloads.length + 1) staleTick
    have running : ∀ t ∈ ticks, t.stopRequested = false := fun t ht => by
      rw [List.eq_of_mem_replicate ht]
      rfl
    have long : payloads.length < ticks.countP Tick.ready := by
      rw [List.countP_replicate, if_pos (by rfl)]
      exact Nat.lt_succ_self _
    obtain ⟨-, queue, -⟩ := reassembled c ticks rfl running long
    rw [(handled_queue c ticks).1, List.map_append] at queue
    exact wholeReads_of_messages framable rfl (List.append_cancel_left queue)
  · intro whole c ticks peer running long
    obtain ⟨closed, messages⟩ := messages_of_wholeReads framable whole peer running long
    refine ⟨closed, ?_, ?_⟩
    · rw [(handled_queue c ticks).1, List.map_append]
      exact congrArg (_ ++ ·) messages
    · rw [(handled_queue c ticks).2, ← congrArg List.length messages, Handled.messages,
        List.length_map]

/-- One message, handed over in portions of at least nine bytes. -/
theorem whole_frame_reassembled : Reassembled ⟨fun _ => 9, fun _ => by decide⟩ [[1, 2, 3]] :=
  (reassembled_iff _ _ (by decide)).mpr fun i hi => by
    obtain rfl : i = 0 := Nat.lt_one_iff.mp hi
    exact ⟨by decide, by decide, show 3 ≤ 9 by decide⟩

/-- The same message in portions of three bytes: the tag arrives in two parts, is
taken for a bad one, and the connection ends with nothing received. -/
theorem split_tag_lost :
    (let h := (acceptedClient ⟨0, frames [[1, 2, 3]]⟩).handleTCPclient
      (socketPeer ⟨fun _ => 3, fun _ => by decide⟩) [staleTick, staleTick]
     h.status = .closed ∧ h.messages = []) ∧
    ¬ Reassembled ⟨fun _ => 3, fun _ => by decide⟩ [[1, 2, 3]] := by
  refine ⟨⟨rfl, rfl⟩, fun reassembled => ?_⟩
  obtain ⟨-, queue, -⟩ := reassembled (acceptedClient ⟨0, frames [[1, 2, 3]]⟩)
    [staleTick, staleTick] rfl (by decide) (by decide)
  cases queue

end UwAppNet
