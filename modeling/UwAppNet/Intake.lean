import UwAppNet.SendData

/-!
What the loop of `HandleTCPclient` makes of a byte stream when every `read` returns
all the bytes it can: frames with empty messages among them, a stream that is cut
off, and a bad header.
-/

namespace UwAppNet

open SelfDelimiting SelfDelimiting.Code

/-! ### Only ticks with data matter -/

/-- The iterations with data, when nobody asks the thread to stop. -/
theorem active_filter {ticks : List Tick} (running : ∀ t ∈ ticks, t.stopRequested = false) :
    ∀ t ∈ ticks.filter Tick.ready, t.stopRequested = false ∧ t.ready = true := by
  intro t ht
  obtain ⟨mem, ready⟩ := List.mem_filter.mp ht
  exact ⟨running t mem, ready⟩

theorem active_replicate (n : Nat) :
    ∀ t ∈ List.replicate n staleTick, t.stopRequested = false ∧ t.ready = true := by
  intro t ht
  rw [List.eq_of_mem_replicate ht]
  exact ⟨rfl, rfl⟩

theorem countP_replicate_ready (n : Nat) : (List.replicate n staleTick).countP Tick.ready = n := by
  rw [List.countP_replicate, if_pos (by rfl)]

section Ready

variable {σ : Type*} (peer : Peer σ) (c : Client σ) {ticks : List Tick}

/-- The loop does the same without the iterations that found nothing to read. -/
theorem handleTCPclient_filter (running : ∀ t ∈ ticks, t.stopRequested = false) :
    (c.handleTCPclient peer ticks).status =
        (c.handleTCPclient peer (ticks.filter Tick.ready)).status ∧
      (c.handleTCPclient peer ticks).client =
        (c.handleTCPclient peer (ticks.filter Tick.ready)).client ∧
      (c.handleTCPclient peer ticks).messages =
        (c.handleTCPclient peer (ticks.filter Tick.ready)).messages := by
  induction ticks generalizing c with
  | nil => exact ⟨rfl, rfl, rfl⟩
  | cons t ticks ih =>
      obtain ⟨noStop, running⟩ := List.forall_mem_cons.mp running
      cases ready : t.ready with
      | false =>
          have idle : c.iterate peer t = _ := iterate_idle ready
          rw [List.filter_cons_of_neg (by simp [ready]),
            handleTCPclient_again noStop (by rw [idle]), Handled.messages_cons, idle]
          exact ih c running
      | true =>
          rw [List.filter_cons_of_pos ready]
          cases status : (c.iterate peer t).status with
          | again =>
              obtain ⟨same, client, messages⟩ := ih (c.iterate peer t).after running
              rw [handleTCPclient_again noStop status, handleTCPclient_again noStop status,
                Handled.messages_cons, Handled.messages_cons, messages]
              exact ⟨same, client, rfl⟩
          | closed =>
              rw [handleTCPclient_closed noStop status, handleTCPclient_closed noStop status]
              exact ⟨rfl, rfl, rfl⟩
          | fault =>
              simp [Client.handleTCPclient, noStop, status, Handled.messages, Handled.pushed]

end Ready

/-! ### Behind a list of frames -/

section Frames

variable {sched : Schedule} {payloads : List (List UInt8)} {rest : List UInt8}
  {c : Client Socket} {ticks : List Tick} {calls : Nat}

theorem WholeReads.earlier {later : List (List UInt8)}
    (whole : WholeReads sched calls (payloads ++ later)) : WholeReads sched calls payloads := by
  intro i hi
  have entry := whole i (by rw [List.length_append]; omega)
  rwa [List.getElem_append_left hi] at entry

/-- The loop over frames with a message each takes them off the stream one by one, and
goes on with what follows. -/
theorem handleTCPclient_frames (framable : Framable payloads)
    (whole : WholeReads sched calls payloads) (peer : c.peer = ⟨calls, frames payloads ++ rest⟩)
    (active : ∀ t ∈ ticks, t.stopRequested = false ∧ t.ready = true)
    (long : payloads.length ≤ ticks.length) :
    ∃ c' : Client Socket, c'.peer = ⟨calls + 3 * payloads.length, rest⟩ ∧
      let h := c.handleTCPclient (socketPeer sched) ticks
      let h' := c'.handleTCPclient (socketPeer sched) (ticks.drop payloads.length)
      h.status = h'.status ∧ h.client = h'.client ∧ h.messages = payloads ++ h'.messages := by
  induction payloads generalizing c ticks calls with
  | nil => exact ⟨c, peer, rfl, rfl, rfl⟩
  | cons payload payloads ih =>
      obtain ⟨⟨some_bytes, fits⟩, framable⟩ := List.forall_mem_cons.mp framable
      obtain ⟨first, later⟩ := wholeReads_cons.mp whole
      cases ticks with
      | nil => simp at long
      | cons t ticks =>
          obtain ⟨⟨noStop, ready⟩, active⟩ := List.forall_mem_cons.mp active
          have peer : c.peer = ⟨calls, frame payload ++ (frames payloads ++ rest)⟩ := by
            rw [peer, ← List.append_assoc]
            rfl
          obtain ⟨again, after, pushed⟩ :=
            iterate_frame (frames payloads ++ rest) ready peer some_bytes fits first
          obtain ⟨c', peer', status, client, messages⟩ :=
            ih framable later after active (Nat.le_of_succ_le_succ long)
          refine ⟨c', ?_, ?_⟩
          · rw [peer', List.length_cons]
            congr 1
            omega
          · dsimp only
            rw [handleTCPclient_again noStop again, Handled.messages_cons, pushed, messages]
            exact ⟨status, client, rfl⟩

/-- The frame of an empty message ends the connection: its length of 0 is taken for the
end of the stream. -/
theorem iterate_empty_frame {t : Tick} (ready : t.ready = true)
    (tag : 4 ≤ sched.portion calls) (length : 4 ≤ sched.portion (calls + 1))
    (peer : c.peer = ⟨calls, frame [] ++ rest⟩) :
    (c.iterate (socketPeer sched) t).status = .closed := by
  have fits : ([] : List UInt8).length ≤ maxLengthPayload := Nat.zero_le _
  have received := receivePacket_frame rest t.magic t.size c.bufferMsg fits tag length
    (Nat.zero_le _)
  rw [← peer] at received
  exact (iterate_zero ready (by rw [received]; rfl)).1

end Frames

/-! ### Empty messages -/

section RoundTrip

variable {sched : Schedule} {clnSockDescr : Nat} {calls : List SendCall}

/-- Calls that returned true left the frames of their payloads. -/
theorem sentStream_of_returned (connected : clnSockDescr ≠ 0)
    (returned : ∀ call ∈ calls, (sendData clnSockDescr call).1 = true) :
    sentStream clnSockDescr calls = frames (calls.map SendCall.data) := by
  induction calls with
  | nil => rfl
  | cons call calls ih =>
      obtain ⟨first, others⟩ := List.forall_mem_cons.mp returned
      rw [sentStream_cons, ih others]
      rcases sendData_cases connected call with ⟨-, eq⟩ | ⟨-, failed, -⟩
      · rw [eq]
        rfl
      · rw [first] at failed
        cases failed

/-- Once the loop found data as often as there are frames, whatever the stack held, it
has read every frame, enqueued the messages that are not empty, and goes on. -/
def RoundTrips (sched : Schedule) (clnSockDescr : Nat) (calls : List SendCall) : Prop :=
  ∀ (c : Client Socket) (ticks : List Tick), c.peer = ⟨0, sentStream clnSockDescr calls⟩ →
    (∀ t ∈ ticks, t.stopRequested = false) → ticks.countP Tick.ready = calls.length →
    let h := c.handleTCPclient (socketPeer sched) ticks
    h.status = .again ∧ h.client.peer.unread = [] ∧
      h.client.queuePckRead.map Packet.payload = c.queuePckRead.map Packet.payload ++
        (calls.map SendCall.data).filter fun payload => !payload.isEmpty

/-- In front of an empty message the loop stops reading. -/
theorem closed_of_empty {before after : List (List UInt8)} (framable : Framable before)
    (whole : WholeReads sched 0 (before ++ [] :: after)) {c : Client Socket} {ticks : List Tick}
    (peer : c.peer = ⟨0, frames (before ++ [] :: after)⟩)
    (active : ∀ t ∈ ticks, t.stopRequested = false ∧ t.ready = true)
    (long : before.length < ticks.length) :
    (c.handleTCPclient (socketPeer sched) ticks).status = .closed := by
  have split : frames (before ++ [] :: after) = frames before ++ (frame [] ++ frames after) := by
    simp [frames]
  rw [split] at peer
  obtain ⟨c', peer', status, -, -⟩ :=
    handleTCPclient_frames framable whole.earlier peer active long.le
  obtain ⟨tag, length, -⟩ := whole before.length (by simp)
  have later : ticks.drop before.length = ticks[before.length] :: ticks.drop (before.length + 1) :=
    List.drop_eq_getElem_cons long
  obtain ⟨noStop, ready⟩ := active ticks[before.length] (List.getElem_mem long)
  have closed := iterate_empty_frame ready tag length peer'
  rw [status, later, handleTCPclient_closed noStop closed]

/-- Payloads up to the size of the buffer can be framed, unless one is empty. -/
theorem framable_of_nonempty {payloads : List (List UInt8)}
    (fits : ∀ payload ∈ payloads, payload.length ≤ maxLengthPayload) (nonempty : [] ∉ payloads) :
    Framable payloads := by
  intro payload hp
  constructor
  · apply Nat.one_le_iff_ne_zero.mpr
    intro length
    rw [← List.length_eq_zero_iff.mp length] at nonempty
    exact nonempty hp
  · exact fits payload hp

/-- The frames of messages that are not empty come back whole. -/
theorem roundTrips_of_nonempty
    (stream : sentStream clnSockDescr calls = frames (calls.map SendCall.data))
    (framable : Framable (calls.map SendCall.data))
    (whole : WholeReads sched 0 (calls.map SendCall.data)) :
    RoundTrips sched clnSockDescr calls := by
  intro c ticks peer running count
  have active := active_filter running
  have length : (calls.map SendCall.data).length = (ticks.filter Tick.ready).length := by
    rw [← List.countP_eq_length_filter, count, List.length_map]
  rw [stream, ← List.append_nil (frames _)] at peer
  obtain ⟨c', peer', status, client, messages⟩ :=
    handleTCPclient_frames framable whole peer active length.le
  obtain ⟨status', client', messages'⟩ := handleTCPclient_filter (socketPeer sched) c running
  rw [length, List.drop_length] at status client messages
  dsimp only
  refine ⟨status'.trans status, ?_, ?_⟩
  · rw [client', client]
    exact congrArg Socket.unread peer'
  · have all : ((calls.map SendCall.data).filter fun payload => !payload.isEmpty) =
        calls.map SendCall.data := by
      rw [List.filter_eq_self]
      intro payload hp
      cases payload with
      | nil => cases (framable [] hp).1
      | cons x xs => rfl
    rw [(handled_queue c ticks).1, List.map_append, all]
    apply congrArg (_ ++ ·)
    exact (messages'.trans messages).trans (List.append_nil _)

/-- What `send_data` wrote comes back whole exactly when no message is empty. -/
theorem round_trips_iff (sched : Schedule) (connected : clnSockDescr ≠ 0)
    (returned : ∀ call ∈ calls, (sendData clnSockDescr call).1 = true)
    (fits : ∀ call ∈ calls, call.data.length ≤ maxLengthPayload)
    (whole : WholeReads sched 0 (calls.map SendCall.data)) :
    RoundTrips sched clnSockDescr calls ↔ ∀ call ∈ calls, call.data ≠ [] := by
  have stream := sentStream_of_returned connected returned
  have fits : ∀ payload ∈ calls.map SendCall.data, payload.length ≤ maxLengthPayload :=
    List.forall_mem_map.mpr fits
  have nonempty_iff : [] ∉ calls.map SendCall.data ↔ ∀ call ∈ calls, call.data ≠ [] := by
    simp
  rw [← nonempty_iff]
  constructor
  · intro trips here
    obtain ⟨before, after, split, nonempty⟩ := List.eq_append_cons_of_mem here
    have length : before.length < calls.length := by
      have total := congrArg List.length split
      simp only [List.length_map, List.length_append, List.length_cons] at total
      omega
    have framable : Framable before := by
      apply framable_of_nonempty _ nonempty
      intro payload hp
      exact fits payload (by rw [split]; exact List.mem_append_left _ hp)
    let c : Client Socket := acceptedClient ⟨0, sentStream clnSockDescr calls⟩
    let ticks := List.replicate calls.length staleTick
    have active : ∀ t ∈ ticks, t.stopRequested = false ∧ t.ready = true := active_replicate _
    have again := (trips c ticks rfl (fun t ht => (active t ht).1) (countP_replicate_ready _)).1
    have closed := closed_of_empty (c := c) framable (split ▸ whole)
      (by rw [← split, ← stream]; rfl) active (by simpa [ticks] using length)
    rw [again] at closed
    cases closed
  · intro nonempty
    exact roundTrips_of_nonempty stream (framable_of_nonempty fits nonempty) whole

end RoundTrip

/-- Reads that return all that was asked for, up to the size of the buffer. -/
def wholeSchedule : Schedule := ⟨fun _ => maxLengthPayload, fun _ => by decide⟩

theorem wholeReads_wholeSchedule {payloads : List (List UInt8)}
    (fits : ∀ payload ∈ payloads, payload.length ≤ maxLengthPayload) (calls : Nat) :
    WholeReads wholeSchedule calls payloads := fun i hi =>
  ⟨show 4 ≤ 4096 by decide, show 4 ≤ 4096 by decide, fits payloads[i] (List.getElem_mem hi)⟩

/-- Two messages that are not empty. -/
theorem two_messages_round_trip :
    RoundTrips wholeSchedule 5 [.success [1, 2, 3], .success [4]] :=
  (round_trips_iff wholeSchedule (by decide) (by decide) (by decide)
    (wholeReads_wholeSchedule (by decide) 0)).mpr (by decide)

/-- An empty message in front of another: the connection ends and the second message
is lost. -/
theorem empty_message_ends_connection :
    (let h := (acceptedClient ⟨0, sentStream 5 [.success [], .success [7]]⟩).handleTCPclient
      (socketPeer wholeSchedule) [staleTick, staleTick]
     h.status = .closed ∧ h.messages = []) ∧
    ¬ RoundTrips wholeSchedule 5 [.success [], .success [7]] := by
  refine ⟨⟨rfl, rfl⟩, fun trips => ?_⟩
  have again := (trips (acceptedClient ⟨0, sentStream 5 [.success [], .success [7]]⟩)
    [staleTick, staleTick] rfl (by decide) (by decide)).1
  cases again

/-! ### A stream cut off -/

section Cut

variable {sched : Schedule} {calls : Nat} {c : Client Socket} {t : Tick}

/-- A long portion returns all that was asked for, or all there is. -/
theorem read_long (calls : Nat) {n : Nat} (xs : List UInt8) (long : n ≤ sched.portion calls) :
    (socketPeer sched).read ⟨calls, xs⟩ n = (.bytes (xs.take n), ⟨calls + 1, xs.drop n⟩) := by
  have all : min (sched.portion calls) (min n xs.length) = min n xs.length := by omega
  simp only [socketPeer, all, List.take_eq_take_min.symm, List.drop_eq_drop_min.symm]

theorem four_le_portion (long : ∀ i, maxLengthPayload ≤ sched.portion i) (i : Nat) :
    4 ≤ sched.portion i :=
  le_trans (by decide) (long i)

/-- A stream that ends before the first byte of a message is received as its end,
whatever the stack holds. -/
theorem receivePacket_short (long : ∀ i, maxLengthPayload ≤ sched.portion i) (calls : Nat)
    {xs : List UInt8} (short : xs.length ≤ 8) (magic size bufferMsg : Buffer) :
    (receivePacket (socketPeer sched) ⟨calls, xs⟩ magic size bufferMsg).ret = 0 := by
  have portion := four_le_portion long
  have first := read_long calls xs (portion _)
  by_cases empty : (xs.take 4).length = 0
  · rw [receivePacket_end first empty]
  by_cases tag : (magic.store (xs.take 4)).word = magicTag
  · have second := read_long (calls + 1) (xs.drop 4) (portion _)
    rw [List.drop_drop] at second
    by_cases empty' : ((xs.drop 4).take 4).length = 0
    · rw [receivePacket_no_length first empty tag second empty']
    by_cases fits : (size.store ((xs.drop 4).take 4)).word ≤ maxLengthPayload
    · have third := read_long (calls + 1 + 1) (xs.drop (4 + 4)) (fits.trans (long _))
      rw [receivePacket_data first empty tag second empty' fits third]
      have nothing : xs.drop (4 + 4) = [] := List.drop_of_length_le short
      rw [nothing, List.take_nil]
      rfl
    · rw [receivePacket_bad_length first empty tag second (not_le.mp fits)]
  · rw [receivePacket_bad_tag first tag]

/-- A header and the beginning of its message are received as a message. -/
theorem receivePacket_cut (long : ∀ i, maxLengthPayload ≤ sched.portion i) (calls : Nat)
    {payload : List UInt8} (fits : payload.length ≤ maxLengthPayload) (n : Nat)
    (magic size bufferMsg : Buffer) :
    receivePacket (socketPeer sched) ⟨calls, (frame payload).take (8 + n)⟩ magic size bufferMsg =
      ⟨(payload.take n).length, bufferMsg.store (payload.take n), ⟨calls + 3, []⟩,
        [.bytes (LittleEndian.encode 4 magicTag),
          .bytes (LittleEndian.encode 4 payload.length), .bytes (payload.take n)]⟩ := by
  have portion := four_le_portion long
  have split : (frame payload).take (8 + n) = LittleEndian.encode 4 magicTag ++
      (LittleEndian.encode 4 payload.length ++ payload.take n) := by
    have header : (LittleEndian.encode 4 magicTag ++
        LittleEndian.encode 4 payload.length).length = 8 := by simp
    rw [frame, ← List.append_assoc, ← List.append_assoc, ← header, List.take_length_add_append]
  have first := read_whole (LittleEndian.encode 4 magicTag)
    (LittleEndian.encode 4 payload.length ++ payload.take n) (portion calls)
  have second := read_whole (LittleEndian.encode 4 payload.length) (payload.take n)
    (portion (calls + 1))
  rw [LittleEndian.length_encode] at first second
  have size_word := word_length size fits
  have third := read_long (calls + 2) (payload.take n) (fits.trans (long _))
  have cut : (payload.take n).take payload.length = payload.take n :=
    List.take_of_length_le (List.length_take_le' ..)
  have rest : (payload.take n).drop payload.length = [] :=
    List.drop_of_length_le (List.length_take_le' ..)
  rw [cut, rest] at third
  rw [split]
  refine receivePacket_data first (by simp) (word_tag magic) second (by simp) ?_ ?_
  · rw [size_word]
    exact fits
  · rw [size_word]
    exact third

/-- The last byte handed over before the cut lies inside a message. -/
def CutsMessage (k : Nat) (payloads : List (List UInt8)) : Prop :=
  ∃ before payload after, payloads = before ++ payload :: after ∧
    (frames before).length + 8 < k ∧ k < (frames before).length + (frame payload).length

/-- The client closes the connection behind `k` bytes of its frames: whatever the stack
holds, the loop enqueues the messages whose frames lie completely before the cut and
ends with the connection. -/
def CutSafely (sched : Schedule) (payloads : List (List UInt8)) (k : Nat) : Prop :=
  ∀ (c : Client Socket) (ticks : List Tick), c.peer = ⟨0, (frames payloads).take k⟩ →
    (∀ t ∈ ticks, t.stopRequested = false) → payloads.length < ticks.countP Tick.ready →
    let h := c.handleTCPclient (socketPeer sched) ticks
    let received := frameCode.whole k payloads
    h.status = .closed ∧
      h.client.queuePckRead.map Packet.payload = c.queuePckRead.map Packet.payload ++ received ∧
      h.client.pktsPushQueue = c.pktsPushQueue + received.length

theorem wholeReads_of_long (long : ∀ i, maxLengthPayload ≤ sched.portion i)
    {payloads : List (List UInt8)} (framable : Framable payloads) :
    WholeReads sched calls payloads := fun i hi =>
  ⟨four_le_portion long _, four_le_portion long _,
    (framable payloads[i] (List.getElem_mem hi)).2.trans (long _)⟩

/-- Where the first incomplete frame is cut decides whether the cut lies inside a
message. -/
theorem cutsMessage_iff {before later : List (List UInt8)} {payload : List UInt8} {k : Nat}
    (start : (frames before).length ≤ k)
    (cut : k < (frames before).length + (frame payload).length) :
    CutsMessage k (before ++ payload :: later) ↔ 8 < k - (frames before).length := by
  constructor
  · rintro ⟨before', payload', later', split, inside, cut'⟩
    have here : frameCode.whole k (before ++ payload :: later) = before := whole_of_cut start cut
    have there : frameCode.whole k (before' ++ payload' :: later') = before' :=
      whole_of_cut ((Nat.le_add_right _ 8).trans inside.le) cut'
    rw [← split, here] at there
    subst there
    omega
  · intro inside
    exact ⟨before, payload, later, rfl, by omega, cut⟩

theorem not_cutsMessage {payloads : List (List UInt8)} {k : Nat}
    (total : (frames payloads).length ≤ k) : ¬ CutsMessage k payloads := by
  rintro ⟨before, payload, later, rfl, -, cut⟩
  simp only [frames, List.flatMap_append, List.flatMap_cons, List.length_append] at total cut
  omega

/-- A frame cut off in its header: the connection ends and nothing was received. -/
theorem handleTCPclient_cut_header (long : ∀ i, maxLengthPayload ≤ sched.portion i)
    {xs : List UInt8} (short : xs.length ≤ 8) (peer : c.peer = ⟨calls, xs⟩)
    (noStop : t.stopRequested = false) (ready : t.ready = true) (later : List Tick) :
    (c.handleTCPclient (socketPeer sched) (t :: later)).status = .closed ∧
      (c.handleTCPclient (socketPeer sched) (t :: later)).messages = [] := by
  have zero := receivePacket_short long calls short t.magic t.size c.bufferMsg
  rw [← peer] at zero
  obtain ⟨closed, nothing⟩ := iterate_zero ready zero
  rw [handleTCPclient_closed noStop closed]
  exact ⟨rfl, by simp [Handled.messages, Handled.pushed, nothing]⟩

/-- A frame cut off in its message: what there is of the message is enqueued. -/
theorem iterate_cut_message (long : ∀ i, maxLengthPayload ≤ sched.portion i)
    {payload : List UInt8} (fits : payload.length ≤ maxLengthPayload) {n : Nat} (pos : 1 ≤ n)
    (cut : n ≤ payload.length) (peer : c.peer = ⟨calls, (frame payload).take (8 + n)⟩)
    (ready : t.ready = true) :
    (c.iterate (socketPeer sched) t).status = .again ∧
      (c.iterate (socketPeer sched) t).after.peer = ⟨calls + 3, []⟩ ∧
      (c.iterate (socketPeer sched) t).pushed.toList.map Packet.payload = [payload.take n] := by
  have received := receivePacket_cut long calls fits n t.magic t.size c.bufferMsg
  rw [← peer] at received
  have length : (payload.take n).length = n := by
    rw [List.length_take]
    omega
  have short : n ≤ maxLengthPayload := cut.trans fits
  have eq := iterate_data ready (congrArg Received.ret received) (pos.trans length.ge)
    (length.le.trans short)
  have bytes := payload_makePacket t.alloc (c.bufferMsg.store (payload.take n))
    (length.le.trans short)
  rw [Buffer.bytes_store] at bytes
  rw [eq, received]
  exact ⟨rfl, rfl, congrArg (fun p => [p]) bytes⟩

/-- What is left of a frame that was cut off: nothing is received of it, or the
beginning of its message. -/
theorem handleTCPclient_cut (long : ∀ i, maxLengthPayload ≤ sched.portion i)
    {payload : List UInt8} (fits : payload.length ≤ maxLengthPayload) {j : Nat}
    (cut : j < (frame payload).length) (peer : c.peer = ⟨calls, (frame payload).take j⟩)
    {ticks : List Tick} (active : ∀ t ∈ ticks, t.stopRequested = false ∧ t.ready = true)
    (enough : 2 ≤ ticks.length) :
    (c.handleTCPclient (socketPeer sched) ticks).status = .closed ∧
      (c.handleTCPclient (socketPeer sched) ticks).messages =
        if 8 < j then [payload.take (j - 8)] else [] := by
  obtain ⟨t, t', later, rfl⟩ : ∃ t t' later, ticks = t :: t' :: later := by
    match ticks, enough with
    | t :: t' :: later, _ => exact ⟨t, t', later, rfl⟩
  obtain ⟨⟨noStop, ready⟩, active⟩ := List.forall_mem_cons.mp active
  obtain ⟨noStop', ready'⟩ := active t' List.mem_cons_self
  by_cases inside : 8 < j
  · obtain ⟨n, rfl⟩ : ∃ n, j = 8 + n := ⟨j - 8, by omega⟩
    rw [length_frame] at cut
    obtain ⟨again, after, pushed⟩ :=
      iterate_cut_message long fits (by omega) (by omega) peer ready
    obtain ⟨closed, nothing⟩ := iterate_end sched ready' after
    have same : 8 + n - 8 = n := by omega
    rw [if_pos inside, handleTCPclient_again noStop again, Handled.messages_cons, pushed, same,
      handleTCPclient_closed noStop' closed]
    exact ⟨rfl, by simp [Handled.messages, Handled.pushed, nothing]⟩
  · have short : ((frame payload).take j).length ≤ 8 := by
      rw [List.length_take]
      omega
    rw [if_neg inside]
    exact handleTCPclient_cut_header long short peer noStop ready (t' :: later)

/-- A stream cut off inside a frame: the frames before it are received, and of its message
what follows the header. -/
theorem handleTCPclient_cut_frame (long : ∀ i, maxLengthPayload ≤ sched.portion i)
    {before later : List (List UInt8)} {payload : List UInt8}
    (framable : Framable (before ++ payload :: later)) {k : Nat}
    (start : (frames before).length ≤ k)
    (cut : k < (frames before).length + (frame payload).length)
    (peer : c.peer = ⟨calls, (frames (before ++ payload :: later)).take k⟩) {ticks : List Tick}
    (active : ∀ t ∈ ticks, t.stopRequested = false ∧ t.ready = true)
    (enough : (before ++ payload :: later).length < ticks.length) :
    let h := c.handleTCPclient (socketPeer sched) ticks
    h.status = .closed ∧
      (h.messages = before ∧ ¬ CutsMessage k (before ++ payload :: later) ∨
        ∃ truncated, h.messages = before ++ [truncated] ∧
          CutsMessage k (before ++ payload :: later)) := by
  intro h
  have whole : WholeReads sched calls (before ++ payload :: later) :=
    wholeReads_of_long long framable
  have stream : (frames (before ++ payload :: later)).take k =
      frames before ++ (frame payload).take (k - (frames before).length) :=
    take_encodeAll (c := frameCode) start cut
  obtain ⟨⟨-, fits⟩, -⟩ := List.forall_mem_cons.mp (List.forall_mem_append.mp framable).2
  rw [stream] at peer
  rw [List.length_append, List.length_cons] at enough
  obtain ⟨c', peer', status, -, messages⟩ := handleTCPclient_frames
    (List.forall_mem_append.mp framable).1 whole.earlier peer active (by omega)
  have rest : k - (frames before).length < (frame payload).length := by omega
  have two : 2 ≤ (ticks.drop before.length).length := by
    rw [List.length_drop]
    omega
  obtain ⟨closed, left⟩ := handleTCPclient_cut long fits rest peer'
    (fun t ht => active t (List.mem_of_mem_drop ht)) two
  refine ⟨status.trans closed, ?_⟩
  rw [cutsMessage_iff start cut, messages, left]
  by_cases inside : 8 < k - (frames before).length
  · rw [if_pos inside]
    exact .inr ⟨_, rfl, inside⟩
  · rw [if_neg inside]
    exact .inl ⟨List.append_nil _, inside⟩

/-- The loop over a stream that was cut off ends with the connection; it enqueues the
complete messages, and one more where the cut lies inside a message. -/
theorem handleTCPclient_take (long : ∀ i, maxLengthPayload ≤ sched.portion i)
    {payloads : List (List UInt8)} (framable : Framable payloads) {k : Nat}
    (peer : c.peer = ⟨calls, (frames payloads).take k⟩) {ticks : List Tick}
    (active : ∀ t ∈ ticks, t.stopRequested = false ∧ t.ready = true)
    (enough : payloads.length < ticks.length) :
    let h := c.handleTCPclient (socketPeer sched) ticks
    h.status = .closed ∧
      (h.messages = frameCode.whole k payloads ∧ ¬ CutsMessage k payloads ∨
        ∃ truncated, h.messages = frameCode.whole k payloads ++ [truncated] ∧
          CutsMessage k payloads) := by
  intro h
  rcases whole_cases frameCode k payloads with
    ⟨all, total⟩ | ⟨payload, later, split, start, cut⟩
  · have everything : (frames payloads).take k = frames payloads :=
      List.take_of_length_le total
    rw [everything] at peer
    have whole : WholeReads sched calls payloads := wholeReads_of_long long framable
    have count : ticks.countP Tick.ready = ticks.length :=
      List.countP_eq_length.mpr fun t ht => (active t ht).2
    obtain ⟨closed, messages⟩ := messages_of_wholeReads framable whole peer
      (fun t ht => (active t ht).1) (by rw [count]; exact enough)
    exact ⟨closed, .inl ⟨by rw [all]; exact messages, not_cutsMessage total⟩⟩
  · generalize frameCode.whole k payloads = before at split start cut ⊢
    subst split
    exact handleTCPclient_cut_frame long framable start cut peer active enough

/-- A disconnect is harmless exactly where it does not fall inside a message. -/
theorem cut_safely_iff (long : ∀ i, maxLengthPayload ≤ sched.portion i)
    (payloads : List (List UInt8)) (framable : Framable payloads) (k : Nat) :
    CutSafely sched payloads k ↔ ¬ CutsMessage k payloads := by
  constructor
  · intro safe cuts
    let c : Client Socket := acceptedClient ⟨0, (frames payloads).take k⟩
    let ticks := List.replicate (payloads.length + 1) staleTick
    have active : ∀ t ∈ ticks, t.stopRequested = false ∧ t.ready = true := active_replicate _
    have enough : payloads.length < ticks.countP Tick.ready := by
      rw [countP_replicate_ready]
      exact Nat.lt_succ_self _
    obtain ⟨-, queue, -⟩ := safe c ticks rfl (fun t ht => (active t ht).1) enough
    rw [(handled_queue c ticks).1, List.map_append] at queue
    have messages := List.append_cancel_left queue
    obtain ⟨-, ⟨-, whole⟩ | ⟨truncated, more, -⟩⟩ :=
      handleTCPclient_take (c := c) long framable rfl active (by simp [ticks])
    · exact whole cuts
    · have length := congrArg List.length (messages.symm.trans more)
      simp at length
  · intro uncut c ticks peer running enough
    have active := active_filter running
    rw [List.countP_eq_length_filter] at enough
    obtain ⟨status', -, messages'⟩ :=
      handleTCPclient_filter (socketPeer sched) c running
    obtain ⟨closed, ⟨messages, -⟩ | ⟨-, -, cuts⟩⟩ :=
      handleTCPclient_take long framable peer active enough
    · have received := messages'.trans messages
      refine ⟨status'.trans closed, ?_, ?_⟩
      · rw [(handled_queue c ticks).1, List.map_append]
        exact congrArg (_ ++ ·) received
      · rw [(handled_queue c ticks).2, ← received, Handled.messages, List.length_map]
    · exact absurd cuts uncut

end Cut

/-- A cut in the header of the second frame. -/
theorem cut_header_safe : CutSafely wholeSchedule [[1, 2, 3], [4, 5]] 15 :=
  (cut_safely_iff (fun _ => Nat.le_refl _) _ (by decide) 15).mpr
    (mt (cutsMessage_iff (show (frames [[1, 2, 3]]).length ≤ 15 by decide) (by decide)).mp
      (by decide))

/-- A cut behind the second byte of a message: the two bytes are enqueued as a message
of their own. -/
theorem cut_message_truncated :
    (let h := (acceptedClient ⟨0, (frames [[1, 2, 3]]).take 10⟩).handleTCPclient
      (socketPeer wholeSchedule) [staleTick, staleTick]
     h.status = .closed ∧ h.messages = [[1, 2]]) ∧
    ¬ CutSafely wholeSchedule [[1, 2, 3]] 10 := by
  refine ⟨⟨rfl, rfl⟩, fun safe => ?_⟩
  obtain ⟨-, queue, -⟩ := safe (acceptedClient ⟨0, (frames [[1, 2, 3]]).take 10⟩)
    [staleTick, staleTick] rfl (by decide) (by decide)
  cases queue

/-! ### A bad header -/

/-- What no frame begins with: four bytes that are not the tag, or the tag and a length
above `MAX_LENGTH_PAYLOAD`. -/
inductive BadHeader : List UInt8 → Prop where
  | tag {word : List UInt8} : word.length = 4 → word ≠ LittleEndian.encode 4 magicTag →
      BadHeader word
  | size {n : Nat} : maxLengthPayload < n → n < 2 ^ 32 →
      BadHeader (LittleEndian.encode 4 magicTag ++ LittleEndian.encode 4 n)

section Bad

variable {sched : Schedule} {header : List UInt8}

/-- A bad header is received as the end of the stream. -/
theorem receivePacket_bad_header (calls : Nat) (bad : BadHeader header) (tail : List UInt8)
    (tag : 4 ≤ sched.portion calls) (size : 4 ≤ sched.portion (calls + 1))
    (magic stack bufferMsg : Buffer) :
    (receivePacket (socketPeer sched) ⟨calls, header ++ tail⟩ magic stack bufferMsg).ret = 0 := by
  cases bad with
  | tag four foreign =>
      have first := read_whole header tail (four.trans_le tag)
      rw [four] at first
      have bad : (magic.store header).word ≠ magicTag := by
        rw [word_store four]
        intro same
        have spelled := LittleEndian.encode_decode header
        rw [four, same] at spelled
        exact foreign spelled.symm
      rw [receivePacket_bad_tag first bad]
  | @size n large fits =>
      have first := read_whole (LittleEndian.encode 4 magicTag)
        (LittleEndian.encode 4 n ++ tail) tag
      have second := read_whole (LittleEndian.encode 4 n) tail size
      rw [LittleEndian.length_encode] at first second
      have bad : maxLengthPayload < (stack.store (LittleEndian.encode 4 n)).word := by
        rw [word_store (LittleEndian.length_encode ..), LittleEndian.decode_encode fits]
        exact large
      rw [List.append_assoc, receivePacket_bad_length first (by simp) (word_tag magic) second bad]

/-- The loop stops at a bad header, with the messages in front of it. -/
theorem handleTCPclient_bad_header (long : ∀ i, maxLengthPayload ≤ sched.portion i)
    {payloads : List (List UInt8)} (framable : Framable payloads) (bad : BadHeader header)
    {tail : List UInt8} {c : Client Socket} {calls : Nat}
    (peer : c.peer = ⟨calls, frames payloads ++ (header ++ tail)⟩) {ticks : List Tick}
    (active : ∀ t ∈ ticks, t.stopRequested = false ∧ t.ready = true)
    (enough : payloads.length < ticks.length) :
    (c.handleTCPclient (socketPeer sched) ticks).status = .closed ∧
      (c.handleTCPclient (socketPeer sched) ticks).messages = payloads := by
  have portion := four_le_portion long
  obtain ⟨c', peer', status, -, messages⟩ := handleTCPclient_frames framable
    (wholeReads_of_long long framable) peer active enough.le
  let t := ticks[payloads.length]
  obtain ⟨noStop, ready⟩ := active t (List.getElem_mem enough)
  have zero := receivePacket_bad_header (calls + 3 * payloads.length) bad tail (portion _)
    (portion _) t.magic t.size c'.bufferMsg
  rw [← peer'] at zero
  obtain ⟨closed, nothing⟩ := iterate_zero ready zero
  rw [List.drop_eq_getElem_cons enough, handleTCPclient_closed noStop closed] at status messages
  constructor
  · exact status
  · rw [messages]
    simp [Handled.messages, Handled.pushed, t, nothing]

end Bad

/-! ### The next client -/

/-- `clnSockDescr = accept(…)`: what the listener works on when the next client is
served. -/
def Client.accept {σ σ' : Type*} (c : Client σ) (clnSockDescr : Nat) (peer : σ') : Client σ' :=
  { peer := peer, clnSockDescr := clnSockDescr, bufferMsg := c.bufferMsg
    queuePckRead := c.queuePckRead, pktsPushQueue := c.pktsPushQueue }

section Next

variable {σ : Type*} {peer : Peer σ}

/-- What `ReceivePacket` receives does not depend on what the buffer held before. -/
theorem receivePacket_history (peer : Peer σ) (s : σ) (magic size bufferMsg bufferMsg' : Buffer) :
    let r := receivePacket peer s magic size bufferMsg
    let r' := receivePacket peer s magic size bufferMsg'
    r.ret = r'.ret ∧ r.peer = r'.peer ∧ r.reads = r'.reads ∧
      r.bufferMsg.bytes r.ret.toNat = r'.bufferMsg.bytes r'.ret.toNat := by
  unfold receivePacket
  split
  · exact ⟨rfl, rfl, rfl, rfl⟩
  · split
    · exact ⟨rfl, rfl, rfl, rfl⟩
    split
    · exact ⟨rfl, rfl, rfl, rfl⟩
    split
    · exact ⟨rfl, rfl, rfl, rfl⟩
    · split
      · exact ⟨rfl, rfl, rfl, rfl⟩
      split
      · exact ⟨rfl, rfl, rfl, rfl⟩
      split
      · exact ⟨rfl, rfl, rfl, rfl⟩
      · refine ⟨rfl, rfl, rfl, ?_⟩
        simp only [Int.toNat_natCast, Buffer.bytes_store]

/-- Two connections with the same peer: the loop makes the same reads and builds
packets with the same messages, whatever was served before. -/
theorem iterate_history {c c' : Client σ} (same : c.peer = c'.peer) (t : Tick) :
    (c.iterate peer t).status = (c'.iterate peer t).status ∧
      (c.iterate peer t).reads = (c'.iterate peer t).reads ∧
      (c.iterate peer t).after.peer = (c'.iterate peer t).after.peer ∧
      (c.iterate peer t).pushed.toList.map Packet.payload =
        (c'.iterate peer t).pushed.toList.map Packet.payload := by
  cases ready : t.ready with
  | false =>
      rw [iterate_idle ready, iterate_idle ready]
      exact ⟨rfl, rfl, same, rfl⟩
  | true =>
      obtain ⟨ret, after, reads, bytes⟩ :=
        receivePacket_history peer c'.peer t.magic t.size c.bufferMsg c'.bufferMsg
      rcases receivePacket_cases peer c'.peer t.magic t.size c.bufferMsg with
        ⟨s', rs, -, eq⟩ | ⟨s', rs, -, eq⟩ | ⟨s', m, l, d, fits, eq⟩ <;>
        rw [eq] at ret after reads bytes
      · simp only [Client.iterate, ready, same, eq, ← ret, ← after, ← reads]
        exact ⟨rfl, rfl, rfl, rfl⟩
      · simp only [Client.iterate, ready, same, eq, ← ret, ← after, ← reads]
        exact ⟨rfl, rfl, rfl, rfl⟩
      · by_cases empty : d.length = 0
        · rw [List.length_eq_zero_iff.mp empty] at eq ret after reads
          simp only [Client.iterate, ready, same, eq, ← ret, ← after, ← reads]
          exact ⟨rfl, rfl, rfl, rfl⟩
        · have pos : 1 ≤ d.length := Nat.pos_of_ne_zero empty
          have data := iterate_data (c := c) ready (by rw [same, eq]) pos fits
          have data' := iterate_data (c := c') ready ret.symm pos fits
          rw [same, eq] at data
          rw [data, data', ← after, ← reads]
          refine ⟨rfl, rfl, rfl, ?_⟩
          simp only [Option.toList_some, List.map_singleton,
            payload_makePacket t.alloc _ fits]
          rw [← ret, Int.toNat_natCast] at bytes
          exact congrArg (fun p => [p]) bytes

/-- The loop serves a client the same way whatever the listener did before. -/
theorem handleTCPclient_history {c c' : Client σ} (same : c.peer = c'.peer) (ticks : List Tick) :
    let h := c.handleTCPclient peer ticks
    let h' := c'.handleTCPclient peer ticks
    h.status = h'.status ∧ h.messages = h'.messages ∧
      h.iterations.map Iteration.reads = h'.iterations.map Iteration.reads := by
  induction ticks generalizing c c' with
  | nil => exact ⟨rfl, rfl, rfl⟩
  | cons t ticks ih =>
      obtain ⟨status, reads, after, pushed⟩ := iterate_history same t
      dsimp only
      by_cases noStop : t.stopRequested = false
      · cases how : (c.iterate peer t).status with
        | again =>
            obtain ⟨last, messages, later⟩ := ih after
            rw [handleTCPclient_again noStop how, handleTCPclient_again noStop (status ▸ how),
              Handled.messages_cons, Handled.messages_cons, pushed, messages]
            refine ⟨last, rfl, ?_⟩
            rw [List.map_cons, List.map_cons, reads, later]
        | closed =>
            rw [handleTCPclient_closed noStop how, handleTCPclient_closed noStop (status ▸ how)]
            exact ⟨rfl, by simpa [Handled.messages, Handled.pushed] using pushed, by simp [reads]⟩
        | fault =>
            have how' := status.symm.trans how
            simp only [Client.handleTCPclient, noStop, how, how', Bool.false_eq_true, if_false]
            exact ⟨trivial, by simpa [Handled.messages, Handled.pushed] using pushed,
              by simp [reads]⟩
      · simp [Client.handleTCPclient, noStop, Handled.messages, Handled.pushed]

/-- A connection that was closed leaves no descriptor behind. -/
theorem handleTCPclient_clnSockDescr (c : Client σ) (ticks : List Tick)
    (closed : (c.handleTCPclient peer ticks).status = .closed) :
    (c.handleTCPclient peer ticks).client.clnSockDescr = 0 := by
  induction ticks generalizing c with
  | nil => cases closed
  | cons t ticks ih =>
      by_cases noStop : t.stopRequested = false
      · cases how : (c.iterate peer t).status with
        | again =>
            rw [handleTCPclient_again noStop how] at closed ⊢
            exact ih _ closed
        | closed =>
            rw [handleTCPclient_closed noStop how]
            rfl
        | fault => simp [Client.handleTCPclient, noStop, how] at closed
      · simp [Client.handleTCPclient, noStop, Client.close]

end Next

/-- Behind a bad header nothing is read: the messages in front of it are enqueued and
counted, the connection is closed, and the next client is served as the first one
would be. -/
theorem bad_header_contained {σ : Type*} {sched : Schedule}
    (long : ∀ i, maxLengthPayload ≤ sched.portion i) (payloads : List (List UInt8))
    (framable : Framable payloads) {header : List UInt8} (bad : BadHeader header)
    (tail : List UInt8) (c : Client Socket)
    (peer : c.peer = ⟨0, frames payloads ++ (header ++ tail)⟩) (ticks : List Tick)
    (running : ∀ t ∈ ticks, t.stopRequested = false)
    (enough : payloads.length < ticks.countP Tick.ready)
    (nextPeer : Peer σ) (s : σ) (clnSockDescr : Nat) (nextTicks : List Tick) :
    let h := c.handleTCPclient (socketPeer sched) ticks
    let next := (h.client.accept clnSockDescr s).handleTCPclient nextPeer nextTicks
    let first := (acceptedClient s).handleTCPclient nextPeer nextTicks
    (h.status = .closed ∧
        h.client.queuePckRead.map Packet.payload = c.queuePckRead.map Packet.payload ++ payloads ∧
        h.client.pktsPushQueue = c.pktsPushQueue + payloads.length ∧
        h.client.clnSockDescr = 0) ∧
      next.status = first.status ∧ next.messages = first.messages ∧
      next.iterations.map Iteration.reads = first.iterations.map Iteration.reads := by
  intro h next first
  have fresh : (h.client.accept clnSockDescr s).peer = (acceptedClient s).peer := rfl
  refine ⟨?_, handleTCPclient_history fresh nextTicks⟩
  rw [List.countP_eq_length_filter] at enough
  obtain ⟨status, -, messages⟩ := handleTCPclient_filter (socketPeer sched) c running
  obtain ⟨status', messages'⟩ :=
    handleTCPclient_bad_header long framable bad peer (active_filter running) enough
  have ended : h.status = .closed := status.trans status'
  have received : h.messages = payloads := messages.trans messages'
  refine ⟨ended, ?_, ?_, handleTCPclient_clnSockDescr c ticks ended⟩
  · rw [(handled_queue c ticks).1, List.map_append]
    exact congrArg (_ ++ ·) received
  · rw [(handled_queue c ticks).2, ← received]
    exact congrArg (fun n : Nat => c.pktsPushQueue + n) (List.length_map ..).symm

/-- A frame, four foreign bytes, and another frame behind them, which is never read; the message
of the next client is. -/
theorem foreign_header_contained :
    let h := (acceptedClient ⟨0, frames [[1, 2, 3]] ++ ([1, 2, 3, 4] ++ frame [9])⟩).handleTCPclient
      (socketPeer wholeSchedule) [staleTick, staleTick]
    let next := (h.client.accept 6 ⟨0, frames [[5, 6]]⟩).handleTCPclient
      (socketPeer wholeSchedule) [staleTick]
    h.client.queuePckRead.map Packet.payload = [[1, 2, 3]] ∧ h.client.clnSockDescr = 0 ∧
      next.messages = [[5, 6]] := by
  have bad : BadHeader [1, 2, 3, 4] := .tag rfl (by decide)
  have long : ∀ i, maxLengthPayload ≤ wholeSchedule.portion i := fun _ => Nat.le_refl _
  obtain ⟨⟨-, queue, -, closed⟩, -, next, -⟩ := bad_header_contained long [[1, 2, 3]] (by decide)
    bad (frame [9]) (acceptedClient _) rfl [staleTick, staleTick] (by decide) (by decide)
    (socketPeer wholeSchedule) ⟨0, frames [[5, 6]]⟩ 6 [staleTick]
  exact ⟨queue, closed, next.trans rfl⟩

end UwAppNet
