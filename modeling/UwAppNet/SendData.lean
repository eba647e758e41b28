import UwAppNet.Framing
import UwAppNet.Lib.SelfDelimiting

/-!
The way back to the client: `send_data` and the stream it leaves on the connection.

A frame is written in three calls of `write`, and each may fail or take over fewer
bytes than it was given. `parseFrames` reads the stream as the frame format says.
-/

namespace UwAppNet

open LittleEndian SelfDelimiting SelfDelimiting.Code

/-! ### One call -/

/-- What one `write` returns: -1, or the number of bytes it took over, at most as many
as it was given. -/
inductive WriteResult where
  | error
  | count (n : Nat)
deriving DecidableEq, Repr

/-- `write(fd, bs, size)`: its return value and the bytes that reach the stream. -/
def write (bs : List UInt8) : WriteResult → Int × List UInt8
  | .error => (-1, [])
  | .count n => ((bs.take n).length, bs.take n)

/-- A call of `send_data`: the `size` bytes at `data`, and what its three writes
return if they are made. -/
structure SendCall where
  data : List UInt8
  magicWritten : WriteResult
  sizeWritten : WriteResult
  dataWritten : WriteResult
deriving DecidableEq, Repr

/-- `send_data`: its return value and the bytes it leaves on the stream. Storing
`size` in a `uint32_t` keeps its four lowest bytes. -/
def sendData (clnSockDescr : Nat) (call : SendCall) : Bool × List UInt8 :=
  if clnSockDescr ≠ 0 then
    let (ret, magic) := write (encode 4 magicTag) call.magicWritten
    if ret ≠ 4 then (false, magic)
    else
      let (ret, size) := write (encode 4 call.data.length) call.sizeWritten
      if ret ≠ 4 then (false, magic ++ size)
      else
        let (ret, data) := write call.data call.dataWritten
        if ret ≠ call.data.length then (false, magic ++ (size ++ data))
        else (true, magic ++ (size ++ data))
  else (false, [])

/-- The stream a sequence of calls leaves on one connection. -/
def sentStream (clnSockDescr : Nat) (calls : List SendCall) : List UInt8 :=
  calls.flatMap fun call => (sendData clnSockDescr call).2

/-- The payloads of the calls that returned true. -/
def acknowledged (clnSockDescr : Nat) (calls : List SendCall) : List (List UInt8) :=
  (calls.filter fun call => (sendData clnSockDescr call).1).map SendCall.data

/-- The write put all `n` bytes it was given on the stream. -/
def WriteResult.full (n : Nat) : WriteResult → Bool
  | .error => false
  | .count k => decide (n ≤ k)

/-- The write put nothing on the stream. -/
def WriteResult.nothing : WriteResult → Bool
  | .error => true
  | .count k => k == 0

/-- All three writes take over all they are given. -/
def SendCall.complete (call : SendCall) : Bool :=
  call.magicWritten.full 4 && call.sizeWritten.full 4 &&
    call.dataWritten.full call.data.length

section Call

variable {bs : List UInt8} {n : Nat} {clnSockDescr : Nat} {call : SendCall}

/-- `write` returns the size it was given exactly when it took over everything. -/
theorem write_full_iff (bs : List UInt8) (r : WriteResult) :
    (write bs r).1 = bs.length ↔ r.full bs.length = true := by
  cases r with
  | error =>
      refine iff_of_false ?_ (by simp [WriteResult.full])
      show ¬ (-1 : Int) = bs.length
      omega
  | count k =>
      simp only [write, List.length_take, WriteResult.full, decide_eq_true_eq]
      omega

theorem write_full {r : WriteResult} (full : r.full bs.length = true) : (write bs r).2 = bs := by
  cases r with
  | error => cases full
  | count k => exact List.take_of_length_le (of_decide_eq_true full)

theorem write_nothing_iff (nonempty : bs ≠ []) (r : WriteResult) :
    (write bs r).2 = [] ↔ r.nothing = true := by
  cases r with
  | error => simp [write, WriteResult.nothing]
  | count k => simp [write, WriteResult.nothing, nonempty]

/-- `write` of a word returns 4 exactly when it took over the word. -/
theorem write_word_iff (value : Nat) (r : WriteResult) :
    (write (encode 4 value) r).1 = 4 ↔ r.full 4 = true := by
  have whole := write_full_iff (encode 4 value) r
  rwa [length_encode] at whole

theorem write_word {value : Nat} {r : WriteResult} (full : r.full 4 = true) :
    (write (encode 4 value) r).2 = encode 4 value :=
  write_full (by rwa [length_encode])

theorem not_full_of_nothing {r : WriteResult} (nothing : r.nothing = true) :
    r.full 4 = false := by
  cases r with
  | error => rfl
  | count k =>
      rw [WriteResult.nothing, beq_iff_eq] at nothing
      simp [WriteResult.full, nothing]

/-- A call whose writes are all full sends the frame of its payload. -/
theorem sendData_complete (connected : clnSockDescr ≠ 0) (complete : call.complete = true) :
    sendData clnSockDescr call = (true, frame call.data) := by
  simp only [SendCall.complete, Bool.and_eq_true] at complete
  obtain ⟨⟨magic, size⟩, data⟩ := complete
  simp only [sendData, if_pos connected, (write_word_iff _ _).mpr magic,
    (write_word_iff _ _).mpr size, (write_full_iff _ _).mpr data, ne_eq, not_true, if_false,
    write_word magic, write_word size, write_full data]
  rfl

/-- Any other call returns false; it leaves the stream alone exactly when its first
write took over nothing. -/
theorem sendData_incomplete (connected : clnSockDescr ≠ 0) (incomplete : call.complete = false) :
    (sendData clnSockDescr call).1 = false ∧
      ((sendData clnSockDescr call).2 = [] ↔ call.magicWritten.nothing = true) := by
  have started := write_nothing_iff (show encode 4 magicTag ≠ [] by nofun) call.magicWritten
  simp only [sendData, if_pos connected]
  by_cases magic : call.magicWritten.full 4 = true
  · have some_bytes : ¬ call.magicWritten.nothing = true := by
      rw [← started, write_word magic]
      nofun
    have written : encode 4 magicTag ≠ [] := nofun
    by_cases size : call.sizeWritten.full 4 = true
    · have data : ¬ call.dataWritten.full call.data.length = true := by
        intro full
        rw [SendCall.complete, magic, size, full] at incomplete
        cases incomplete
      rw [← write_full_iff] at data
      simp [(write_word_iff _ _).mpr magic, (write_word_iff _ _).mpr size, data,
        write_word magic, some_bytes, written]
    · rw [← write_word_iff call.data.length] at size
      simp [(write_word_iff _ _).mpr magic, size, write_word magic, some_bytes, written]
  · rw [← write_word_iff magicTag] at magic
    simp [magic, started]

end Call

/-! ### The stream read as frames -/

/-- Take one frame off the front of a stream. -/
def takeFrame (text : List UInt8) : Option (List UInt8 × List UInt8) :=
  if text.take 4 = encode 4 magicTag then
    let size := decode ((text.drop 4).take 4)
    let body := text.drop 8
    if 8 + size ≤ text.length then some (body.take size, body.drop size) else none
  else none

@[simp] theorem length_frame (payload : List UInt8) :
    (frame payload).length = 8 + payload.length := by
  simp only [frame, List.length_append, length_encode]
  omega

theorem frames_concat (payloads : List (List UInt8)) (payload : List UInt8) :
    frames (payloads ++ [payload]) = frames payloads ++ frame payload := by
  simp [frames]

/-- The two header words in front of a text. -/
theorem takeFrame_header {size : List UInt8} (four : size.length = 4) (text : List UInt8) :
    takeFrame (encode 4 magicTag ++ (size ++ text)) =
      if decode size ≤ text.length then some (text.take (decode size), text.drop (decode size))
      else none := by
  have tag : (encode 4 magicTag ++ (size ++ text)).take 4 = encode 4 magicTag := by
    simp
  have word : ((encode 4 magicTag ++ (size ++ text)).drop 4).take 4 = size := by
    simp [← four]
  have body : (encode 4 magicTag ++ (size ++ text)).drop 8 = text := by
    simp [List.drop_append, four]
  have length : (encode 4 magicTag ++ (size ++ text)).length = 8 + text.length := by
    simp only [List.length_append, length_encode, four]
    omega
  rw [takeFrame, if_pos tag, word, body, length]
  simp only [Nat.add_le_add_iff_left]

/-- The frame format: a message of fewer than `2 ^ 32` bytes has a frame. -/
def frameCode : Code (List UInt8) UInt8 where
  encode := frame
  decode := takeFrame
  valid payload := payload.length < 2 ^ 32
  nonempty payload := nofun
  decode_encode payload rest fits := by
    have tag : (frame payload ++ rest).take 4 = encode 4 magicTag := by simp [frame]
    have size : ((frame payload ++ rest).drop 4).take 4 = encode 4 payload.length := by
      simp [frame]
    have body : (frame payload ++ rest).drop 8 = payload ++ rest := by
      have header : (encode 4 magicTag ++ encode 4 payload.length).length = 8 := by simp
      have split : frame payload ++ rest =
          (encode 4 magicTag ++ encode 4 payload.length) ++ (payload ++ rest) := by simp [frame]
      rw [split, ← header, List.drop_left]
    have word : decode (encode 4 payload.length) = payload.length := decode_encode fits
    have inside : 8 + payload.length ≤ (frame payload ++ rest).length := by simp
    rw [takeFrame, if_pos tag, size, word, body]
    dsimp only
    rw [if_pos inside, List.take_left, List.drop_left]
  encode_of_decode text payload rest h := by
    simp only [takeFrame, Option.ite_none_right_eq_some, Option.some.injEq,
      Prod.mk.injEq] at h
    obtain ⟨tag, inside, rfl, rfl⟩ := h
    generalize word : (text.drop 4).take 4 = size at inside ⊢
    have width : size.length = 4 := by
      rw [← word, List.length_take, List.length_drop]
      omega
    have bound := decode_lt size
    have spelled := encode_decode size
    have length : ((text.drop 8).take (decode size)).length = decode size := by
      rw [List.length_take, List.length_drop]
      omega
    rw [width] at bound spelled
    refine ⟨?_, by rw [length]; exact bound⟩
    calc text = text.take 4 ++ ((text.drop 4).take 4 ++ (text.drop 4).drop 4) := by
          rw [List.take_append_drop, List.take_append_drop]
      _ = encode 4 magicTag ++ (size ++ text.drop 8) := by rw [tag, word, List.drop_drop]
      _ = frame ((text.drop 8).take (decode size)) ++ (text.drop 8).drop (decode size) := by
          rw [frame, length, spelled, List.append_assoc, List.append_assoc,
            List.take_append_drop]

/-- The messages of a stream of frames, if that is what it is. -/
def parseFrames (text : List UInt8) : Option (List (List UInt8)) := frameCode.decodeAll text

/-! ### Failed calls -/

/-- The call sends a whole frame, of a message its length field can hold, or its first
write takes over nothing. -/
def SendCall.AllOrNothing (call : SendCall) : Prop :=
  call.magicWritten.nothing = true ∨ call.complete = true ∧ call.data.length < 2 ^ 32

/-- The stream holds the frames of exactly the calls that returned true, and a call
that returned false left nothing on it. -/
structure Uncorrupted (clnSockDescr : Nat) (calls : List SendCall) : Prop where
  parsed : parseFrames (sentStream clnSockDescr calls) = some (acknowledged clnSockDescr calls)
  silent : ∀ call ∈ calls, (sendData clnSockDescr call).1 = false →
    (sendData clnSockDescr call).2 = []

section Calls

variable {clnSockDescr : Nat} {call : SendCall} {calls : List SendCall}

@[simp] theorem sentStream_cons : sentStream clnSockDescr (call :: calls) =
    (sendData clnSockDescr call).2 ++ sentStream clnSockDescr calls := rfl

theorem acknowledged_cons_of_returned (returned : (sendData clnSockDescr call).1 = true) :
    acknowledged clnSockDescr (call :: calls) = call.data :: acknowledged clnSockDescr calls := by
  simp [acknowledged, returned]

theorem acknowledged_cons_of_failed (failed : (sendData clnSockDescr call).1 = false) :
    acknowledged clnSockDescr (call :: calls) = acknowledged clnSockDescr calls := by
  simp [acknowledged, failed]

theorem sendData_cases (connected : clnSockDescr ≠ 0) (call : SendCall) :
    (call.complete = true ∧ sendData clnSockDescr call = (true, frame call.data)) ∨
      (call.complete = false ∧ (sendData clnSockDescr call).1 = false ∧
        ((sendData clnSockDescr call).2 = [] ↔ call.magicWritten.nothing = true)) := by
  cases complete : call.complete with
  | true => exact .inl ⟨rfl, sendData_complete connected complete⟩
  | false => exact .inr ⟨rfl, sendData_incomplete connected complete⟩

/-- The stream is as long as the acknowledged frames and what failed calls left
behind. -/
theorem length_sentStream (connected : clnSockDescr ≠ 0) (calls : List SendCall) :
    (sentStream clnSockDescr calls).length =
      (frames (acknowledged clnSockDescr calls)).length +
        ((calls.filter fun call => !(sendData clnSockDescr call).1).flatMap
          fun call => (sendData clnSockDescr call).2).length := by
  induction calls with
  | nil => rfl
  | cons call calls ih =>
      rw [sentStream_cons, List.length_append, ih]
      rcases sendData_cases connected call with ⟨-, eq⟩ | ⟨-, failed, -⟩
      · rw [acknowledged_cons_of_returned (by rw [eq])]
        simp [eq, frames, Nat.add_assoc]
      · rw [acknowledged_cons_of_failed failed]
        simp [failed, Nat.add_left_comm]

/-- A stream of the acknowledged frames has no room for anything else. -/
theorem silent_of_eq_frames (connected : clnSockDescr ≠ 0)
    (stream : sentStream clnSockDescr calls = frames (acknowledged clnSockDescr calls))
    (hc : call ∈ calls) (failed : (sendData clnSockDescr call).1 = false) :
    (sendData clnSockDescr call).2 = [] := by
  have length := length_sentStream connected calls
  rw [stream, Nat.left_eq_add, List.length_eq_zero_iff, List.flatMap_eq_nil_iff] at length
  exact length call (List.mem_filter.mpr ⟨hc, by simp [failed]⟩)

/-- Calls that send whole frames or nothing leave a stream of frames. -/
theorem sentStream_of_allOrNothing (connected : clnSockDescr ≠ 0)
    (good : ∀ call ∈ calls, call.AllOrNothing) :
    sentStream clnSockDescr calls = frames (acknowledged clnSockDescr calls) ∧
      ∀ payload ∈ acknowledged clnSockDescr calls, payload.length < 2 ^ 32 := by
  induction calls with
  | nil => exact ⟨rfl, by simp [acknowledged]⟩
  | cons call calls ih =>
      obtain ⟨first, others⟩ := List.forall_mem_cons.mp good
      obtain ⟨stream, fits⟩ := ih others
      rw [sentStream_cons, stream]
      rcases sendData_cases connected call with ⟨complete, eq⟩ | ⟨incomplete, failed, started⟩
      · have bound : call.data.length < 2 ^ 32 := by
          rcases first with nothing | ⟨-, bound⟩
          · exact absurd complete (by simp [SendCall.complete, not_full_of_nothing nothing])
          · exact bound
        rw [acknowledged_cons_of_returned (by rw [eq]), eq]
        exact ⟨rfl, List.forall_mem_cons.mpr ⟨bound, fits⟩⟩
      · have nothing : call.magicWritten.nothing = true := by
          rcases first with nothing | ⟨complete, -⟩
          · exact nothing
          · rw [incomplete] at complete
            cases complete
        rw [acknowledged_cons_of_failed failed, started.mpr nothing]
        exact ⟨rfl, fits⟩

/-- The client can read the stream as frames of the acknowledged payloads exactly when
every call wrote a whole frame or nothing. -/
theorem uncorrupted_iff (connected : clnSockDescr ≠ 0) (calls : List SendCall) :
    Uncorrupted clnSockDescr calls ↔ ∀ call ∈ calls, call.AllOrNothing := by
  constructor
  · rintro ⟨parsed, -⟩ call hc
    obtain ⟨stream, valid⟩ := decodeAll_eq_some_iff.mp parsed
    rcases sendData_cases connected call with ⟨complete, eq⟩ | ⟨-, failed, started⟩
    · refine .inr ⟨complete, valid call.data ?_⟩
      exact List.mem_map_of_mem (List.mem_filter.mpr ⟨hc, by rw [eq]⟩)
    · exact .inl (started.mp (silent_of_eq_frames connected stream hc failed))
  · intro good
    obtain ⟨stream, valid⟩ := sentStream_of_allOrNothing connected good
    exact ⟨decodeAll_eq_some_iff.mpr ⟨stream, valid⟩, fun call hc failed =>
      silent_of_eq_frames connected stream hc failed⟩

end Calls

/-- A call whose writes take over everything. -/
def SendCall.success (data : List UInt8) : SendCall :=
  ⟨data, .count 4, .count 4, .count data.length⟩

/-- A call that fails at its first write does no harm to the next one. -/
theorem refused_call_uncorrupted :
    Uncorrupted 5 [⟨[1, 2, 3], .error, .error, .error⟩, .success [4]] :=
  (uncorrupted_iff (by decide) _).mpr (by
    intro call hc
    rcases List.mem_pair.mp hc with rfl | rfl
    · exact .inl rfl
    · exact .inr ⟨rfl, by decide⟩)

/-- A call that fails at its third write leaves the header of a frame: the next call's
frame is read as the message that is missing. -/
theorem headless_frame_corrupts :
    acknowledged 5 [⟨[1, 2, 3], .count 4, .count 4, .error⟩, .success [4]] = [[4]] ∧
      parseFrames (sentStream 5 [⟨[1, 2, 3], .count 4, .count 4, .error⟩, .success [4]]) = none ∧
      takeFrame (sentStream 5 [⟨[1, 2, 3], .count 4, .count 4, .error⟩, .success [4]]) =
        some ([0x69, 0x19, 0x04], [0x20, 1, 0, 0, 0, 4]) ∧
      ¬ Uncorrupted 5 [⟨[1, 2, 3], .count 4, .count 4, .error⟩, .success [4]] := by
  refine ⟨by decide, by decide, by decide, fun good => ?_⟩
  have parsed := good.parsed
  exact absurd parsed (by decide)

end UwAppNet
