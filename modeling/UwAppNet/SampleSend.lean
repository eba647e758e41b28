import UwAppNet.SendData
import Mathlib.Data.Nat.Digits.Lemmas

/-!
The sample client's way to the node: `SingleNode._send_data` of
`sample/test_sockets_TCP.py`, called by a timer thread as long as it raises nothing.

Unlike `send_data` it goes on after a `send` that took over only part of the frame, and it
appends its own counter to every message. A frame is still torn when `send` fails after
some of it was taken over: the call returns, and the next one starts a new frame. The log line
behind a whole frame decodes the message, and raises if it is no text.
-/

namespace UwAppNet

open SelfDelimiting SelfDelimiting.Code

/-! ### One call -/

/-- What one `s.send` does: it takes over at most so many bytes, or raises
`socket.error`, with `EAGAIN` or another number. `BrokenPipeError` is a `socket.error`, so
the second handler never sees it. -/
inductive SendResult where
  | sent (n : Nat)
  | again
  | raised
deriving DecidableEq, Repr

/-- How `_send_data` ends: it returns `total_sent` or `-total_sent`, raises, or is still
in its loop. -/
inductive SendEnd where
  | complete (totalSent : Nat)
  | abandoned (totalSent : Nat)
  | raised
  | sending
deriving DecidableEq, Repr

/-- The value returned. -/
def SendEnd.ret : SendEnd → Option Int
  | .complete totalSent => some totalSent
  | .abandoned totalSent => some (-totalSent)
  | _ => none

/-- `while len(data)`: how the loop ends and the bytes taken over. -/
def sendLoop (totalSent : Nat) : List UInt8 → List SendResult → SendEnd × List UInt8
  | [], _ => (.complete totalSent, [])
  | _ :: _, [] => (.sending, [])
  | _ :: _, .again :: _ => (.abandoned totalSent, [])
  | _ :: _, .raised :: _ => (.raised, [])
  | x :: data, .sent n :: results =>
      let taken := (x :: data).take n
      let r := sendLoop (totalSent + taken.length) ((x :: data).drop n) results
      (r.1, taken ++ r.2)

/-- The decimal digits of a number as text. -/
def decimal (n : Nat) : List UInt8 := (Nat.digits 10 n).reverse.map fun d => UInt8.ofNat (48 + d)

/-- `msg + bytes(f" #{self.sent_pckt_cnt+1}", encoding="utf-8")`. -/
def withCounter (sentPcktCnt : Nat) (msg : List UInt8) : List UInt8 :=
  msg ++ 32 :: 35 :: decimal (sentPcktCnt + 1)

/-- A call of `_send_data`: the message and what its calls of `send` do. -/
structure SampleCall where
  msg : List UInt8
  results : List SendResult
deriving DecidableEq, Repr

/-- `_send_data`: how it ends and the bytes taken over. `struct.pack` raises for a length
that has no four bytes. -/
def SampleCall.run (call : SampleCall) (sentPcktCnt : Nat) : SendEnd × List UInt8 :=
  let msg := withCounter sentPcktCnt call.msg
  if msg.length < 2 ^ 32 then sendLoop 0 (frame msg) call.results else (.raised, [])

/-! ### The timer thread -/

/-- What a session leaves: the stream, and the messages counted in `sent_pckt_cnt`. -/
structure Session where
  stream : List UInt8
  messages : List (List UInt8)

/-- The bytes are UTF-8, so that `decode()` does not raise. -/
def decodable (data : List UInt8) : Bool := (ByteArray.mk data.toArray).validateUTF8

/-- The calls of the timer thread, the first with `sent_pckt_cnt` as given; an exception
ends the thread. A message that cannot be logged was sent and counted before. -/
def session (sentPcktCnt : Nat) : List SampleCall → Session
  | [] => ⟨[], []⟩
  | call :: calls =>
      let r := call.run sentPcktCnt
      let msg := withCounter sentPcktCnt call.msg
      match r.1 with
      | .complete _ =>
          if decodable msg then
            let rest := session (sentPcktCnt + 1) calls
            ⟨r.2 ++ rest.stream, msg :: rest.messages⟩
          else ⟨r.2, [msg]⟩
      | .abandoned _ =>
          let rest := session sentPcktCnt calls
          ⟨r.2 ++ rest.stream, rest.messages⟩
      | .raised | .sending => ⟨r.2, []⟩

/-! ### What the loop takes over -/

section SendLoop

variable {totalSent : Nat} {data : List UInt8} {results : List SendResult}

/-- The loop takes over the beginning of the data, all of it exactly when it comes to its
end, and counts what it took over. -/
theorem sendLoop_spec (totalSent : Nat) (data : List UInt8) (results : List SendResult) :
    let r := sendLoop totalSent data results
    r.2 <+: data ∧
      ((∃ n, r.1 = .complete n) ↔ r.2 = data) ∧
      (∀ n, r.1 = .complete n ∨ r.1 = .abandoned n → n = totalSent + r.2.length) := by
  induction results generalizing totalSent data with
  | nil => cases data <;> simp [sendLoop]
  | cons result results ih =>
      cases data with
      | nil => simp [sendLoop]
      | cons x data =>
          cases result with
          | again => simp [sendLoop]
          | raised => simp [sendLoop]
          | sent n =>
              obtain ⟨starts, completes, counts⟩ :=
                ih (totalSent + ((x :: data).take n).length) ((x :: data).drop n)
              have split := List.take_append_drop n (x :: data)
              refine ⟨?_, ?_, ?_⟩
              · have whole := (List.prefix_append_right_inj ((x :: data).take n)).mpr starts
                rwa [split] at whole
              · apply completes.trans
                constructor
                · intro rest
                  simp only [sendLoop, rest, split]
                · intro whole
                  refine List.append_cancel_left (whole.trans split.symm)
              · intro k ended
                rw [counts k ended]
                simp only [sendLoop, List.length_append]
                omega

end SendLoop

/-- A call takes over the beginning of its frame, all of it exactly when it comes to the
end of its loop. -/
theorem SampleCall.run_spec (call : SampleCall) (sentPcktCnt : Nat) :
    let r := call.run sentPcktCnt
    let message := withCounter sentPcktCnt call.msg
    r.2 <+: frame message ∧ ((∃ n, r.1 = .complete n) ↔ r.2 = frame message) ∧
      (r.2 ≠ [] → message.length < 2 ^ 32) := by
  intro r message
  by_cases fits : message.length < 2 ^ 32
  · have same : r = sendLoop 0 (frame message) call.results := if_pos fits
    obtain ⟨starts, completes, -⟩ := sendLoop_spec 0 (frame message) call.results
    rw [same]
    exact ⟨starts, completes, fun _ => fits⟩
  · have same : r = (.raised, []) := if_neg fits
    rw [same]
    refine ⟨List.nil_prefix, iff_of_false nofun (frameCode.nonempty message).symm, ?_⟩
    exact fun taken => absurd rfl taken

/-- The call ends, or hangs, after some but not all bytes of its frame were taken over. -/
def SampleCall.Torn (call : SampleCall) (sentPcktCnt : Nat) : Prop :=
  (call.run sentPcktCnt).2 ≠ [] ∧ ∀ n, (call.run sentPcktCnt).1 ≠ .complete n

/-! ### The calls of a session -/

/-- The calls the thread comes to make, each with `sent_pckt_cnt` before it. -/
def made (sentPcktCnt : Nat) : List SampleCall → List (Nat × SampleCall)
  | [] => []
  | call :: calls => (sentPcktCnt, call) ::
      match (call.run sentPcktCnt).1 with
      | .complete _ =>
          if decodable (withCounter sentPcktCnt call.msg) then made (sentPcktCnt + 1) calls else []
      | .abandoned _ => made sentPcktCnt calls
      | .raised | .sending => []

/-- A call as an attempt to write the frame of its message. -/
def attempt (m : Nat × SampleCall) : frameCode.Attempt where
  value := withCounter m.1 m.2.msg
  written := (m.2.run m.1).2
  start := (m.2.run_spec m.1).1

section Session

variable {sentPcktCnt : Nat} {calls : List SampleCall}

theorem attempt_complete_iff (m : Nat × SampleCall) :
    (attempt m).complete = true ↔ ∃ n, (m.2.run m.1).1 = .complete n :=
  Attempt.complete_iff.trans (m.2.run_spec m.1).2.1.symm

/-- A session leaves what its calls wrote, and counts the messages whose frames are
whole. -/
theorem session_eq (sentPcktCnt : Nat) (calls : List SampleCall) :
    session sentPcktCnt calls =
      ⟨Attempt.output ((made sentPcktCnt calls).map attempt),
        Attempt.completed ((made sentPcktCnt calls).map attempt)⟩ := by
  induction calls generalizing sentPcktCnt with
  | nil => rfl
  | cons call calls ih =>
      have written : (attempt (sentPcktCnt, call)).written = (call.run sentPcktCnt).2 := rfl
      have complete := attempt_complete_iff (sentPcktCnt, call)
      cases ended : (call.run sentPcktCnt).1 <;>
        simp only [ended, reduceCtorEq, exists_false, iff_false, Bool.not_eq_true,
          SendEnd.complete.injEq, exists_eq', iff_true] at complete
      case complete n =>
        cases text : decodable (withCounter sentPcktCnt call.msg) with
        | true =>
            simp only [session, made, ended, text, if_true, ih, List.map_cons,
              Attempt.completed_cons_of_complete complete]
            rfl
        | false =>
            simp only [session, made, ended, text, Bool.false_eq_true, if_false, List.map_cons,
              List.map_nil, Attempt.completed_cons_of_complete complete]
            simp [Attempt.output, Attempt.completed, attempt]
      case abandoned n =>
        simp only [session, made, ended, ih, List.map_cons,
          Attempt.completed_cons_of_cut complete]
        rfl
      all_goals
        simp only [session, made, ended, List.map_cons, List.map_nil,
          Attempt.completed_cons_of_cut complete]
        simp [Attempt.output, Attempt.completed, written]

theorem not_torn_iff (m : Nat × SampleCall) :
    ¬ m.2.Torn m.1 ↔ (attempt m).written = [] ∨
      (attempt m).written = frame (attempt m).value ∧ (attempt m).value.length < 2 ^ 32 := by
  obtain ⟨-, completes, fits⟩ := m.2.run_spec m.1
  have written : (attempt m).written = (m.2.run m.1).2 := rfl
  rw [SampleCall.Torn, not_and_or, not_not, written]
  refine or_congr_right' fun some_bytes => ?_
  rw [not_forall_not, completes]
  exact (and_iff_left (fits some_bytes)).symm

/-- The stream of a session reads back as the messages it counted exactly when no call it
made was torn. -/
theorem session_readable_iff (sentPcktCnt : Nat) (calls : List SampleCall) :
    parseFrames (session sentPcktCnt calls).stream =
        some (session sentPcktCnt calls).messages ↔
      ∀ m ∈ made sentPcktCnt calls, ¬ m.2.Torn m.1 := by
  rw [session_eq, parseFrames, Attempt.decodeAll_output_iff, List.forall_mem_map]
  exact forall₂_congr fun m _ => (not_torn_iff m).symm

end Session

/-! ### The counter in the messages -/

/-- Digits are between `'0'` and `'9'`. -/
theorem digit_of_mem_decimal {n : Nat} {b : UInt8} (h : b ∈ decimal n) :
    48 ≤ b.toNat ∧ b.toNat < 58 := by
  obtain ⟨d, hd, rfl⟩ := List.mem_map.mp h
  have small := Nat.digits_lt_base (by decide) (List.mem_reverse.mp hd)
  rw [UInt8.toNat_ofNat']
  omega

/-- Subtracting `'0'` gives the digits back. -/
theorem decimal_digits (n : Nat) :
    ((decimal n).map fun b => b.toNat - 48).reverse = Nat.digits 10 n := by
  rw [decimal, List.map_map, List.map_congr_left (g := id), List.map_id, List.reverse_reverse]
  intro d hd
  have small := Nat.digits_lt_base (by decide) (List.mem_reverse.mp hd)
  show (UInt8.ofNat (48 + d)).toNat - 48 = d
  rw [UInt8.toNat_ofNat']
  omega

theorem decimal_injective : Function.Injective decimal := by
  intro m n same
  rw [← Nat.digits_inj_iff (b := 10), ← decimal_digits m, ← decimal_digits n, same]

theorem hash_notMem_decimal (n : Nat) : 35 ∉ decimal n := by
  intro hash
  have digit := (digit_of_mem_decimal hash).1
  exact absurd digit (by decide)

/-- A list is split at the last occurrence of a symbol in one way only. -/
theorem append_cons_inj_of_notMem_right {α : Type*} {a : α} {xs xs' ys ys' : List α}
    (last : a ∉ ys) (last' : a ∉ ys') (same : xs ++ a :: ys = xs' ++ a :: ys') :
    xs = xs' ∧ ys = ys' := by
  rcases List.append_eq_append_iff.mp same with ⟨zs, rfl, eq⟩ | ⟨zs, rfl, eq⟩
  · cases zs with
    | nil => simpa using eq
    | cons z zs =>
        rw [List.cons_append, List.cons.injEq] at eq
        exact absurd (by simp [eq.2]) last
  · cases zs with
    | nil => simpa using eq.symm
    | cons z zs =>
        rw [List.cons_append, List.cons.injEq] at eq
        exact absurd (by simp [eq.2]) last'

/-- The counter and the message can be told apart again. -/
theorem withCounter_inj {m n : Nat} {msg msg' : List UInt8}
    (same : withCounter m msg = withCounter n msg') : m = n ∧ msg = msg' := by
  have split : ∀ (k : Nat) (msg : List UInt8),
      withCounter k msg = (msg ++ [32]) ++ 35 :: decimal (k + 1) := by
    intro k msg
    rw [withCounter, List.append_assoc, List.singleton_append]
  rw [split, split] at same
  obtain ⟨text, digits⟩ := append_cons_inj_of_notMem_right (hash_notMem_decimal _)
    (hash_notMem_decimal _) same
  exact ⟨Nat.succ_injective (decimal_injective digits), List.append_cancel_right text⟩

/-- The messages counted in a session are some of the messages given, in order, each with
its number. -/
theorem session_mapIdx (sentPcktCnt : Nat) (calls : List SampleCall) :
    ∃ msgs : List (List UInt8), msgs.Sublist (calls.map SampleCall.msg) ∧
      (session sentPcktCnt calls).messages =
        msgs.mapIdx fun i msg => withCounter (sentPcktCnt + i) msg := by
  induction calls generalizing sentPcktCnt with
  | nil => exact ⟨[], List.Sublist.slnil, rfl⟩
  | cons call calls ih =>
      cases ended : (call.run sentPcktCnt).1 with
      | complete n =>
          cases text : decodable (withCounter sentPcktCnt call.msg) with
          | true =>
              obtain ⟨msgs, some_of, numbered⟩ := ih (sentPcktCnt + 1)
              refine ⟨call.msg :: msgs, some_of.cons_cons _, ?_⟩
              simp only [session, ended, text, if_true, numbered, List.mapIdx_cons, Nat.add_zero,
                Nat.add_assoc, Nat.add_comm 1]
          | false =>
              refine ⟨[call.msg], (List.nil_sublist _).cons_cons _, ?_⟩
              simp only [session, ended, text, Bool.false_eq_true, if_false,
                List.mapIdx_singleton, Nat.add_zero]
      | abandoned n =>
          obtain ⟨msgs, some_of, numbered⟩ := ih sentPcktCnt
          exact ⟨msgs, some_of.cons _, by simpa only [session, ended] using numbered⟩
      | raised => exact ⟨[], List.nil_sublist _, by simp only [session, ended, List.mapIdx_nil]⟩
      | sending => exact ⟨[], List.nil_sublist _, by simp only [session, ended, List.mapIdx_nil]⟩

/-- The messages counted in a session carry consecutive numbers, so they are all different,
even where the same message was given twice. -/
theorem session_numbered (sentPcktCnt : Nat) (calls : List SampleCall) :
    (∃ msgs : List (List UInt8), msgs.Sublist (calls.map SampleCall.msg) ∧
      (session sentPcktCnt calls).messages =
        msgs.mapIdx fun i msg => withCounter (sentPcktCnt + i) msg) ∧
      (session sentPcktCnt calls).messages.Nodup := by
  obtain ⟨msgs, some_of, numbered⟩ := session_mapIdx sentPcktCnt calls
  refine ⟨⟨msgs, some_of, numbered⟩, ?_⟩
  rw [numbered, List.Nodup, List.pairwise_iff_getElem]
  intro i j hi hj lt same
  simp only [List.getElem_mapIdx] at same
  have numbers := (withCounter_inj same).1
  omega

end UwAppNet
