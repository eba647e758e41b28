import UwAppNet.SendData
import UwAppNet.Lib.Simulation

/-!
`send_data` against the listener thread: the simulator writes a frame in three calls of
`write`, and between any two of them the thread may close the connection, clear
`clnSockDescr` and accept the next client.

Every `write` takes the descriptor that `clnSockDescr` holds at that moment. Between `::close`
and the assignment of 0 this is a number that the system may have given to somebody else, and
afterwards it is 0: such writes are `strays`, and another module's may come in here. As long as
none does, no client is accepted between the writes of one call and no `write` to a client stops
half-way, what a client can read of its stream are the messages of the calls that wrote their
last byte to it.
-/

namespace UwAppNet

open LittleEndian SelfDelimiting SelfDelimiting.Code Transition

/-! ### The two threads -/

/-- The `write` of `send_data` that comes next. -/
inductive SendLoc where
  | idle
  | magic (data : List UInt8)
  | size (data : List UInt8)
  | payload (data : List UInt8)
deriving DecidableEq, Repr

namespace SendLoc

/-- What it writes. -/
def bytes : SendLoc → List UInt8
  | .idle => []
  | .magic _ => encode 4 magicTag
  | .size data => encode 4 data.length
  | .payload data => data

/-- Where it leads if it returns the size it was given. -/
def next : SendLoc → SendLoc
  | .magic data => .size data
  | .size data => .payload data
  | _ => .idle

/-- The message of the call that is under way. -/
def message : SendLoc → List (List UInt8)
  | .idle => []
  | .magic data | .size data | .payload data => [data]

/-- What was written of its frame. -/
def begun : SendLoc → List UInt8
  | .size _ => encode 4 magicTag
  | .payload data => encode 4 magicTag ++ encode 4 data.length
  | _ => []

end SendLoc

/-- Where the listener thread is: at `accept`, in `HandleTCPclient`, or between
`::close(clnSockDescr)` and `clnSockDescr = 0`. -/
inductive ServeLoc where
  | accepting | serving | closed
deriving DecidableEq, Repr

/-- The bytes written to a connection, and the messages whose last byte was. -/
structure ClientStream where
  text : List UInt8
  sent : List (List UInt8)
deriving DecidableEq, Repr

def ClientStream.fresh : ClientStream := ⟨[], []⟩

/-- The member both threads use and where they are. `past` and `current` are the streams of
the connections so far, `calls` the messages `send_data` was called with, `strays` what it
wrote while no client was served, and to which descriptor. -/
structure Delivery where
  clnSockDescr : Nat
  listener : ServeLoc
  sender : SendLoc
  past : List ClientStream
  current : ClientStream
  calls : List (List UInt8)
  strays : List (Nat × List UInt8)
deriving DecidableEq, Repr

/-- The statements of the listener thread, a call of `send_data` and its writes; `foreign` is a
stray of somebody else that hits the descriptor of the client. -/
inductive DeliveryAction where
  | accept (clnSockDescr : Nat)
  | close
  | clear
  | call (data : List UInt8)
  | write (r : WriteResult)
  | foreign (bs : List UInt8)

namespace Delivery

/-- A listener that waits for its first client. -/
def start : Delivery where
  clnSockDescr := 0
  listener := .accepting
  sender := .idle
  past := []
  current := .fresh
  calls := []
  strays := []

/-- All connections, in the order they were accepted. -/
def streams (d : Delivery) : List ClientStream := d.past ++ [d.current]

/-- `send_data(data, size)`: nothing without a client. Only the simulator calls it. -/
def enter (d : Delivery) (data : List UInt8) : Option Delivery :=
  if d.sender = .idle then
    some { d with
      sender := if d.clnSockDescr ≠ 0 then .magic data else .idle
      calls := d.calls ++ [data] }
  else none

/-- What a `write` puts on the connection, if a client is served. -/
def put (d : Delivery) (r : WriteResult) : ClientStream :=
  if d.listener = .serving then
    { text := d.current.text ++ (write d.sender.bytes r).2
      sent := d.current.sent ++
        match d.sender with
        | .payload data => if r.full data.length then [data] else []
        | _ => [] }
  else d.current

/-- If none is, it goes to the descriptor that was closed, or to 0. -/
def stray (d : Delivery) (r : WriteResult) : Option (Nat × List UInt8) :=
  if d.listener = .serving then none else some (d.clnSockDescr, (write d.sender.bytes r).2)

/-- Somebody else's bytes on the connection. -/
def hit (d : Delivery) (bs : List UInt8) : Delivery :=
  { d with current := { d.current with text := d.current.text ++ bs } }

/-- One of the writes of `send_data`, and the test of what it returned. -/
def proceed (d : Delivery) (r : WriteResult) : Option Delivery :=
  if d.sender = .idle then none
  else some { d with
    current := d.put r
    strays := d.strays ++ (d.stray r).toList
    sender :=
      if (write d.sender.bytes r).1 ≠ d.sender.bytes.length then .idle
      else d.sender.next }

def step (d : Delivery) : DeliveryAction → Option Delivery
  | .accept clnSockDescr =>
      if d.listener = .accepting then
        some { d with clnSockDescr := clnSockDescr, listener := .serving }
      else none
  | .close =>
      if d.listener = .serving then
        some { d with listener := .closed, past := d.past ++ [d.current], current := .fresh }
      else none
  | .clear =>
      if d.listener = .closed then some { d with clnSockDescr := 0, listener := .accepting }
      else none
  | .call data => d.enter data
  | .write r => d.proceed r
  | .foreign bs => if d.listener = .serving then some (d.hit bs) else none

/-- No client is accepted while a call is under way, messages are not empty and as long as
`payload_size_` can say, a `write` to a client takes over all it is given, or nothing of the
first word, and nobody else writes to it. -/
def orderly (d : Delivery) : DeliveryAction → Bool
  | .accept _ => d.sender == .idle
  | .call data => decide (1 ≤ data.length ∧ data.length < 2 ^ 16)
  | .write r =>
      d.listener != .serving || r.full d.sender.bytes.length ||
        match d.sender with
        | .magic _ => r.nothing
        | _ => false
  | .foreign _ => false
  | _ => true

end Delivery

/-! ### What the clients can read -/

/-- A message `send_data` is called with. -/
def Sendable (data : List UInt8) : Prop := 1 ≤ data.length ∧ data.length < 2 ^ 16

/-- The messages at the front of a stream, whatever follows them. -/
def ClientStream.messages (s : ClientStream) : List (List UInt8) :=
  frameCode.front (fun _ => true) s.text

/-- What was written of a frame is not a frame. -/
theorem takeFrame_begun {loc : SendLoc} (sendable : ∀ data ∈ loc.message, Sendable data) :
    takeFrame loc.begun = none := by
  cases loc with
  | idle => rfl
  | magic data => rfl
  | size data => rfl
  | payload data =>
      obtain ⟨some_bytes, fits⟩ := sendable data (List.mem_singleton_self data)
      have size : decode (encode 4 data.length) = data.length :=
        LittleEndian.decode_encode (fits.trans (by decide))
      have header := takeFrame_header (length_encode 4 data.length) []
      rw [List.append_nil, size, if_neg (by simp only [List.length_nil]; omega)] at header
      exact header

theorem Sendable.valid {data : List UInt8} (sendable : Sendable data) :
    frameCode.valid data := sendable.2.trans (by decide)

/-- Whole messages, and at the end the words written of at most one that is not complete. -/
def ClientStream.Intact (s : ClientStream) : Prop :=
  ∃ loc : SendLoc, s.text = frames s.sent ++ loc.begun ∧
    ∀ data ∈ s.sent ++ loc.message, Sendable data

/-- Its messages can be read, and no others. -/
theorem ClientStream.Intact.messages {s : ClientStream} (intact : s.Intact) :
    s.messages = s.sent := by
  obtain ⟨loc, text, sendable⟩ := intact
  obtain ⟨sent, begun⟩ := List.forall_mem_append.mp sendable
  have good : ∀ data ∈ s.sent, frameCode.valid data ∧ true = true :=
    fun data h => ⟨(sent data h).valid, rfl⟩
  rw [ClientStream.messages, text]
  apply front_eq good
  intro payload later taken
  exact absurd ((takeFrame_begun begun).symm.trans taken) nofun

/-- What every step of an orderly run preserves: the open connection carries the frames of
its messages and the beginning of the one that is being written, the others what was
written before they were closed. -/
structure Delivering (d : Delivery) : Prop where
  current : d.current.text = frames d.current.sent ++
    if d.listener = .serving then d.sender.begun else []
  past : ∀ s ∈ d.past, s.Intact
  sendable : ∀ data ∈ d.current.sent ++ d.sender.message, Sendable data
  calls : (d.streams.flatMap ClientStream.sent ++ d.sender.message).Sublist d.calls

section Invariant

variable {d d' : Delivery}

theorem delivering_start : Delivering Delivery.start where
  current := rfl
  past := by simp [Delivery.start]
  sendable := by simp [Delivery.start, ClientStream.fresh, SendLoc.message]
  calls := List.nil_sublist _

theorem Delivering.intact_current (inv : Delivering d) : d.current.Intact := by
  have current := inv.current
  split at current
  · exact ⟨d.sender, current, inv.sendable⟩
  · refine ⟨.idle, current, ?_⟩
    rw [SendLoc.message, List.append_nil]
    exact (List.forall_mem_append.mp inv.sendable).1

theorem Delivering.accept (inv : Delivering d) (waiting : d.listener = .accepting)
    (idle : d.sender = .idle) (clnSockDescr : Nat) :
    Delivering { d with clnSockDescr := clnSockDescr, listener := .serving } := by
  refine ⟨?_, inv.past, inv.sendable, inv.calls⟩
  have current := inv.current
  rw [waiting, if_neg (by decide)] at current
  rw [current, idle]
  rfl

/-- The stream of a connection stays as it is once the connection is closed. -/
theorem Delivering.close (inv : Delivering d) : Delivering { d with
    listener := .closed, past := d.past ++ [d.current], current := .fresh } := by
  have sendable := List.forall_mem_append.mp inv.sendable
  refine ⟨rfl, ?_, sendable.2, ?_⟩
  · rw [List.forall_mem_append, List.forall_mem_singleton]
    exact ⟨inv.past, inv.intact_current⟩
  · have calls := inv.calls
    simpa [Delivery.streams, ClientStream.fresh] using calls

theorem Delivering.clear (inv : Delivering d) (closed : d.listener = .closed) :
    Delivering { d with clnSockDescr := 0, listener := .accepting } := by
  refine ⟨?_, inv.past, inv.sendable, inv.calls⟩
  have current := inv.current
  rw [closed, if_neg (by decide)] at current
  rw [current]
  rfl

/-- A call begins, or finds no client. -/
theorem Delivering.enter (inv : Delivering d) {data : List UInt8} (sendable : Sendable data)
    (h : d.enter data = some d') : Delivering d' := by
  simp only [Delivery.enter, Option.ite_none_right_eq_some, Option.some.injEq] at h
  obtain ⟨idle, rfl⟩ := h
  have message : (if d.clnSockDescr ≠ 0 then SendLoc.magic data else .idle).message.Sublist
      [data] := by
    split
    · exact List.Sublist.refl _
    · exact List.nil_sublist _
  have begun : (if d.clnSockDescr ≠ 0 then SendLoc.magic data else .idle).begun = [] := by
    split <;> rfl
  have current := inv.current
  have calls := inv.calls
  rw [idle] at current calls
  refine ⟨?_, inv.past, ?_, ?_⟩
  · simp only [begun]
    exact current
  · rw [List.forall_mem_append]
    refine ⟨(List.forall_mem_append.mp inv.sendable).1, fun other h => ?_⟩
    rw [List.mem_singleton.mp (message.subset h)]
    exact sendable
  · rw [SendLoc.message, List.append_nil] at calls
    exact calls.append message

/-- What a call has still to send gets less. -/
theorem SendLoc.next_message (loc : SendLoc) : loc.next.message.Sublist loc.message := by
  cases loc with
  | payload data => exact List.nil_sublist _
  | _ => exact List.Sublist.refl _

/-- A `write` to a descriptor that is no client's any more. -/
theorem Delivering.elsewhere (inv : Delivering d) (away : d.listener ≠ .serving)
    {loc : SendLoc} (less : loc.message.Sublist d.sender.message) :
    Delivering { d with sender := loc } := by
  have current := inv.current
  rw [if_neg away] at current
  refine ⟨?_, inv.past, ?_, ?_⟩
  · rw [if_neg away]
    exact current
  · have sendable := List.forall_mem_append.mp inv.sendable
    exact List.forall_mem_append.mpr ⟨sendable.1, fun data h => sendable.2 data (less.subset h)⟩
  · exact ((List.Sublist.refl _).append less).trans inv.calls

/-- A header word is written whole. -/
theorem Delivering.word (inv : Delivering d) (serving : d.listener = .serving) {r : WriteResult}
    (full : r.full d.sender.bytes.length = true) (sent : (d.put r).sent = d.current.sent)
    (begun : d.sender.next.begun = d.sender.begun ++ d.sender.bytes)
    (message : d.sender.next.message = d.sender.message) :
    Delivering { d with current := d.put r, sender := d.sender.next } := by
  have current := inv.current
  have calls := inv.calls
  rw [if_pos serving] at current
  refine ⟨?_, inv.past, ?_, ?_⟩
  · rw [sent, if_pos serving, begun, ← List.append_assoc, ← current, Delivery.put,
      if_pos serving, write_full full]
  · rw [sent, message]
    exact inv.sendable
  · rw [Delivery.streams, List.flatMap_append, List.flatMap_singleton] at calls ⊢
    rw [sent, message]
    exact calls

/-- A `write` that takes over all it is given. -/
theorem Delivering.whole (inv : Delivering d) (serving : d.listener = .serving)
    {r : WriteResult} (busy : d.sender ≠ .idle) (full : r.full d.sender.bytes.length = true) :
    Delivering { d with current := d.put r, sender := d.sender.next } := by
  cases loc : d.sender with
  | idle => exact absurd loc busy
  | magic data =>
      rw [← loc]
      refine inv.word serving full ?_ ?_ ?_
      · simp [Delivery.put, serving, loc]
      · rw [loc]
        rfl
      · rw [loc]
        rfl
  | size data =>
      rw [← loc]
      refine inv.word serving full ?_ ?_ ?_
      · simp [Delivery.put, serving, loc]
      · rw [loc]
        rfl
      · rw [loc]
        rfl
  | payload data =>
      have current := inv.current
      have calls := inv.calls
      have sendable := inv.sendable
      rw [if_pos serving, loc] at current
      rw [loc] at calls sendable full
      have put : d.put r = ⟨frames (d.current.sent ++ [data]), d.current.sent ++ [data]⟩ := by
        have taken : r.full data.length = true := full
        have text : (write data r).2 = data := write_full taken
        simp [Delivery.put, serving, loc, taken, current, SendLoc.begun, SendLoc.bytes, text,
          frames_concat, frame]
      rw [put]
      refine ⟨?_, inv.past, ?_, ?_⟩
      · rw [if_pos serving]
        exact (List.append_nil _).symm
      · simpa [SendLoc.next, SendLoc.message] using sendable
      · rw [Delivery.streams, List.flatMap_append, List.flatMap_singleton] at calls ⊢
        simpa [SendLoc.next, SendLoc.message] using calls

/-- A first word of which nothing is written ends the call. -/
theorem Delivering.refused (inv : Delivering d) (serving : d.listener = .serving)
    {r : WriteResult} {data : List UInt8} (loc : d.sender = .magic data)
    (nothing : r.nothing = true) :
    Delivering { d with current := d.put r, sender := .idle } := by
  have current := inv.current
  have calls := inv.calls
  have text := (write_nothing_iff (show encode 4 magicTag ≠ [] by nofun) r).mpr nothing
  have put : d.put r = d.current := by
    simp [Delivery.put, serving, loc, SendLoc.bytes, text]
  rw [put]
  rw [if_pos serving, loc] at current
  refine ⟨?_, inv.past, ?_, ?_⟩
  · rw [if_pos serving]
    exact current
  · rw [List.forall_mem_append]
    exact ⟨(List.forall_mem_append.mp inv.sendable).1, by simp [SendLoc.message]⟩
  · exact ((List.Sublist.refl _).append (List.nil_sublist _)).trans calls

theorem Delivering.proceed (inv : Delivering d) {r : WriteResult}
    (orderly : d.orderly (.write r) = true) (h : d.proceed r = some d') : Delivering d' := by
  simp only [Delivery.proceed, Option.ite_none_left_eq_some, Option.some.injEq] at h
  obtain ⟨busy, rfl⟩ := h
  -- where a stray went is no matter
  suffices written : Delivering { d with
      current := d.put r
      sender := if (write d.sender.bytes r).1 ≠ d.sender.bytes.length then .idle
        else d.sender.next } from
    ⟨written.current, written.past, written.sendable, written.calls⟩
  have returned := write_full_iff d.sender.bytes r
  by_cases serving : d.listener = .serving
  · by_cases full : r.full d.sender.bytes.length = true
    · rw [if_neg (not_not.mpr (returned.mpr full))]
      exact inv.whole serving busy full
    · rw [if_pos (mt returned.mp full)]
      simp only [Delivery.orderly, serving, full, bne_self_eq_false, Bool.false_or] at orderly
      split at orderly
      · rename_i data loc
        exact inv.refused serving loc orderly
      · cases orderly
  · rw [show d.put r = d.current by rw [Delivery.put, if_neg serving]]
    apply inv.elsewhere serving
    split
    · exact List.nil_sublist _
    · exact d.sender.next_message

theorem Delivering.step (inv : Delivering d) {a : DeliveryAction}
    (orderly : d.orderly a = true) (h : d.step a = some d') : Delivering d' := by
  cases a with
  | accept clnSockDescr =>
      simp only [Delivery.step, Option.ite_none_right_eq_some, Option.some.injEq] at h
      obtain ⟨waiting, rfl⟩ := h
      exact inv.accept waiting (by simpa [Delivery.orderly] using orderly) clnSockDescr
  | close =>
      simp only [Delivery.step, Option.ite_none_right_eq_some, Option.some.injEq] at h
      obtain ⟨-, rfl⟩ := h
      exact inv.close
  | clear =>
      simp only [Delivery.step, Option.ite_none_right_eq_some, Option.some.injEq] at h
      obtain ⟨closed, rfl⟩ := h
      exact inv.clear closed
  | call data =>
      have sendable : 1 ≤ data.length ∧ data.length < 2 ^ 16 := of_decide_eq_true orderly
      exact inv.enter sendable h
  | write r => exact inv.proceed orderly h
  | foreign bs => cases orderly

end Invariant

/-! ### What each client gets -/

/-- What a client can read are the messages whose last byte was written to it, and the
beginning of at most one other follows them; on an open connection between two calls there is
nothing else. Every message goes to one client at most, in the order of the calls. -/
structure Delivered (d : Delivery) : Prop where
  intact : ∀ s ∈ d.streams, s.Intact
  messages : ∀ s ∈ d.streams, s.messages = s.sent
  whole : d.listener = .serving → d.sender = .idle →
    parseFrames d.current.text = some d.current.sent
  calls : (d.streams.flatMap ClientStream.messages).Sublist d.calls

theorem Delivering.delivered {d : Delivery} (inv : Delivering d) : Delivered d := by
  have intact : ∀ s ∈ d.streams, s.Intact := by
    rw [Delivery.streams, List.forall_mem_append, List.forall_mem_singleton]
    exact ⟨inv.past, inv.intact_current⟩
  have messages : ∀ s ∈ d.streams, s.messages = s.sent := fun s hs => (intact s hs).messages
  refine ⟨intact, messages, ?_, ?_⟩
  · intro serving idle
    have current := inv.current
    rw [if_pos serving, idle] at current
    have sendable := (List.forall_mem_append.mp inv.sendable).1
    exact decodeAll_eq_some_iff.mpr
      ⟨current.trans (List.append_nil _), fun data h => (sendable data h).valid⟩
  · have same : d.streams.flatMap ClientStream.messages =
        d.streams.flatMap ClientStream.sent := by
      rw [List.flatMap_def, List.flatMap_def, List.map_congr_left messages]
    rw [same]
    exact (List.sublist_append_left _ _).trans inv.calls

theorem delivering_run {moves : List (Move Delivery DeliveryAction)} {d : Delivery}
    (run : Run Delivery.step .start moves d)
    (orderly : ∀ m ∈ moves, m.before.orderly m.action = true) : Delivering d :=
  run.invariant_of delivering_start orderly fun _ _ _ inv met h => inv.step met h

section Deaf

variable {d d' : Delivery} {moves : List (Move Delivery DeliveryAction)}

/-- Nothing is written while no connection is open. -/
def Delivery.Resting (d : Delivery) : Prop := d.listener ≠ .serving → d.current = .fresh

theorem Delivery.Resting.step (inv : d.Resting) {a : DeliveryAction}
    (h : d.step a = some d') : d'.Resting := by
  cases a with
  | accept clnSockDescr =>
      simp only [Delivery.step, Option.ite_none_right_eq_some, Option.some.injEq] at h
      obtain ⟨-, rfl⟩ := h
      exact fun away => absurd rfl away
  | close =>
      simp only [Delivery.step, Option.ite_none_right_eq_some, Option.some.injEq] at h
      obtain ⟨-, rfl⟩ := h
      exact fun _ => rfl
  | clear =>
      simp only [Delivery.step, Option.ite_none_right_eq_some, Option.some.injEq] at h
      obtain ⟨closed, rfl⟩ := h
      exact fun _ => inv (by rw [closed]; decide)
  | call data =>
      simp only [Delivery.step, Delivery.enter, Option.ite_none_right_eq_some,
        Option.some.injEq] at h
      obtain ⟨-, rfl⟩ := h
      exact inv
  | write r =>
      simp only [Delivery.step, Delivery.proceed, Option.ite_none_left_eq_some,
        Option.some.injEq] at h
      obtain ⟨-, rfl⟩ := h
      exact fun away => (if_neg away).trans (inv away)
  | foreign bs =>
      simp only [Delivery.step, Option.ite_none_right_eq_some, Option.some.injEq] at h
      obtain ⟨serving, rfl⟩ := h
      exact fun away => absurd serving away

end Deaf

end UwAppNet
