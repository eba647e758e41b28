import UwAppNet.Listener
import UwAppNet.SendData
import UwAppNet.Lib.Simulation

/-!
The listener thread and its clients at the same time: bytes arrive while the thread waits,
polls and reads, clients connect and hang up, one connection follows the other.

`clientMessages` says what a client's bytes mean in the documented format, without a thread
or a socket: the messages of the frames they begin with. The node takes those before the
first one that is empty or longer than `MAX_LENGTH_PAYLOAD`. As long as no `read` returns a
part of what it asks for, the thread enqueues them and nothing else, in every interleaving;
after a `read` that fails it enqueues nothing more.
-/

namespace UwAppNet

open LittleEndian SelfDelimiting SelfDelimiting.Code Transition

/-! ### What the clients' bytes mean -/

/-- The messages at the front of a client's bytes: those of its frames, of any length, up to
the first place where there is no whole frame. -/
def clientMessages (text : List UInt8) : List (List UInt8) :=
  frameCode.front (fun _ => true) text

/-- The lengths the node takes. -/
def acceptable (payload : List UInt8) : Bool :=
  decide (1 ≤ payload.length ∧ payload.length ≤ maxLengthPayload)

/-- The messages the node takes: it closes the connection at the first one of another length. -/
def takenMessages (text : List UInt8) : List (List UInt8) :=
  (clientMessages text).takeWhile acceptable

theorem takenMessages_eq (text : List UInt8) :
    takenMessages text = frameCode.front acceptable text :=
  takeWhile_front acceptable text

/-! ### The thread with its history -/

/-- A connection as it went: the bytes the client put on it, those the thread read, the
messages enqueued from it. -/
structure Transcript where
  sent : List UInt8
  read : List UInt8
  pushed : List (List UInt8)
deriving DecidableEq, Repr

def Transcript.fresh : Transcript := ⟨[], [], []⟩

/-- A listener with the transcripts of the connections it has closed and of the one it
serves. No step reads them. -/
structure Live where
  listener : Listener
  past : List Transcript
  current : Transcript

/-- A step of the thread or of a client, or `m_stop` is stored. -/
inductive LiveAction where
  | worker (a : WorkerAction)
  | client (a : ClientAction)
  | stop

namespace Live

/-- A listener just set up and started. -/
def start (port : UInt16) : Live where
  listener :=
    { mRunning := false, mStop := false, joinable := true, port := port, socketSetUp := true
      bound := true, loc := .setRunning, backlog := [], client := none, queuePckRead := [] }
  past := []
  current := .fresh

/-- The transcript of the connection that is served, or of none. -/
def opened (l : Listener) : Transcript :=
  ⟨(l.client.map Connection.unread).getD [], [], []⟩

/-- Write down what a step of the thread did. -/
def observe (v : Live) (l' : Listener) : WorkerAction → Live
  | .accept => { v with listener := l', current := opened l' }
  | .read portion _ =>
      match v.listener.loc.request, v.listener.client with
      | some n, some c =>
          { v with
            listener := l'
            current := { v.current with read := v.current.read ++ c.taken n portion } }
      | _, _ => { v with listener := l' }
  | .next =>
      match v.listener.loc with
      | .pushing data =>
          { v with
            listener := l'
            current := { v.current with pushed := v.current.pushed ++ [data] } }
      | .closeClient => ⟨l', v.past ++ [v.current], .fresh⟩
      | _ => { v with listener := l' }
  | _ => { v with listener := l' }

/-- Write down what the client that is served sent; behind a closed end nothing arrives. -/
def receive (v : Live) (l' : Listener) : ClientAction → Live
  | .send none bs =>
      if v.listener.client.any fun c => !c.closed then
        { v with listener := l', current := { v.current with sent := v.current.sent ++ bs } }
      else { v with listener := l' }
  | _ => { v with listener := l' }

def step (v : Live) : LiveAction → Option Live
  | .worker a => (v.listener.step a).map fun l' => v.observe l' a
  | .client a => (v.listener.clientStep a).map fun l' => v.receive l' a
  | .stop => some { v with listener := { v.listener with mStop := true } }

theorem observe_listener (v : Live) (l' : Listener) (a : WorkerAction) :
    (v.observe l' a).listener = l' := by
  unfold Live.observe
  split
  · rfl
  · split <;> rfl
  · split <;> rfl
  · rfl

theorem receive_listener (v : Live) (l' : Listener) (a : ClientAction) :
    (v.receive l' a).listener = l' := by
  unfold Live.receive
  split
  · split <;> rfl
  · rfl

/-- The connections so far, in the order they were accepted. -/
def transcripts (v : Live) : List Transcript := v.past ++ [v.current]

end Live

/-! ### Where a frame may end -/

/-- The bytes `p` do not begin with a frame that the node takes. -/
def Unfinished (p : List UInt8) : Prop :=
  ∀ payload later, takeFrame p = some (payload, later) → acceptable payload = false

/-- No frame of an acceptable message follows the bytes `p`, whatever arrives yet. -/
def Ends (c : Connection) (p : List UInt8) : Prop :=
  ∀ more, (c.closed = true → more = []) → ∀ payload later,
    takeFrame (p ++ (c.unread ++ more)) = some (payload, later) → acceptable payload = false

section Ends

variable {c : Connection} {p bs : List UInt8}

theorem Ends.unfinished (ends : Ends c p) : Unfinished p := by
  intro payload later taken
  exact ends [] (fun _ => rfl) payload _ (frameCode.decode_append taken (c.unread ++ []))

theorem unfinished_of_short (short : p.length < 8) : Unfinished p := by
  intro payload later taken
  obtain ⟨rfl, -⟩ := frameCode.encode_of_decode _ _ _ taken
  have long : (frameCode.encode payload).length = 8 + payload.length := length_frame payload
  rw [List.length_append] at short
  omega

/-- The header of a message that is not empty, or of an empty one. -/
theorem unfinished_header {n : Nat} (small : n ≤ maxLengthPayload) :
    Unfinished (encode 4 magicTag ++ encode 4 n) := by
  intro payload later taken
  have size : decode (encode 4 n) = n :=
    LittleEndian.decode_encode (lt_of_le_of_lt small (by decide))
  have header := takeFrame_header (length_encode 4 n) []
  rw [List.append_nil, taken, size] at header
  split at header
  · obtain ⟨rfl, -⟩ := Prod.mk.inj (Option.some.inj header)
    simp [acceptable]
  · cases header

theorem Ends.arrive (ends : Ends c p) : Ends (c.arrive bs) p := by
  cases closed : c.closed with
  | true =>
      rw [Connection.arrive, if_pos closed]
      exact ends
  | false =>
      intro more _ payload later taken
      simp only [Connection.arrive, closed, Bool.false_eq_true, if_false,
        List.append_assoc] at taken
      exact ends (bs ++ more) (by simp [closed]) payload later taken

theorem Ends.hangUp (ends : Ends c p) : Ends c.hangUp p :=
  fun _ nothing => ends _ fun _ => nothing rfl

/-- Four bytes that are not the tag. -/
theorem ends_of_bad_tag (four : bs.length = 4) (bad : decode bs ≠ magicTag) : Ends c bs := by
  intro more _ payload later taken
  have front : (bs ++ (c.unread ++ more)).take 4 = bs := by
    rw [← four, List.take_left]
  rw [takeFrame, front] at taken
  split at taken
  · rename_i tag
    rw [tag, LittleEndian.decode_encode (by decide)] at bad
    exact absurd rfl bad
  · cases taken

/-- The tag and a length that is not acceptable. -/
theorem ends_of_bad_length (four : bs.length = 4)
    (bad : decode bs = 0 ∨ maxLengthPayload < decode bs) : Ends c (encode 4 magicTag ++ bs) := by
  intro more _ payload later taken
  rw [List.append_assoc, takeFrame_header four] at taken
  simp only [Option.ite_none_right_eq_some, Option.some.injEq, Prod.mk.injEq] at taken
  obtain ⟨inside, rfl, -⟩ := taken
  rw [acceptable, decide_eq_false_iff_not, List.length_take, min_eq_left inside]
  omega

/-- The end of the stream where a frame begins, or behind its tag, or behind its header. -/
theorem ends_of_closed (closed : c.closed = true) (nothing : c.unread = [])
    (cut : ∀ payload later, takeFrame p ≠ some (payload, later)) : Ends c p := by
  intro more none payload later taken
  rw [nothing, none closed, List.append_nil, List.append_nil] at taken
  exact absurd taken (cut payload later)

end Ends

/-! ### The invariant -/

/-- What was read of the frame that is being received, by the statement the thread is about
to execute. -/
def Pending (l : Listener) (c : Connection) (p : List UInt8) : Prop :=
  match l.loc with
  | .readLength => p = encode 4 magicTag
  | .readData n => p = encode 4 magicTag ++ encode 4 n ∧ n ≤ maxLengthPayload
  | .pushing data => p = frame data ∧ acceptable data = true
  | .closeClient => (l.mStop = true ∧ p = []) ∨ Ends c p
  | .fault => Unfinished p
  | _ => p = []

/-- A transcript agrees with what the bytes mean that were read; `complete` says that nothing
of what was sent was left out. -/
structure Transcript.Faithful (t : Transcript) (complete : Prop) : Prop where
  read : t.read <+: t.sent
  pushed : t.pushed = takenMessages t.read
  all : complete → t.pushed = takenMessages t.sent

/-- The connection `c` is served: its bytes are those read and those not yet read, and
those read are the frames of the messages enqueued and the beginning of one more. -/
structure Serving (v : Live) (c : Connection) : Prop where
  sent : v.current.sent = v.current.read ++ c.unread
  read : ∃ p, v.current.read = frames v.current.pushed ++ p ∧ Pending v.listener c p

/-- What every step with whole reads preserves. -/
structure Synced (v : Live) : Prop where
  wf : v.listener.WellFormed
  queue : v.listener.queuePckRead = v.transcripts.flatMap Transcript.pushed
  wanted : ∀ payload ∈ v.current.pushed, acceptable payload = true
  past : ∀ t ∈ v.past, t.Faithful (v.listener.mStop = false)
  idle : v.listener.client = none → v.current = .fresh
  serving : ∀ c, v.listener.client = some c → Serving v c

/-- If the step is a `read`, it returns all it asks for, or nothing. -/
def LiveAction.whole (l : Listener) : LiveAction → Bool
  | .worker (.read portion _) =>
      match l.loc.request, l.client with
      | some n, some c => (c.taken n portion).length == n || (c.taken n portion).isEmpty
      | _, _ => true
  | _ => true

section Invariant

variable {v : Live} {l' : Listener} {port : UInt16}

theorem acceptable_iff {payload : List UInt8} :
    acceptable payload = true ↔ 1 ≤ payload.length ∧ payload.length ≤ maxLengthPayload :=
  decide_eq_true_iff

theorem valid_of_acceptable {payload : List UInt8} (h : acceptable payload = true) :
    payload.length < 2 ^ 32 :=
  lt_of_le_of_lt (acceptable_iff.mp h).2 (by decide)

theorem synced_start (port : UInt16) : Synced (Live.start port) where
  wf := ⟨rfl, nofun, nofun, rfl, nofun⟩
  queue := rfl
  wanted := by simp [Live.start, Transcript.fresh]
  past := by simp [Live.start]
  idle _ := rfl
  serving := nofun

theorem Synced.good (inv : Synced v) :
    ∀ payload ∈ v.current.pushed, frameCode.valid payload ∧ acceptable payload = true :=
  fun payload h => ⟨valid_of_acceptable (inv.wanted payload h), inv.wanted payload h⟩

/-- Behind the messages `pushed` comes the beginning `p` of a frame. -/
theorem takenMessages_frames {pushed : List (List UInt8)} {p : List UInt8}
    (good : ∀ payload ∈ pushed, frameCode.valid payload ∧ acceptable payload = true)
    (ends : Unfinished p) : takenMessages (frames pushed ++ p) = pushed := by
  rw [takenMessages_eq]
  exact front_eq good ends

/-- Unless a message was just read, what was read ends inside a frame. -/
theorem Pending.unfinished {l : Listener} {c : Connection} {p : List UInt8}
    (pending : Pending l c p) (unpushed : ∀ data, l.loc ≠ .pushing data) : Unfinished p := by
  have nothing : Unfinished [] := unfinished_of_short (by decide)
  unfold Pending at pending
  split at pending
  · exact pending ▸ unfinished_of_short (by simp)
  · obtain ⟨rfl, small⟩ := pending
    exact unfinished_header small
  · rename_i data loc
    exact absurd loc (unpushed data)
  · rcases pending with ⟨-, rfl⟩ | ends
    · exact nothing
    · exact ends.unfinished
  · exact pending
  · exact pending ▸ nothing

/-- At the end of a connection its transcript is faithful. -/
theorem Synced.faithful_past (inv : Synced v) {c : Connection} (serving : Serving v c)
    (closing : v.listener.loc = .closeClient) :
    v.current.Faithful (v.listener.mStop = false) := by
  obtain ⟨p, read, pending⟩ := serving.read
  refine ⟨⟨c.unread, serving.sent.symm⟩, ?_, fun running => ?_⟩
  · rw [read]
    exact (takenMessages_frames inv.good (pending.unfinished (by simp [closing]))).symm
  · rw [Pending, closing] at pending
    have ends : Ends c p := pending.resolve_left (by simp [running])
    rw [serving.sent, read, List.append_assoc]
    refine (takenMessages_frames inv.good fun payload later taken => ?_).symm
    apply ends [] (fun _ => rfl) payload later
    rw [List.append_nil]
    exact taken

/-- A step that moves the thread on, and leaves connection, queue and stop flag alone. -/
theorem Synced.moved (inv : Synced v) (wf : l'.WellFormed)
    (queue : l'.queuePckRead = v.listener.queuePckRead) (stop : l'.mStop = v.listener.mStop)
    (client : l'.client = v.listener.client)
    (pending : ∀ c p, v.listener.client = some c → Pending v.listener c p → Pending l' c p) :
    Synced { v with listener := l' } := by
  refine ⟨wf, queue.trans inv.queue, inv.wanted, ?_, ?_, ?_⟩
  · intro t ht
    rw [show ({ v with listener := l' } : Live).listener.mStop = _ from stop]
    exact inv.past t ht
  · exact fun none => inv.idle (client.symm.trans none)
  · intro c served
    have served : v.listener.client = some c := client.symm.trans served
    obtain ⟨sent, p, read, now⟩ := inv.serving c served
    exact ⟨sent, p, read, pending c p served now⟩

/-- A step outside `HandleTCPclient`. -/
theorem Synced.away (inv : Synced v) (away : v.listener.loc.serving = false)
    (wf : l'.WellFormed) (queue : l'.queuePckRead = v.listener.queuePckRead)
    (stop : l'.mStop = v.listener.mStop) (client : l'.client = v.listener.client) :
    Synced { v with listener := l' } :=
  inv.moved wf queue stop client fun c p served => by
    rw [inv.wf.unserved away] at served
    cases served

/-- The message of a frame that was read whole is enqueued. -/
theorem Synced.push (inv : Synced v) {data : List UInt8} (loc : v.listener.loc = .pushing data)
    (wf : l'.WellFormed) (eq : l' = { v.listener with
      queuePckRead := v.listener.queuePckRead ++ [data], loc := .clientHead }) :
    Synced { v with
      listener := l'
      current := { v.current with pushed := v.current.pushed ++ [data] } } := by
  subst eq
  have serving : v.listener.loc.serving = true := by rw [loc]; rfl
  obtain ⟨c, client⟩ := Option.isSome_iff_exists.mp (inv.wf.served.symm.trans serving)
  obtain ⟨sent, p, read, pending⟩ := inv.serving c client
  rw [Pending, loc] at pending
  obtain ⟨rfl, fits⟩ := pending
  refine ⟨wf, ?_, ?_, inv.past, ?_, ?_⟩
  · have queue := inv.queue
    simp only [Live.transcripts, List.flatMap_append, List.flatMap_singleton] at queue ⊢
    rw [queue, List.append_assoc]
  · simpa [or_imp, forall_and, fits] using inv.wanted
  · exact fun idle => absurd (client.symm.trans idle) nofun
  · intro d served
    have same : c = d := Option.some.inj (client.symm.trans served)
    subst same
    refine ⟨sent, [], ?_, rfl⟩
    rw [List.append_nil]
    exact read.trans (frames_concat _ _).symm

/-- The connection is closed, and its transcript put to the others. -/
theorem Synced.close (inv : Synced v) (loc : v.listener.loc = .closeClient)
    (wf : l'.WellFormed) (eq : l' = { v.listener with client := none, loc := .runHead }) :
    Synced ⟨l', v.past ++ [v.current], .fresh⟩ := by
  subst eq
  have serving : v.listener.loc.serving = true := by rw [loc]; rfl
  obtain ⟨c, client⟩ := Option.isSome_iff_exists.mp (inv.wf.served.symm.trans serving)
  refine ⟨wf, ?_, by simp [Transcript.fresh], ?_, fun _ => rfl, nofun⟩
  · have queue := inv.queue
    simp only [Live.transcripts, List.flatMap_append, List.flatMap_singleton] at queue ⊢
    rw [queue]
    simp [Transcript.fresh]
  · rw [List.forall_mem_append, List.forall_mem_singleton]
    exact ⟨inv.past, inv.faithful_past (inv.serving c client) loc⟩

/-- A statement that does not block. -/
theorem Synced.next (inv : Synced v) (h : v.listener.next = some l') :
    Synced (v.observe l' .next) := by
  have wf := inv.wf.next h
  cases loc : v.listener.loc <;>
    simp only [Listener.next, loc, Option.some.injEq, reduceCtorEq] at h
  case pushing data =>
    simp only [Live.observe, loc]
    exact inv.push loc wf h.symm
  case closeClient =>
    simp only [Live.observe, loc]
    exact inv.close loc wf h.symm
  case clientHead =>
    simp only [Live.observe, loc]
    subst h
    refine inv.moved wf rfl rfl rfl fun c p _ pending => ?_
    rw [Pending, loc] at pending
    cases stop : v.listener.mStop with
    | true => simpa [Pending, stop] using .inl pending
    | false => simpa [Pending, stop] using pending
  all_goals
    simp only [Live.observe, loc]
    subst h
    exact inv.away (by rw [loc]; rfl) wf rfl rfl rfl

/-- A `read` that returns nothing comes at the end of the stream, or asks for an empty
message. -/
theorem closed_of_nothing {c : Connection} {n portion : Nat}
    (unblocked : n = 0 ∨ c.readable = true) (nothing : c.taken n portion = []) :
    n = 0 ∨ (c.unread = [] ∧ c.closed = true) := by
  rcases Nat.eq_zero_or_pos n with zero | pos
  · exact .inl zero
  · have empty : c.unread = [] := by
      rcases List.take_eq_nil_iff.mp nothing with none | empty
      · omega
      · exact empty
    rcases unblocked with zero | readable
    · exact .inl zero
    · exact .inr ⟨empty, by simpa [Connection.readable, empty] using readable⟩

/-- Such a `read` ends the connection where no acceptable message can follow. -/
theorem ends_of_nothing {l : Listener} {c : Connection} {n portion : Nat} {p : List UInt8}
    (request : l.loc.request = some n) (pending : Pending l c p)
    (unblocked : n = 0 ∨ c.readable = true) (nothing : c.taken n portion = []) :
    Ends (c.rest n portion) p := by
  have at_end : n ≠ 0 → (c.rest n portion).closed = true ∧ (c.rest n portion).unread = [] := by
    intro pos
    rcases closed_of_nothing unblocked nothing with zero | ⟨empty, closed⟩
    · exact absurd zero pos
    · exact ⟨closed, by simp [Connection.rest, empty]⟩
  unfold Pending at pending
  cases loc : l.loc <;> rw [loc] at pending request <;> cases request
  case readTag =>
    subst pending
    obtain ⟨closed, empty⟩ := at_end (by decide)
    apply ends_of_closed closed empty
    intro payload later
    rw [show takeFrame [] = none by decide]
    simp
  case readLength =>
    subst pending
    obtain ⟨closed, empty⟩ := at_end (by decide)
    apply ends_of_closed closed empty
    intro payload later
    rw [show takeFrame (encode 4 magicTag) = none by decide]
    simp
  case readData =>
    obtain ⟨rfl, fits⟩ := pending
    have value : decode (encode 4 n) = n :=
      LittleEndian.decode_encode (lt_of_le_of_lt fits (by decide))
    rcases Nat.eq_zero_or_pos n with zero | pos
    · exact ends_of_bad_length (length_encode ..) (.inl (value.trans zero))
    · obtain ⟨closed, empty⟩ := at_end pos.ne'
      apply ends_of_closed closed empty
      intro payload later
      have header := takeFrame_header (length_encode 4 n) []
      rw [List.append_nil, value, List.length_nil, if_neg (by omega)] at header
      rw [header]
      simp

/-- A `read` that returns all it asks for goes on with the frame, or finds it bad. -/
theorem pending_of_whole {l : Listener} {c : Connection} {n portion : Nat} {p : List UInt8}
    {stack : Buffer} (request : l.loc.request = some n) (pending : Pending l c p)
    (pos : n ≠ 0) (whole : (c.taken n portion).length = n) :
    Pending { l with
      client := some (c.rest n portion)
      loc := l.loc.afterRead stack (c.taken n portion) } (c.rest n portion)
      (p ++ c.taken n portion) := by
  generalize c.taken n portion = bs at whole
  generalize c.rest n portion = c'
  have some_bytes : bs.length ≠ 0 := whole ▸ pos
  unfold Pending at pending
  cases loc : l.loc <;> rw [loc] at pending request <;> cases request
  case readTag =>
    subst pending
    rw [List.nil_append]
    by_cases tag : decode bs = magicTag
    · have after : Loc.readTag.afterRead stack bs = .readLength := by
        simp [Loc.afterRead, some_bytes, word_store whole, tag]
      have same := encode_decode bs
      rw [whole, tag] at same
      simp only [Pending, after, same]
    · have after : Loc.readTag.afterRead stack bs = .closeClient := by
        simp [Loc.afterRead, some_bytes, word_store whole, tag]
      simp only [Pending, after]
      exact .inr (ends_of_bad_tag whole tag)
  case readLength =>
    subst pending
    by_cases long : maxLengthPayload < decode bs
    · have after : Loc.readLength.afterRead stack bs = .closeClient := by
        simp [Loc.afterRead, some_bytes, word_store whole, long]
      simp only [Pending, after]
      exact .inr (ends_of_bad_length whole (.inr long))
    · have after : Loc.readLength.afterRead stack bs = .readData (decode bs) := by
        simp [Loc.afterRead, some_bytes, word_store whole, long]
      have same := encode_decode bs
      rw [whole] at same
      simp only [Pending, after, same, true_and]
      exact not_lt.mp long
  case readData =>
    obtain ⟨rfl, fits⟩ := pending
    have after : (Loc.readData n).afterRead stack bs = .pushing bs := by
      simp [Loc.afterRead, some_bytes]
    simp only [Pending, after]
    refine ⟨?_, acceptable_iff.mpr ⟨by omega, by omega⟩⟩
    rw [frame, whole, List.append_assoc]

/-- A `read` with all it asks for, or nothing. -/
theorem Synced.read (inv : Synced v) {n : Nat} {c : Connection} {portion : Nat}
    {stack : Buffer} (request : v.listener.loc.request = some n)
    (client : v.listener.client = some c) (unblocked : n = 0 ∨ c.readable = true)
    (whole : (c.taken n portion).length = n ∨ c.taken n portion = [])
    (h : v.listener.step (.read portion stack) = some l')
    (eq : l' = { v.listener with
      client := some (c.rest n portion)
      loc := v.listener.loc.afterRead stack (c.taken n portion) }) :
    Synced { v with
      listener := l'
      current := { v.current with read := v.current.read ++ c.taken n portion } } := by
  have wf := inv.wf.step h
  subst eq
  obtain ⟨sent, p, read, pending⟩ := inv.serving c client
  refine ⟨wf, ?_, inv.wanted, inv.past, nofun, ?_⟩
  · have queue := inv.queue
    simp only [Live.transcripts, List.flatMap_append, List.flatMap_singleton] at queue ⊢
    exact queue
  · intro d served
    obtain rfl : c.rest n portion = d := Option.some.inj served
    refine ⟨?_, p ++ c.taken n portion, ?_, ?_⟩
    · have split : c.taken n portion ++ (c.rest n portion).unread = c.unread :=
        List.take_append_drop ..
      rw [List.append_assoc, split]
      exact sent
    · rw [← List.append_assoc, read]
    · by_cases nothing : c.taken n portion = []
      · have after : v.listener.loc.afterRead stack (c.taken n portion) = .closeClient :=
          if_pos (by rw [nothing]; rfl)
        simp only [Pending, after]
        rw [nothing, List.append_nil]
        exact .inr (ends_of_nothing request pending unblocked nothing)
      · have long := whole.resolve_right nothing
        refine pending_of_whole request pending ?_ long
        rintro rfl
        exact nothing (List.length_eq_zero_iff.mp long)

/-- A connection is accepted. -/
theorem Synced.accept (inv : Synced v) {c : Connection} {backlog : List Connection}
    (loc : v.listener.loc = .accepting) (wf : l'.WellFormed)
    (eq : l' = { v.listener with client := some c, backlog := backlog, loc := .clientHead }) :
    Synced { v with listener := l', current := Live.opened l' } := by
  subst eq
  have fresh := inv.idle (inv.wf.unserved (by rw [loc]; rfl))
  refine ⟨wf, ?_, by simp [Live.opened], inv.past, nofun, ?_⟩
  · have queue := inv.queue
    simp only [Live.transcripts, List.flatMap_append, List.flatMap_singleton, fresh] at queue ⊢
    exact queue
  · intro d served
    obtain rfl : c = d := Option.some.inj served
    exact ⟨rfl, [], rfl, rfl⟩

/-- Every step of the thread with whole reads keeps the invariant. -/
theorem Synced.worker (inv : Synced v) {a : WorkerAction} (h : v.listener.step a = some l')
    (whole : (LiveAction.worker a).whole v.listener = true) : Synced (v.observe l' a) := by
  have wf := inv.wf.step h
  cases Listener.step_effect h with
  | next stepped => exact inv.next stepped
  | accept loc backlog => exact inv.accept loc wf rfl
  | acceptFails loc => exact inv.away (by rw [loc]; rfl) wf rfl rfl rfl
  | timeout loc client =>
      refine inv.moved wf rfl rfl rfl fun c p _ pending => ?_
      simpa [Pending, loc] using pending
  | ready loc client readable =>
      refine inv.moved wf rfl rfl rfl fun c p _ pending => ?_
      simpa [Pending, loc] using pending
  | read portion stack request client unblocked =>
      simp only [LiveAction.whole, request, client, Bool.or_eq_true, beq_iff_eq,
        List.isEmpty_iff] at whole
      simp only [Live.observe, request, client]
      exact inv.read request client unblocked whole h rfl
  | readFails request client =>
      refine inv.moved wf rfl rfl rfl fun c p _ pending => pending.unfinished ?_
      intro data loc
      rw [loc] at request
      cases request

/-- A client does something to its connection while it is served: what it puts there comes
behind what was read. -/
theorem Synced.onClient (inv : Synced v) (f : Connection → Connection) (more : List UInt8)
    (wf : Listener.WellFormed { v.listener with client := v.listener.client.map f })
    (unread : ∀ c, v.listener.client = some c → (f c).unread = c.unread ++ more)
    (ends : ∀ c p, v.listener.client = some c → Ends c p → Ends (f c) p)
    (nobody : v.listener.client = none → more = []) :
    Synced { v with
      listener := { v.listener with client := v.listener.client.map f }
      current := { v.current with sent := v.current.sent ++ more } } := by
  refine ⟨wf, ?_, inv.wanted, inv.past, ?_, ?_⟩
  · have queue := inv.queue
    simp only [Live.transcripts, List.flatMap_append, List.flatMap_singleton] at queue ⊢
    exact queue
  · intro idle
    have idle := Option.map_eq_none_iff.mp idle
    rw [nobody idle, List.append_nil]
    exact inv.idle idle
  · intro d served
    obtain ⟨c, client, rfl⟩ := Option.map_eq_some_iff.mp served
    obtain ⟨sent, p, read, pending⟩ := inv.serving c client
    refine ⟨?_, p, read, ?_⟩
    · rw [unread c client, ← List.append_assoc, ← sent]
    · unfold Pending at pending ⊢
      cases loc : v.listener.loc <;> simp only [loc] at pending ⊢ <;> try exact pending
      exact pending.imp_right (ends c p client)

/-- Every step of a client keeps the invariant. -/
theorem Synced.client (inv : Synced v) {a : ClientAction}
    (h : v.listener.clientStep a = some l') : Synced (v.receive l' a) := by
  have wf := (inv.wf.clientStep h).1
  cases a with
  | connect =>
      simp only [Listener.clientStep, Option.ite_none_right_eq_some, Option.some.injEq] at h
      obtain ⟨-, rfl⟩ := h
      exact inv.moved wf rfl rfl rfl fun _ _ _ pending => pending
  | send target bs =>
      cases h
      cases target with
      | some j => exact inv.moved wf rfl rfl rfl fun _ _ _ pending => pending
      | none =>
          by_cases opened : (v.listener.client.any fun c => !c.closed) = true
          · have arrives : ∀ c, v.listener.client = some c →
                (c.arrive bs).unread = c.unread ++ bs := by
              intro c client
              rw [client] at opened
              simp_all [Connection.arrive]
            simp only [Live.receive, if_pos opened]
            refine inv.onClient _ bs wf arrives (fun c p _ ends => ends.arrive) fun nobody => ?_
            rw [nobody] at opened
            cases opened
          · have stays : ∀ c, v.listener.client = some c →
                (c.arrive bs).unread = c.unread ++ [] := by
              intro c client
              rw [client] at opened
              simp_all [Connection.arrive]
            have same := inv.onClient _ [] wf stays (fun c p _ ends => ends.arrive) fun _ => rfl
            rw [List.append_nil] at same
            simp only [Live.receive, if_neg opened]
            exact same
  | hangUp target =>
      cases h
      cases target with
      | some j => exact inv.moved wf rfl rfl rfl fun _ _ _ pending => pending
      | none =>
          have same := inv.onClient Connection.hangUp [] wf
            (fun c _ => (List.append_nil _).symm) (fun c p _ ends => ends.hangUp) (fun _ => rfl)
          rw [List.append_nil] at same
          exact same

/-- `m_stop` is stored: from then on a connection may be closed before its end. -/
theorem Synced.stop (inv : Synced v) :
    Synced { v with listener := { v.listener with mStop := true } } := by
  have wf := inv.wf
  refine ⟨⟨wf.running, wf.joinable, wf.detached, wf.served, wf.readable⟩, inv.queue, inv.wanted,
    ?_, inv.idle, ?_⟩
  · exact fun t ht => ⟨(inv.past t ht).read, (inv.past t ht).pushed, nofun⟩
  · intro c client
    obtain ⟨sent, p, read, pending⟩ := inv.serving c client
    refine ⟨sent, p, read, ?_⟩
    unfold Pending at pending ⊢
    cases loc : v.listener.loc <;> simp only [loc] at pending ⊢ <;> try exact pending
    exact pending.imp_left fun early => ⟨trivial, early.2⟩

theorem Synced.step (inv : Synced v) {v' : Live} {a : LiveAction}
    (whole : a.whole v.listener = true) (h : v.step a = some v') : Synced v' := by
  cases a with
  | worker a =>
      obtain ⟨l', stepped, rfl⟩ := Option.map_eq_some_iff.mp h
      exact inv.worker stepped whole
  | client a =>
      obtain ⟨l', stepped, rfl⟩ := Option.map_eq_some_iff.mp h
      exact inv.client stepped
  | stop =>
      cases h
      exact inv.stop

/-! ### What is enqueued -/

/-- The message that was read and is about to be pushed. -/
def Listener.inHand (l : Listener) : List (List UInt8) :=
  match l.loc with
  | .pushing data => [data]
  | _ => []

theorem Listener.inHand_eq_nil {l : Listener} (unpushed : ∀ data, l.loc ≠ .pushing data) :
    l.inHand = [] := by
  unfold inHand
  split
  · rename_i data loc
    exact absurd loc (unpushed data)
  · rfl

/-- Nobody's message is in the thread's hand where nobody is served. -/
theorem Listener.WellFormed.inHand_eq_nil {l : Listener} (wf : l.WellFormed)
    (client : l.client = none) : l.inHand = [] := by
  apply Listener.inHand_eq_nil
  intro data loc
  have served := wf.served
  rw [loc, client] at served
  cases served

/-- The thread has read all that has come from the client it serves, if any, and has pushed
the message it read last. -/
def Listener.caughtUp (l : Listener) : Bool :=
  l.client.all (fun c => c.unread.isEmpty) && l.inHand.isEmpty

/-- The queue holds the messages of the connections, one connection after the other. What was
read of a connection is the beginning of what its client sent, and its messages are those the
bytes read mean, with the one in the thread's hand if the connection is being served. They are
all the client's messages once the connection was closed by a thread that was not told to
stop, and whenever the thread has caught up. -/
structure LiveFaithful (v : Live) : Prop where
  queue : v.listener.queuePckRead = v.transcripts.flatMap Transcript.pushed
  read : ∀ t ∈ v.transcripts, t.read <+: t.sent
  past : ∀ t ∈ v.past, t.pushed = takenMessages t.read
  current : v.current.pushed ++ v.listener.inHand = takenMessages v.current.read
  all : v.listener.mStop = false → ∀ t ∈ v.past, t.pushed = takenMessages t.sent
  caughtUp : v.listener.caughtUp = true → v.current.pushed = takenMessages v.current.sent

/-- What was read, with the message in the thread's hand. -/
theorem Synced.current (inv : Synced v) :
    v.current.pushed ++ v.listener.inHand = takenMessages v.current.read := by
  cases client : v.listener.client with
  | none =>
      rw [inv.wf.inHand_eq_nil client, inv.idle client]
      rfl
  | some c =>
      obtain ⟨-, p, read, pending⟩ := inv.serving c client
      by_cases pushing : ∃ data, v.listener.loc = .pushing data
      · obtain ⟨data, loc⟩ := pushing
        rw [Pending, loc] at pending
        obtain ⟨rfl, fits⟩ := pending
        have good : ∀ payload ∈ v.current.pushed ++ [data],
            frameCode.valid payload ∧ acceptable payload = true := by
          rw [List.forall_mem_append, List.forall_mem_singleton]
          exact ⟨inv.good, valid_of_acceptable fits, fits⟩
        have whole := takenMessages_frames good (unfinished_of_short (p := []) (by decide))
        rw [List.append_nil, frames_concat] at whole
        rw [read, whole, Listener.inHand, loc]
      · rw [not_exists] at pushing
        rw [Listener.inHand_eq_nil pushing, List.append_nil, read]
        exact (takenMessages_frames inv.good (pending.unfinished pushing)).symm

theorem Synced.read_prefix (inv : Synced v) : v.current.read <+: v.current.sent := by
  cases client : v.listener.client with
  | none =>
      rw [inv.idle client]
      exact List.nil_prefix
  | some c => exact ⟨c.unread, (inv.serving c client).sent.symm⟩

theorem Synced.faithful (inv : Synced v) : LiveFaithful v := by
  refine ⟨inv.queue, ?_, fun t ht => (inv.past t ht).pushed, inv.current,
    fun running t ht => (inv.past t ht).all running, fun caughtUp => ?_⟩
  · rw [Live.transcripts, List.forall_mem_append, List.forall_mem_singleton]
    exact ⟨fun t ht => (inv.past t ht).read, inv.read_prefix⟩
  · simp only [Listener.caughtUp, Bool.and_eq_true, List.isEmpty_iff] at caughtUp
    have current := inv.current
    rw [caughtUp.2, List.append_nil] at current
    cases client : v.listener.client with
    | none =>
        rw [inv.idle client]
        rfl
    | some c =>
        have nothing : c.unread = [] := by simpa [client] using caughtUp.1
        rw [current, (inv.serving c client).sent, nothing, List.append_nil]

end Invariant

/-- The messages enqueued of a connection are the first that the bytes sent mean. -/
theorem LiveFaithful.pushed {v : Live} (intake : LiveFaithful v) {t : Transcript}
    (ht : t ∈ v.transcripts) : t.pushed <+: takenMessages t.sent := by
  have some_read : t.pushed <+: takenMessages t.read := by
    rcases List.mem_append.mp ht with old | new
    · exact (intake.past t old) ▸ List.prefix_rfl
    · rw [List.mem_singleton.mp new, ← intake.current]
      exact List.prefix_append ..
  refine some_read.trans ?_
  rw [takenMessages_eq, takenMessages_eq]
  exact front_mono (intake.read t ht)

/-- A thread that was not told to stop and has caught up has enqueued all that the clients it
accepted sent. -/
theorem LiveFaithful.taken {v : Live} (intake : LiveFaithful v)
    (running : v.listener.mStop = false) (caughtUp : v.listener.caughtUp = true) :
    v.listener.queuePckRead = v.transcripts.flatMap fun t => takenMessages t.sent := by
  have framed : ∀ t ∈ v.transcripts, t.pushed = takenMessages t.sent := by
    rw [Live.transcripts, List.forall_mem_append, List.forall_mem_singleton]
    exact ⟨intake.all running, intake.caughtUp caughtUp⟩
  rw [intake.queue, List.flatMap_def, List.flatMap_def, List.map_congr_left framed]

theorem synced_run {port : UInt16} {moves : List (Move Live LiveAction)} {v : Live}
    (run : Run Live.step (Live.start port) moves v)
    (whole : ∀ m ∈ moves, m.action.whole m.before.listener = true) : Synced v :=
  run.invariant_of (synced_start port) whole fun _ _ _ inv read h => inv.step read h

/-- However the thread and any number of clients take turns, and whatever the clients send:
if every read returns all it asks for or nothing, the queue holds what the clients' bytes
mean. -/
theorem live_intake {port : UInt16} {moves : List (Move Live LiveAction)} {v : Live}
    (run : Run Live.step (Live.start port) moves v)
    (whole : ∀ m ∈ moves, m.action.whole m.before.listener = true) : LiveFaithful v :=
  (synced_run run whole).faithful

/-- A client whose message arrives in two parts and who then sends four bytes that are not the
tag, and another who comes after it. -/
theorem two_clients_understood :
    ∃ moves v, Run Live.step (Live.start 4000) moves v ∧
      v.listener.queuePckRead = [[7, 8]] ∧
      v.past = [⟨frame [7, 8] ++ [1, 2, 3, 4, 5], frame [7, 8] ++ [1, 2, 3, 4], [[7, 8]]⟩] ∧
      LiveFaithful v := by
  have ran : (exec (guarded (fun v a => LiveAction.whole v.listener a) Live.step)
      (Live.start 4000)
      [.worker .next, .worker .next, .worker .next, .client .connect, .client .connect,
        .client (.send (some 0) ((frame [7, 8]).take 6)), .worker .accept, .worker .next,
        .worker (.select true), .worker (.read 4 staleStack),
        .client (.send none ((frame [7, 8]).drop 6 ++ [1, 2, 3, 4, 5])),
        .worker (.read 4 staleStack), .worker (.read 2 staleStack), .worker .next, .worker .next,
        .worker (.select true), .worker (.read 4 staleStack), .worker .next, .worker .next,
        .worker .accept]).map (fun v => (v.listener.queuePckRead, v.past)) =
      some ([[7, 8]],
        [⟨frame [7, 8] ++ [1, 2, 3, 4, 5], frame [7, 8] ++ [1, 2, 3, 4], [[7, 8]]⟩]) := by
    decide +kernel
  obtain ⟨v, executed, same⟩ := Option.map_eq_some_iff.mp ran
  obtain ⟨moves, run, -⟩ := run_of_exec executed
  obtain ⟨queue, past⟩ := Prod.mk.inj same
  obtain ⟨run, whole⟩ := run.of_guarded
  exact ⟨moves, v, run, queue, past, live_intake run whole⟩

end UwAppNet
