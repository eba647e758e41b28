import UwAppNet.SampleSend

/-!
The sample client's way back: `_recv_wait`, `_recv_data` and the loop of `run` of
`sample/test_sockets_TCP.py`.

The client asks once for each of the two header words and goes on asking for the bytes of
the message. What its calls of `recv` do is a script; where it ends the client waits. The
other side has closed its end behind the bytes on the way.
-/

namespace UwAppNet

open LittleEndian

/-! ### Reading from the socket -/

/-- What one `s.recv` does: it hands over at most so many bytes, and at least one while
there are any, or raises `socket.error`, with `EAGAIN` or another number. -/
inductive RecvResult where
  | portion (n : Nat)
  | again
  | raised
deriving DecidableEq, Repr

/-- The bytes on the way to the client, and what its calls of `recv` do. -/
structure Inbox where
  unread : List UInt8
  script : List RecvResult
deriving DecidableEq, Repr

/-- What a call comes to: a value, an exception, or waiting for more. -/
inductive Outcome (α : Type) where
  | value (a : α) (rest : Inbox)
  | raised
  | waiting
deriving DecidableEq, Repr

def Outcome.andThen {α β : Type} (o : Outcome α) (f : α → Inbox → Outcome β) : Outcome β :=
  match o with
  | .value a rest => f a rest
  | .raised => .raised
  | .waiting => .waiting

/-- `s.recv(n)`, of which no exception is caught. -/
def Inbox.recv (s : Inbox) (n : Nat) : Outcome (List UInt8) :=
  match s.script with
  | [] => .waiting
  | .portion k :: script =>
      .value (s.unread.take (min (max 1 k) n)) ⟨s.unread.drop (min (max 1 k) n), script⟩
  | .again :: _ => .raised
  | .raised :: _ => .raised

/-- `_recv_wait`, with the bytes `d` it has so far; it catches `EAGAIN`. -/
def recvWait (siz : Nat) (d unread : List UInt8) : List RecvResult → Outcome (List UInt8)
  | [] => if siz ≤ d.length then .value d ⟨unread, []⟩ else .waiting
  | r :: script =>
      if siz ≤ d.length then .value d ⟨unread, r :: script⟩
      else
        match r with
        | .portion k =>
            let n := min (max 1 k) (siz - d.length)
            recvWait siz (d ++ unread.take n) (unread.drop n) script
        | .again => recvWait siz d unread script
        | .raised => .raised

/-- `_recv_data([s])`. `struct.unpack` raises for a word that is not of four bytes; no bytes
at all mean a closed connection, but after the first word only those of the second
count. -/
def recvData (s : Inbox) : Outcome (Bool × List UInt8) :=
  (s.recv 4).andThen fun magic s =>
    if magic ≠ [] ∧ magic.length ≠ 4 then .raised
    else if magic ≠ [] ∧ decode magic ≠ magicTag then .value (true, []) s
    else
      (s.recv 4).andThen fun size s =>
        if size = [] then .value (false, []) s
        else if size.length ≠ 4 then .raised
        else if 0 < decode size then
          (recvWait (decode size) [] s.unread s.script).andThen fun data s =>
            if data = [] then .value (false, []) s else .value (true, data) s
        else .value (true, []) s

/-! ### The loop -/

/-- How the loop of `run` ends. -/
inductive LoopEnd where
  | disconnected
  | raised
  | running
deriving DecidableEq, Repr

/-- The loop of `run`, once for each answer of `select`: the messages logged, and how it
ends. -/
def receiveLoop : List Bool → Inbox → List (List UInt8) × LoopEnd
  | [], _ => ([], .running)
  | false :: polls, s => receiveLoop polls s
  | true :: polls, s =>
      match recvData s with
      | .value (true, data) rest =>
          if data = [] then receiveLoop polls rest
          else if decodable data then
            (data :: (receiveLoop polls rest).1, (receiveLoop polls rest).2)
          else ([], .raised)
      | .value (false, _) _ => ([], .disconnected)
      | .raised => ([], .raised)
      | .waiting => ([], .running)

/-! ### Waiting for a message -/

/-- The script behind the calls that hand over `siz` bytes, however many there are at a
time; `EAGAIN` is passed over. -/
def afterBytes : Nat → List RecvResult → Option (List RecvResult)
  | 0, script => some script
  | _ + 1, [] => none
  | siz + 1, .portion k :: script => afterBytes (siz + 1 - max 1 k) script
  | siz + 1, .again :: script => afterBytes (siz + 1) script
  | _ + 1, .raised :: _ => none

@[simp] theorem afterBytes_zero (script : List RecvResult) :
    afterBytes 0 script = some script := by
  cases script <;> rfl

/-- The call raises or waits. -/
def Outcome.Fails {α : Type} (o : Outcome α) : Prop := o = .raised ∨ o = .waiting

theorem Outcome.Fails.ne {α : Type} {o : Outcome α} (fails : o.Fails) (a : α) (rest : Inbox) :
    o ≠ .value a rest := by
  rcases fails with rfl | rfl <;> nofun

section Wait

variable {siz : Nat} {d unread : List UInt8} {script rest : List RecvResult}

/-- One call of `recv` while bytes are missing. -/
theorem recvWait_portion (missing : d.length < siz) (k : Nat) :
    recvWait siz d unread (.portion k :: script) =
      recvWait siz (d ++ unread.take (min (max 1 k) (siz - d.length)))
        (unread.drop (min (max 1 k) (siz - d.length))) script := by
  rw [recvWait, if_neg (not_le.mpr missing)]

theorem recvWait_complete (complete : siz ≤ d.length) :
    recvWait siz d unread script = .value d ⟨unread, script⟩ := by
  cases script <;> exact if_pos complete

/-- With enough bytes on the way the script alone decides whether the call returns. -/
theorem recvWait_spec (siz : Nat) (d unread : List UInt8) (script : List RecvResult)
    (enough : siz - d.length ≤ unread.length) :
    (∀ rest, afterBytes (siz - d.length) script = some rest →
      recvWait siz d unread script =
        .value (d ++ unread.take (siz - d.length)) ⟨unread.drop (siz - d.length), rest⟩) ∧
      (afterBytes (siz - d.length) script = none → (recvWait siz d unread script).Fails) := by
  induction script generalizing d unread with
  | nil =>
      cases missing : siz - d.length with
      | zero =>
          rw [recvWait_complete (Nat.sub_eq_zero_iff_le.mp missing)]
          simp [afterBytes]
      | succ n =>
          have waits : recvWait siz d unread [] = .waiting := if_neg (by omega)
          exact ⟨nofun, fun _ => .inr waits⟩
  | cons r script ih =>
      cases missing : siz - d.length with
      | zero =>
          rw [recvWait_complete (Nat.sub_eq_zero_iff_le.mp missing)]
          simp [afterBytes]
      | succ n =>
          have short : d.length < siz := by omega
          rw [missing] at enough
          cases r with
          | raised => exact ⟨nofun, fun _ => .inl (if_neg (not_le.mpr short))⟩
          | again =>
              rw [recvWait, if_neg (not_le.mpr short), ← missing]
              rw [← missing] at enough
              simpa only [missing, afterBytes] using ih d unread enough
          | portion k =>
              rw [recvWait_portion short]
              generalize taken : min (max 1 k) (siz - d.length) = n'
              have left : siz - (d ++ unread.take n').length = n + 1 - max 1 k := by
                rw [List.length_append, List.length_take]
                omega
              have split : n + 1 = n' + (n + 1 - max 1 k) := by omega
              have later := ih (d ++ unread.take n') (unread.drop n')
                (by rw [List.length_drop]; omega)
              rw [left, List.append_assoc, List.drop_drop, ← List.take_add, ← split] at later
              exact later

/-- Where the connection ends inside the message the call never returns, whatever its calls
of `recv` do: each of them hands over no bytes, and the loop goes on. -/
theorem recvWait_of_short (short : unread.length < siz - d.length) :
    (recvWait siz d unread script).Fails := by
  induction script generalizing d unread with
  | nil => exact .inr (if_neg (by omega))
  | cons r script ih =>
      have missing : d.length < siz := by omega
      cases r with
      | raised => exact .inl (if_neg (not_le.mpr missing))
      | again =>
          rw [recvWait, if_neg (not_le.mpr missing)]
          exact ih short
      | portion k =>
          rw [recvWait_portion missing]
          apply ih
          simp only [List.length_append, List.length_take, List.length_drop]
          omega

/-- `_recv_wait` returns exactly when the connection has that many bytes left and the calls
of `recv` hand them over; then it returns these bytes. -/
theorem recvWait_returns_iff {siz : Nat} {unread data : List UInt8} {script : List RecvResult}
    {s : Inbox} :
    recvWait siz [] unread script = .value data s ↔
      siz ≤ unread.length ∧ afterBytes siz script = some s.script ∧
        data = unread.take siz ∧ s.unread = unread.drop siz := by
  by_cases enough : siz ≤ unread.length
  · rw [and_iff_right enough]
    obtain ⟨served, unserved⟩ := recvWait_spec siz [] unread script enough
    cases after : afterBytes siz script with
    | none =>
        apply iff_of_false ((unserved after).ne data s)
        rintro ⟨⟨⟩, -⟩
    | some rest =>
        rw [served rest after]
        obtain ⟨left, behind⟩ := s
        simp [eq_comm, and_comm, and_assoc]
  · refine iff_of_false ((recvWait_of_short (d := []) (by simpa using enough)).ne data s) ?_
    exact fun returns => enough returns.1

end Wait

/-! ### One part of the stream -/

/-- What the stream to the client is made of: frames, and words that are not the tag. -/
inductive Segment where
  | message (payload : List UInt8)
  | foreign (word : List UInt8)
deriving DecidableEq, Repr

namespace Segment

def text : Segment → List UInt8
  | .message payload => frame payload
  | .foreign word => word

/-- What `_recv_data` returns for it: a foreign word is skipped. -/
def data : Segment → List UInt8
  | .message payload => payload
  | .foreign _ => []

/-- A message has a length of four bytes, a word is not taken for the tag. -/
def WellFormed : Segment → Prop
  | .message payload => payload.length < 2 ^ 32
  | .foreign word => word.length = 4 ∧ decode word ≠ magicTag

instance : (seg : Segment) → Decidable seg.WellFormed
  | .message payload => inferInstanceAs (Decidable (payload.length < 2 ^ 32))
  | .foreign word => inferInstanceAs (Decidable (word.length = 4 ∧ decode word ≠ magicTag))

end Segment

/-- The script behind a call that hands over a header word whole. -/
def afterWord : List RecvResult → Option (List RecvResult)
  | .portion k :: script => if 4 ≤ k then some script else none
  | _ => none

/-- The script behind the calls that hand over a part of the stream: each header word in
one call, the message in any number of them. -/
def Segment.after (seg : Segment) (script : List RecvResult) : Option (List RecvResult) :=
  match seg with
  | .message payload => ((afterWord script).bind afterWord).bind (afterBytes payload.length)
  | .foreign _ => afterWord script

section Segments

variable {word rest : List UInt8} {script script' : List RecvResult} {seg : Segment}

theorem recv_word (rest : List UInt8) (four : word.length = 4) (whole : afterWord script = some script') :
    Inbox.recv ⟨word ++ rest, script⟩ 4 = .value word ⟨rest, script'⟩ := by
  cases script with
  | nil => cases whole
  | cons r script =>
      cases r with
      | portion k =>
          simp only [afterWord, Option.ite_none_right_eq_some, Option.some.injEq] at whole
          obtain ⟨long, rfl⟩ := whole
          have all : min (max 1 k) 4 = word.length := by omega
          simp only [Inbox.recv, all, List.take_left, List.drop_left]
      | again => cases whole
      | raised => cases whole

/-- A word that is not handed over whole is an exception or a wait, or a wrong number of
bytes. -/
theorem recv_cut_word (rest : List UInt8) (four : word.length = 4) (cut : afterWord script = none) :
    (Inbox.recv ⟨word ++ rest, script⟩ 4).Fails ∨
      ∃ bs s, Inbox.recv ⟨word ++ rest, script⟩ 4 = .value bs s ∧ bs ≠ [] ∧ bs.length ≠ 4 := by
  cases script with
  | nil => exact .inl (.inr rfl)
  | cons r script =>
      cases r with
      | portion k =>
          have short : ¬ 4 ≤ k := by simpa [afterWord] using cut
          have length : ((word ++ rest).take (min (max 1 k) 4)).length = max 1 k := by
            rw [List.length_take, List.length_append]
            omega
          refine .inr ⟨_, _, rfl, ?_, ?_⟩
          · rw [← List.length_pos_iff_ne_nil, length]
            omega
          · rw [length]
            omega
      | again => exact .inl (.inl rfl)
      | raised => exact .inl (.inl rfl)

theorem Outcome.Fails.andThen {α β : Type} {o : Outcome α} (fails : o.Fails)
    (f : α → Inbox → Outcome β) : (o.andThen f).Fails := by
  rcases fails with rfl | rfl
  · exact .inl rfl
  · exact .inr rfl

/-- Behind the tag the size is read. -/
theorem recvData_tag {s s₁ : Inbox} (tag : s.recv 4 = .value (encode 4 magicTag) s₁) :
    recvData s = (s₁.recv 4).andThen fun size s =>
      if size = [] then .value (false, []) s
      else if size.length ≠ 4 then .raised
      else if 0 < decode size then
        (recvWait (decode size) [] s.unread s.script).andThen fun data s =>
          if data = [] then .value (false, []) s else .value (true, data) s
      else .value (true, []) s := by
  have tagged : decode (encode 4 magicTag) = magicTag := decode_encode (by decide)
  rw [recvData, tag]
  simp only [Outcome.andThen, length_encode, tagged, ne_eq, not_true, and_false, if_false]

/-- Behind a size the message is waited for. -/
theorem recvData_size {s s₁ s₂ : Inbox} {n : Nat} (fits : n < 2 ^ 32)
    (tag : s.recv 4 = .value (encode 4 magicTag) s₁)
    (size : s₁.recv 4 = .value (encode 4 n) s₂) :
    recvData s =
      if 0 < n then
        (recvWait n [] s₂.unread s₂.script).andThen fun data s =>
          if data = [] then .value (false, []) s else .value (true, data) s
      else .value (true, []) s₂ := by
  have sized : decode (encode 4 n) = n := decode_encode fits
  have nonempty : encode 4 n ≠ [] := nofun
  rw [recvData_tag tag, size]
  simp only [Outcome.andThen, if_neg nonempty, length_encode, sized, ne_eq, not_true, if_false]

theorem frame_append (payload rest : List UInt8) :
    frame payload ++ rest =
      encode 4 magicTag ++ (encode 4 payload.length ++ (payload ++ rest)) := by
  simp [frame]

/-- A part of the stream that is handed over is returned, and the rest is left. -/
theorem recvData_served (rest : List UInt8) (wf : seg.WellFormed) (handed : seg.after script = some script') :
    recvData ⟨seg.text ++ rest, script⟩ = .value (true, seg.data) ⟨rest, script'⟩ := by
  cases seg with
  | foreign word =>
      obtain ⟨four, other⟩ := wf
      have nonempty : word ≠ [] := by
        rintro rfl
        cases four
      have read := recv_word rest four handed
      simp [recvData, Segment.text, Segment.data, read, Outcome.andThen, nonempty, four, other]
  | message payload =>
      obtain ⟨script₂, words, bytes⟩ := Option.bind_eq_some_iff.mp handed
      obtain ⟨script₁, tag, size⟩ := Option.bind_eq_some_iff.mp words
      rw [Segment.text, frame_append, recvData_size wf (recv_word _ (length_encode ..) tag)
        (recv_word _ (length_encode ..) size)]
      by_cases empty : payload = []
      · subst empty
        rw [List.length_nil, afterBytes_zero, Option.some.injEq] at bytes
        rw [bytes]
        rfl
      · have pos : 0 < payload.length := List.length_pos_iff_ne_nil.mpr empty
        have message : recvWait payload.length [] (payload ++ rest) script₂ =
            .value payload ⟨rest, script'⟩ := by
          have served := (recvWait_spec payload.length [] (payload ++ rest) script₂ (by simp)).1
          simpa using served script' bytes
        simp only [if_pos pos, message, Outcome.andThen, if_neg empty, Segment.data]

/-- A tag that is not handed over whole ends the call without a result. -/
theorem recvData_cut_tag (rest : List UInt8) (cut : afterWord script = none) :
    (recvData ⟨encode 4 magicTag ++ rest, script⟩).Fails := by
  rcases recv_cut_word rest (length_encode 4 magicTag) cut with
    fails | ⟨bs, s, read, some_bytes, short⟩
  · exact fails.andThen _
  · left
    simp [recvData, read, Outcome.andThen, some_bytes, short]

/-- So does a size. -/
theorem recvData_cut_size (n : Nat) (rest : List UInt8) (tag : afterWord script = some script')
    (cut : afterWord script' = none) :
    (recvData ⟨encode 4 magicTag ++ (encode 4 n ++ rest), script⟩).Fails := by
  rw [recvData_tag (recv_word _ (length_encode 4 magicTag) tag)]
  rcases recv_cut_word rest (length_encode 4 n) cut with fails | ⟨bs, s, read, some_bytes, short⟩
  · exact fails.andThen _
  · left
    simp [read, Outcome.andThen, some_bytes, short]

/-- One that is not ends the call without a result. -/
theorem recvData_unserved (rest : List UInt8) (wf : seg.WellFormed) (cut : seg.after script = none) :
    (recvData ⟨seg.text ++ rest, script⟩).Fails := by
  cases seg with
  | foreign word =>
      rcases recv_cut_word rest wf.1 cut with fails | ⟨bs, s, read, some_bytes, short⟩
      · exact fails.andThen _
      · left
        simp [recvData, Segment.text, read, Outcome.andThen, some_bytes, short]
  | message payload =>
      rw [Segment.text, frame_append]
      cases tag : afterWord script with
      | none => exact recvData_cut_tag _ tag
      | some script₁ =>
          cases size : afterWord script₁ with
          | none => exact recvData_cut_size _ _ tag size
          | some script₂ =>
              have unserved : afterBytes payload.length script₂ = none := by
                simpa [Segment.after, tag, size] using cut
              have pos : 0 < payload.length := by
                by_contra none
                rw [Nat.eq_zero_of_not_pos none, afterBytes_zero] at unserved
                cases unserved
              rw [recvData_size wf (recv_word _ (length_encode ..) tag)
                (recv_word _ (length_encode ..) size), if_pos pos]
              apply Outcome.Fails.andThen
              exact (recvWait_spec _ [] _ script₂ (by simp)).2 unserved

end Segments

/-! ### The whole stream -/

/-- The script hands over every part of the stream, and the end of it in two calls. -/
def handedOver : List Segment → List RecvResult → Bool
  | [], .portion _ :: .portion _ :: _ => true
  | [], _ => false
  | seg :: segs, script => (seg.after script).any (handedOver segs)

/-- The messages of a stream, less the empty ones. -/
def logged (segs : List Segment) : List (List UInt8) :=
  (segs.map Segment.data).filter fun data => !data.isEmpty

/-- At the end of the stream the client notices that the connection is closed. -/
theorem recvData_end (script : List RecvResult) :
    (handedOver [] script = true ∧
        ∃ rest, recvData ⟨[], script⟩ = .value (false, []) rest) ∨
      (handedOver [] script = false ∧ (recvData ⟨[], script⟩).Fails) := by
  rcases script with _ | ⟨_ | _ | _, _ | ⟨_ | _ | _, script⟩⟩ <;>
    simp [handedOver, recvData, Inbox.recv, Outcome.andThen, Outcome.Fails]

/-- A word that the connection does not hold whole is an exception or a wait, the end of the
connection, or a wrong number of bytes. -/
theorem recv_short {text : List UInt8} (short : text.length < 4) (script : List RecvResult) :
    (Inbox.recv ⟨text, script⟩ 4).Fails ∨
      (text = [] ∧ ∃ s, Inbox.recv ⟨text, script⟩ 4 = .value [] s) ∨
        ∃ bs s, Inbox.recv ⟨text, script⟩ 4 = .value bs s ∧ bs ≠ [] ∧ bs.length ≠ 4 := by
  rcases script with _ | ⟨_ | _ | _, script⟩
  · exact .inl (.inr rfl)
  · rename_i k
    have read : Inbox.recv ⟨text, .portion k :: script⟩ 4 =
        .value (text.take (min (max 1 k) 4)) ⟨text.drop (min (max 1 k) 4), script⟩ := rfl
    have length := List.length_take (l := text) (i := min (max 1 k) 4)
    by_cases empty : text = []
    · subst empty
      exact .inr (.inl ⟨rfl, ⟨[], script⟩, by simp [read]⟩)
    · have pos := List.length_pos_iff_ne_nil.mpr empty
      refine .inr (.inr ⟨_, _, read, ?_, by omega⟩)
      rw [← List.length_pos_iff_ne_nil]
      omega
  · exact .inl (.inl rfl)
  · exact .inl (.inl rfl)

/-- The beginning of a text that starts with a header word ends in it, or behind it. -/
theorem prefix_word {word tail more : List UInt8} (four : word.length = 4)
    (start : tail <+: word ++ more) :
    tail.length < 4 ∨ ∃ later, tail = word ++ later ∧ later <+: more := by
  by_cases short : tail.length < 4
  · exact .inl short
  · obtain ⟨later, rfl⟩ :=
      List.prefix_of_prefix_length_le (List.prefix_append word more) start (by omega)
    exact .inr ⟨later, rfl, (List.prefix_append_right_inj word).mp start⟩

/-- A connection that ends inside a message never gives one: the call fails, or the client
notices the end. -/
theorem recvData_torn {payload tail : List UInt8} (fits : payload.length < 2 ^ 32)
    (start : tail <+: frame payload) (torn : tail ≠ frame payload) (script : List RecvResult) :
    (recvData ⟨tail, script⟩).Fails ∨ ∃ rest, recvData ⟨tail, script⟩ = .value (false, []) rest := by
  rcases prefix_word (length_encode 4 magicTag) start with short | ⟨tail, rfl, behind⟩
  · rcases recv_short short script with fails | ⟨rfl, -⟩ | ⟨bs, s, read, some_bytes, cut⟩
    · exact .inl (fails.andThen _)
    · exact (recvData_end script).elim (fun ended => .inr ended.2) fun cut => .inl cut.2
    · refine .inl (.inl ?_)
      simp [recvData, read, Outcome.andThen, some_bytes, cut]
  cases tag : afterWord script with
  | none => exact .inl (recvData_cut_tag _ tag)
  | some script₁ =>
      rcases prefix_word (length_encode 4 payload.length) behind with short | ⟨tail, rfl, begun⟩
      · rw [recvData_tag (recv_word _ (length_encode ..) tag)]
        rcases recv_short short script₁ with fails | ⟨rfl, s, read⟩ | ⟨bs, s, read, some_bytes, cut⟩
        · exact .inl (fails.andThen _)
        · exact .inr ⟨s, by simp [read, Outcome.andThen]⟩
        · refine .inl (.inl ?_)
          simp [read, Outcome.andThen, some_bytes, cut]
      cases size : afterWord script₁ with
      | none => exact .inl (recvData_cut_size _ _ tag size)
      | some script₂ =>
          have missing : tail.length < payload.length := by
            refine lt_of_le_of_ne begun.length_le fun same => torn ?_
            rw [begun.eq_of_length same, frame]
          rw [recvData_size fits (recv_word _ (length_encode ..) tag)
            (recv_word _ (length_encode ..) size), if_pos (Nat.zero_lt_of_lt missing)]
          exact .inl ((recvWait_of_short (by simpa using missing)).andThen _)

theorem logged_cons (seg : Segment) (segs : List Segment) :
    logged (seg :: segs) = logged [seg] ++ logged segs := by
  rw [logged, logged, logged, ← List.filter_append, ← List.map_append]
  rfl

section Torn

variable {segs : List Segment} {payload tail : List UInt8}

/-- Where `select` reports data of a stream that may end inside a message: the loop ends with
an exception or a wait, or it notices the end of the connection, at the end of the stream, or
it logs what comes first and goes on with the rest. -/
theorem receiveLoop_ready (wf : ∀ seg ∈ segs, seg.WellFormed) (fits : payload.length < 2 ^ 32)
    (start : tail <+: frame payload) (torn : tail ≠ frame payload) (polls : List Bool)
    (script : List RecvResult) :
    (∃ ending, ending ≠ .disconnected ∧
        receiveLoop (true :: polls) ⟨segs.flatMap Segment.text ++ tail, script⟩ = ([], ending)) ∨
      (segs = [] ∧
        receiveLoop (true :: polls) ⟨segs.flatMap Segment.text ++ tail, script⟩ =
          ([], .disconnected)) ∨
      ∃ seg later rest, segs = seg :: later ∧
        receiveLoop (true :: polls) ⟨segs.flatMap Segment.text ++ tail, script⟩ =
          (logged [seg] ++ (receiveLoop polls ⟨later.flatMap Segment.text ++ tail, rest⟩).1,
            (receiveLoop polls ⟨later.flatMap Segment.text ++ tail, rest⟩).2) := by
  cases segs with
  | nil =>
      rcases recvData_torn fits start torn script with (fails | fails) | ⟨rest, ended⟩
      · exact .inl ⟨.raised, nofun, by simp [receiveLoop, fails]⟩
      · exact .inl ⟨.running, nofun, by simp [receiveLoop, fails]⟩
      · exact .inr (.inl ⟨rfl, by simp [receiveLoop, ended]⟩)
  | cons seg later =>
      have first := wf seg List.mem_cons_self
      rw [List.flatMap_cons, List.append_assoc]
      cases handed : seg.after script with
      | none =>
          rcases recvData_unserved (later.flatMap Segment.text ++ tail) first handed with
            fails | fails
          · exact .inl ⟨.raised, nofun, by simp [receiveLoop, fails]⟩
          · exact .inl ⟨.running, nofun, by simp [receiveLoop, fails]⟩
      | some rest =>
          have served := recvData_served (later.flatMap Segment.text ++ tail) first handed
          by_cases empty : seg.data = []
          · exact .inr (.inr ⟨seg, later, rest, rfl, by simp [receiveLoop, served, logged, empty]⟩)
          · cases text : decodable seg.data with
            | false => exact .inl ⟨.raised, nofun, by simp [receiveLoop, served, empty, text]⟩
            | true =>
                exact .inr (.inr ⟨seg, later, rest, rfl,
                  by simp [receiveLoop, served, logged, empty, text]⟩)

/-- What is logged are the first messages of the stream. -/
theorem receiveLoop_logged (wf : ∀ seg ∈ segs, seg.WellFormed) (fits : payload.length < 2 ^ 32)
    (start : tail <+: frame payload) (torn : tail ≠ frame payload) (polls : List Bool)
    (script : List RecvResult) :
    (receiveLoop polls ⟨segs.flatMap Segment.text ++ tail, script⟩).1 <+: logged segs := by
  induction polls generalizing segs script with
  | nil => exact List.nil_prefix
  | cons ready polls ih =>
      cases ready with
      | false => exact ih wf script
      | true =>
          rcases receiveLoop_ready wf fits start torn polls script with
            ⟨ending, -, out⟩ | ⟨rfl, out⟩ | ⟨seg, later, rest, rfl, out⟩
          · rw [out]
            exact List.nil_prefix
          · rw [out]
            exact List.nil_prefix
          · rw [out, logged_cons seg later]
            have behind := ih (List.forall_mem_cons.mp wf).2 rest
            exact (List.prefix_append_right_inj _).mpr behind

/-- Whatever calls of `recv` come to and however often the client looks: what it logs of a
stream that may end inside a message are the first messages of that stream, in order, and all
of them if it notices the end of the connection. -/
theorem logged_faithfully (wf : ∀ seg ∈ segs, seg.WellFormed) (fits : payload.length < 2 ^ 32)
    (start : tail <+: frame payload) (torn : tail ≠ frame payload) (polls : List Bool)
    (script : List RecvResult) :
    (receiveLoop polls ⟨segs.flatMap Segment.text ++ tail, script⟩).1 <+: logged segs ∧
      ((receiveLoop polls ⟨segs.flatMap Segment.text ++ tail, script⟩).2 = .disconnected →
        (receiveLoop polls ⟨segs.flatMap Segment.text ++ tail, script⟩).1 = logged segs) := by
  refine ⟨receiveLoop_logged wf fits start torn polls script, ?_⟩
  induction polls generalizing segs script with
  | nil => nofun
  | cons ready polls ih =>
      cases ready with
      | false => exact ih wf script
      | true =>
          rcases receiveLoop_ready wf fits start torn polls script with
            ⟨ending, other, out⟩ | ⟨rfl, out⟩ | ⟨seg, later, rest, rfl, out⟩
          · rw [out]
            exact fun ended => absurd ended other
          · rw [out]
            exact fun _ => rfl
          · rw [out, logged_cons seg later]
            intro ended
            exact congrArg _ (ih (List.forall_mem_cons.mp wf).2 rest ended)

end Torn

/-- In front of a message of five bytes that is cut off behind its tag: a foreign word, a
message and an empty one. -/
theorem torn_message_not_logged :
    let s : Inbox := ⟨[1, 2, 3, 4] ++
        (frame [72, 105] ++ (frame [] ++ (frame [1, 2, 3, 4, 5]).take 4)),
      [.portion 4, .portion 4, .portion 9, .portion 1, .again, .portion 1, .portion 4,
        .portion 4, .portion 4, .portion 9]⟩
    receiveLoop [true, false, true, true, true] s = ([[72, 105]], .disconnected) ∧
      (receiveLoop [true, false, true, true, true] s).1 <+: [[72, 105]] ∧
      ((receiveLoop [true, false, true, true, true] s).2 = .disconnected →
        (receiveLoop [true, false, true, true, true] s).1 = [[72, 105]]) := by
  intro s
  exact ⟨by decide +kernel,
    @logged_faithfully [.foreign [1, 2, 3, 4], .message [72, 105], .message []] _ _ (by decide)
      (by decide) (List.take_prefix _ _) (by decide) _ _⟩

/-- The client logs every message of a stream and then notices the end of the connection
exactly when each header word is handed over in one call, no call inside a message raises
anything but `EAGAIN`, and the messages are UTF-8. Foreign words and empty messages are
passed over. -/
theorem receiveLoop_all_iff {segs : List Segment} {script : List RecvResult} {polls : List Bool}
    (wf : ∀ seg ∈ segs, seg.WellFormed) (long : segs.length < polls.count true) :
    receiveLoop polls ⟨segs.flatMap Segment.text, script⟩ = (logged segs, .disconnected) ↔
      handedOver segs script = true ∧ ∀ data ∈ logged segs, decodable data = true := by
  induction polls generalizing segs script with
  | nil => simp at long
  | cons ready polls ih =>
      cases ready with
      | false => exact ih wf (by simpa using long)
      | true =>
          rw [List.count_cons_self] at long
          cases segs with
          | nil =>
              rcases recvData_end script with ⟨handed, rest, ended⟩ | ⟨cut, fails⟩
              · simp [receiveLoop, ended, handed, logged]
              · rcases fails with fails | fails <;> simp [receiveLoop, fails, cut]
          | cons seg segs =>
              obtain ⟨first, others⟩ := List.forall_mem_cons.mp wf
              rw [List.flatMap_cons]
              cases handed : seg.after script with
              | none =>
                  rcases recvData_unserved (segs.flatMap Segment.text) first handed with
                    fails | fails <;> simp [receiveLoop, fails, handedOver, handed]
              | some rest =>
                  have served := recvData_served (segs.flatMap Segment.text) first handed
                  have later := @ih segs rest others (Nat.lt_of_succ_lt_succ long)
                  have both : handedOver (seg :: segs) script = handedOver segs rest := by
                    rw [handedOver, handed, Option.any_some]
                  simp only [receiveLoop, served, both]
                  by_cases empty : seg.data = []
                  · have same : logged (seg :: segs) = logged segs := by simp [logged, empty]
                    rw [if_pos empty, same]
                    exact later
                  · have more : logged (seg :: segs) = seg.data :: logged segs := by
                      simp [logged, empty]
                    rw [if_neg empty, more, List.forall_mem_cons]
                    cases text : decodable seg.data with
                    | false => simp
                    | true => simpa [Prod.ext_iff] using later

/-! ### From the node to the client -/

/-- Where `send_data` wrote whole frames or nothing, the client logs the messages of the
calls that returned true, less the empty ones, exactly when their frames are handed over and
they are UTF-8. -/
theorem acknowledged_logged_iff {clnSockDescr : Nat} (connected : clnSockDescr ≠ 0)
    {calls : List SendCall} (good : ∀ call ∈ calls, call.AllOrNothing) {polls : List Bool}
    (long : (acknowledged clnSockDescr calls).length < polls.count true)
    (script : List RecvResult) :
    let segs := (acknowledged clnSockDescr calls).map Segment.message
    receiveLoop polls ⟨sentStream clnSockDescr calls, script⟩ = (logged segs, .disconnected) ↔
      handedOver segs script = true ∧ ∀ data ∈ logged segs, decodable data = true := by
  intro segs
  obtain ⟨stream, fits⟩ := sentStream_of_allOrNothing connected good
  have wf : ∀ seg ∈ segs, seg.WellFormed := List.forall_mem_map.mpr fits
  have same : frames (acknowledged clnSockDescr calls) = segs.flatMap Segment.text := by
    rw [List.flatMap_map]
    rfl
  rw [stream, same]
  exact receiveLoop_all_iff wf (by rwa [List.length_map])

/-- A call that fails at its first write, a message of two bytes and one of one byte. -/
theorem two_messages_logged :
    receiveLoop [true, true, true]
        ⟨sentStream 5 [⟨[1, 2, 3], .error, .error, .error⟩, .success [72, 105], .success [33]],
          [.portion 4, .portion 4, .portion 2, .portion 4, .portion 4, .portion 1, .portion 4,
            .portion 4]⟩ =
      ([[72, 105], [33]], .disconnected) := by
  have good : ∀ call ∈ [(⟨[1, 2, 3], .error, .error, .error⟩ : SendCall), .success [72, 105],
      .success [33]], call.AllOrNothing := by
    simp only [List.forall_mem_cons]
    exact ⟨.inl rfl, .inr ⟨by decide, by decide⟩, .inr ⟨by decide, by decide⟩, by simp⟩
  exact (acknowledged_logged_iff (by decide) good (by decide) _).mpr
    ⟨by decide +kernel, by decide +kernel⟩

end UwAppNet
