import UwAppNet.Exchange
import UwAppNet.SampleReceive

/-!
Two sample clients talking through the nodes: from `_send_data` of
`sample/test_sockets_TCP.py` at the one to the log of the receive loop at the other.

Each connection of the sending node carries the beginning of a session's stream, and each
connection of the receiving node is read by a loop of its own. A connection may end inside a
message, of which the loop logs nothing.
-/

namespace UwAppNet

open LittleEndian SelfDelimiting SelfDelimiting.Code Transition

/-! ### What is left on a connection -/

/-- What is written of a frame between two calls of `write` is not all of it. -/
theorem begun_cut {loc : SendLoc} (sendable : ∀ data ∈ loc.message, Sendable data) :
    ∃ payload : List UInt8, payload.length < 2 ^ 32 ∧ loc.begun <+: frame payload ∧
      loc.begun ≠ frame payload := by
  cases loc with
  | size data =>
      have fits := (sendable data (List.mem_singleton_self data)).valid
      refine ⟨data, fits, List.prefix_append _ _, fun same => ?_⟩
      have length := congrArg List.length same
      rw [length_frame, SendLoc.begun, length_encode] at length
      omega
  | payload data =>
      obtain ⟨some_bytes, -⟩ := sendable data (List.mem_singleton_self data)
      have fits := (sendable data (List.mem_singleton_self data)).valid
      refine ⟨data, fits, ⟨data, by simp [SendLoc.begun, frame]⟩, fun same => ?_⟩
      have length := congrArg List.length same
      simp only [length_frame, SendLoc.begun, List.length_append, length_encode] at length
      omega
  | _ => exact ⟨[], by decide, List.nil_prefix, (frameCode.nonempty []).symm⟩

/-! ### The two samples -/

/-- The client has put as much of the session on the connection as the bytes say, and no call
of the session was torn. -/
def WrittenBy (t : Transcript) (calls : List SampleCall) : Prop :=
  t.sent <+: (session 0 calls).stream ∧ ∀ m ∈ made 0 calls, ¬ m.2.Torn m.1

/-- A receive loop logged this of what is on the connection. -/
def LoggedFrom (s : ClientStream) (log : List (List UInt8)) : Prop :=
  ∃ polls script, log = (receiveLoop polls ⟨s.text, script⟩).1

/-- What the node makes of an untorn session are its first messages. -/
theorem WrittenBy.messages {t : Transcript} {calls : List SampleCall} (wrote : WrittenBy t calls) :
    takenMessages t.sent <+: (session 0 calls).messages := by
  obtain ⟨start, untorn⟩ := wrote
  have parsed : parseFrames (session 0 calls).stream = some (session 0 calls).messages := by
    rw [session_eq]
    refine Attempt.decodeAll_output_iff.mpr (List.forall_mem_map.mpr fun m hm => ?_)
    exact (not_torn_iff m).mp (untorn m hm)
  obtain ⟨stream, valid⟩ := decodeAll_eq_some_iff.mp parsed
  rw [stream] at start
  rw [takenMessages_eq]
  exact front_cut valid start

/-- A loop logs the first messages on the connection. -/
theorem LoggedFrom.sent {s : ClientStream} {log : List (List UInt8)} (reads : LoggedFrom s log)
    (intact : s.Intact) : log <+: s.sent := by
  obtain ⟨polls, script, rfl⟩ := reads
  obtain ⟨loc, text, sendable⟩ := intact
  obtain ⟨sendable, begun⟩ := List.forall_mem_append.mp sendable
  obtain ⟨payload, fits, start, torn⟩ := begun_cut begun
  have wf : ∀ seg ∈ s.sent.map Segment.message, seg.WellFormed :=
    List.forall_mem_map.mpr fun data h => (sendable data h).valid
  have all : logged (s.sent.map Segment.message) = s.sent := by
    rw [logged, List.map_map]
    show (s.sent.map id).filter _ = _
    rw [List.map_id, List.filter_eq_self]
    intro data h
    rw [Bool.not_eq_true', List.isEmpty_eq_false_iff, ← List.length_pos_iff_ne_nil]
    exact (sendable data h).1
  have same : frames s.sent = (s.sent.map Segment.message).flatMap Segment.text := by
    rw [List.flatMap_map]
    rfl
  have read := receiveLoop_logged wf fits start torn polls script
  rwa [all, ← same, ← text] at read

theorem flatMap_sublist_of_forall₂ {α β γ : Type*} {f : α → List γ} {g : β → List γ}
    {as : List α} {bs : List β} (each : List.Forall₂ (fun a b => (f a).Sublist (g b)) as bs) :
    (as.flatMap f).Sublist (bs.flatMap g) := by
  induction each with
  | nil => exact List.Sublist.slnil
  | cons first _ ih => exact first.append ih

section Run

variable {ι : Type*} [DecidableEq ι] {reach : ι → UInt8 → ι → Bool} {heap : ι → Nat → Bool}
  {b : ι → Bound} {net : ι → Endpoint} {moves : List (Move (ι → Endpoint) (ExchangeAction ι))}
  {i j : ι}

/-- What sample clients of a node in drop mode log, one after the other, is a subsequence of
the messages the sample clients of the only sender it hears counted as sent: whatever is lost,
repeated and reordered between the nodes, whatever the sockets of the clients do, and however
clients, threads, timers and arrivals take turns, as long as no call of `_send_data` was torn,
the sender's reads are whole, the receiver's writes and accepts orderly and no write goes
astray. -/
theorem script_to_script (run : Run (Exchange.step reach) (Exchange.start heap b) moves net)
    (orderly : ∀ m ∈ moves, Exchange.orderly i j m.before m.action = true)
    (drop : (b j).dropOutOfOrder = 1) (only : HearsOnly (Exchange.sites net) i j)
    (few : (net i).site.node.emitted.length < 65534)
    {sessions : List (List SampleCall)} {logs : List (List (List UInt8))}
    (written : List.Forall₂ WrittenBy (net i).live.transcripts sessions)
    (reads : List.Forall₂ LoggedFrom (net j).delivery.streams logs) :
    logs.flatten.Sublist (sessions.flatMap fun calls => (session 0 calls).messages) := by
  obtain ⟨run, reading, writing⟩ := Exchange.orderly_run run orderly
  obtain ⟨_, sending, met⟩ := sees_delivery_run run writing
  have delivering := delivering_run sending met
  have sent : logs.flatten.Sublist ((net j).delivery.streams.flatMap ClientStream.sent) := by
    rw [← List.flatMap_id]
    refine flatMap_sublist_of_forall₂ (List.Forall₂.flip ?_)
    exact ((List.forall₂_and_left _ _).mpr ⟨delivering.delivered.intact, reads⟩).imp
      fun _ _ h => (h.2.sent h.1).sublist
  have told : ((net i).live.transcripts.flatMap fun t => takenMessages t.sent).Sublist
      (sessions.flatMap fun calls => (session 0 calls).messages) :=
    flatMap_sublist_of_forall₂ (written.imp fun _ _ wrote => wrote.messages.sublist)
  have calls := (List.sublist_append_left _ _).trans delivering.calls
  have framed := calls_sublist run reading drop only few
  exact (sent.trans calls).trans (framed.trans told)

end Run

/-- A session with a frame sent in two parts, a call that sends nothing and one more frame. -/
def twoSent : List SampleCall :=
  [⟨[72], [.sent 5, .sent 9]⟩, ⟨[72], [.again]⟩, ⟨[72], [.sent 12]⟩]

/-- Of the packets made of the session the first is lost and the second comes twice. -/
def scriptRun : List (ExchangeAction Bool) :=
  let go (a : WorkerAction) (last : UInt8) : ExchangeAction Bool :=
    .node false (.thread a 0 (oneBytePacket 0) fun i => [72, 32, 35, last].getD i 0)
  let send (bs : List UInt8) : ExchangeAction Bool := .node false (.client (.send none bs))
  served false ++ served true ++
    [send ((session 0 twoSent).stream.take 20),
      go (.select true) 49, go (.read 4 staleStack) 49, go (.read 4 staleStack) 49,
      go (.read 4 staleStack) 49, go .next 49, go .next 49,
      go (.select true) 50, go (.read 4 staleStack) 50,
      send ((session 0 twoSent).stream.drop 20),
      go (.read 4 staleStack) 50, go (.read 4 staleStack) 50, go .next 50,
      .node false .test, .node false (.pop 1), .node false .test, .node false (.pop 2),
      .arrive false 1 true 3, .node true (.write (.count 4)), .node true (.write (.count 4)),
      .node true (.write (.count 4)), .arrive false 1 true 4]

/-- The sample client of node 2 logs the second message, once. -/
theorem second_message_logged : ∃ moves net logs,
    Run (Exchange.step pairReach) (Exchange.start (fun _ _ => false) pairBound) moves net ∧
      (session 0 twoSent).messages = [[72, 32, 35, 49], [72, 32, 35, 50]] ∧
      List.Forall₂ LoggedFrom (net true).delivery.streams logs ∧
      logs = [[[72, 32, 35, 50]]] ∧
      logs.flatten.Sublist ([twoSent].flatMap fun calls => (session 0 calls).messages) := by
  have ran : (exec (guarded (Exchange.orderly false true) (Exchange.step pairReach))
      (Exchange.start (fun _ _ => false) pairBound) scriptRun).map
        (fun net => ((net false).live.transcripts.map Transcript.sent,
          (net true).delivery.streams, (net false).site.node.emitted.length)) =
      some ([(session 0 twoSent).stream],
        [⟨frame [72, 32, 35, 50], [[72, 32, 35, 50]]⟩], 2) := by decide +kernel
  obtain ⟨net, executed, same⟩ := Option.map_eq_some_iff.mp ran
  obtain ⟨moves, run, -⟩ := run_of_exec executed
  obtain ⟨run, orderly⟩ := run.of_guarded
  obtain ⟨sent, rest⟩ := Prod.mk.inj same
  obtain ⟨streams, emitted⟩ := Prod.mk.inj rest
  have reads : List.Forall₂ LoggedFrom (net true).delivery.streams [[[72, 32, 35, 50]]] := by
    rw [streams]
    refine .cons ⟨[true], [.portion 4, .portion 4, .portion 4], ?_⟩ .nil
    decide +kernel
  have written : List.Forall₂ WrittenBy (net false).live.transcripts [twoSent] := by
    obtain ⟨t, one, text⟩ := List.map_eq_singleton_iff.mp sent
    rw [one]
    have whole : ∀ m ∈ made 0 twoSent, (attempt m).written = [] ∨
        (attempt m).written = frame (attempt m).value ∧ (attempt m).value.length < 2 ^ 32 := by
      decide +kernel
    exact .cons ⟨by rw [text], fun m hm => (not_torn_iff m).mpr (whole m hm)⟩ .nil
  have straight := (Exchange.orderly_run run orderly).1
  refine ⟨moves, net, _, run, by decide +kernel, reads, rfl, ?_⟩
  exact script_to_script run orderly rfl (hearsOnly_run straight (by decide))
    (by rw [emitted]; decide) written reads

end UwAppNet
