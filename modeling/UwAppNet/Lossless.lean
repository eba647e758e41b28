import UwAppNet.Exchange

/-!
What the parts have to do for nothing to be lost between the clients of two nodes.

Every step so far only bounded what comes out by what went in. Where the channel delivers
every packet in order, a client is there for every message, no write goes astray and no queue
is left, the bounds become equalities.
-/

namespace UwAppNet

open SelfDelimiting SelfDelimiting.Code Transition

/-! ### The queue -/

/-- Every message enqueued was handed down or is in the queue; without a listener there is no
queue. -/
structure Site.Kept (s : Site) : Prop where
  messages : (s.node.emitted ++ s.node.queuePckRead).map Packet.payload = s.messages
  queue : s.node.mod.pTcpListener = false → s.node.queuePckRead = []

section Kept

variable {s s' : Site}

theorem Node.step_listener {n n' : Node} {a : NodeAction} (h : n.step a = some n') :
    n'.mod.pTcpListener = n.mod.pTcpListener := by
  rcases Node.step_cases h with ⟨_, _, _, -, -, -, rfl⟩ | ⟨-, -, rfl⟩ | ⟨_, _, _, -, -, -, rfl⟩ <;> rfl

/-- Only `stop` and a second `start` take a queue away. -/
theorem Site.Kept.step (kept : s.Kept) {a : SiteAction} (unstopped : a ≠ .stop)
    (once : a = .start → s.node.mod.pTcpListener = false) (h : s.step a = some s') : s'.Kept := by
  cases a with
  | send act =>
      simp only [Site.step, Option.ite_none_right_eq_some] at h
      obtain ⟨listener, h⟩ := h
      obtain ⟨n, stepped, rfl⟩ := Option.map_eq_some_iff.mp h
      refine ⟨?_, fun none => ?_⟩
      · rw [Node.messages_step stepped, kept.messages]
      · have same := Node.step_listener stepped
        rw [listener, show n.mod.pTcpListener = false from none] at same
        cases same
  | start =>
      simp only [Site.step, Option.ite_none_left_eq_some, Bool.not_eq_true,
        Option.some.injEq] at h
      obtain ⟨-, rfl⟩ := h
      have messages := kept.messages
      rw [kept.queue (once rfl)] at messages
      exact ⟨messages, fun _ => rfl⟩
  | stop => exact absurd rfl unstopped
  | orphan =>
      simp only [Site.step, Option.ite_none_right_eq_some, Option.some.injEq] at h
      obtain ⟨-, rfl⟩ := h
      exact ⟨kept.messages, kept.queue⟩

theorem Site.Kept.recv (kept : s.Kept) (a : Arrival) : (s.recv a).Kept := by
  refine ⟨kept.messages, fun none => kept.queue ?_⟩
  exact (UwAppNetModule.statistics_pTcpListener ..).symm.trans none

/-- The endpoints start listeners and never stop them. -/
theorem Endpoint.Taken.unstopped {e : Endpoint} {a : EndpointAction} {p : Parts}
    (taken : e.Taken a p) : p.site ≠ some .stop ∧ (p.site = some .start → a = .start) := by
  cases taken <;> simp

theorem Endpoint.kept_of_step {e e' : Endpoint} {a : EndpointAction} (kept : e.site.Kept)
    (h : e.step a = some e') : e'.site.Kept := by
  obtain ⟨p, parts, -, site, -⟩ := Endpoint.step_together h
  obtain ⟨unstopped, once⟩ := (Endpoint.parts_taken parts).unstopped
  rcases exec_toList_cases site with ⟨-, same⟩ | ⟨act, part, stepped⟩
  · rwa [same]
  · refine kept.step (fun stop => unstopped (by rw [part, stop])) (fun start => ?_) stepped
    rw [once (by rw [part, start])] at h
    exact Endpoint.unstarted h

theorem Endpoint.kept_of_recv {e e' : Endpoint} {x : Arrival} (kept : e.site.Kept)
    (h : e.recv x = some e') : e'.site.Kept := by
  rw [(Endpoint.recv_cases h).2.1]
  exact kept.recv x

end Kept

/-! ### The connections -/

/-- A call of `send_data` finds a client, no connection is closed during a call, a `write`
takes over all it is given, and nobody else writes to the client. -/
def Delivery.attended (d : Delivery) : DeliveryAction → Bool
  | .call data =>
      d.clnSockDescr != 0 && d.listener == .serving &&
        decide (1 ≤ data.length ∧ data.length < 2 ^ 16)
  | .close => d.sender == .idle
  | .write r => r.full d.sender.bytes.length
  | .foreign _ => false
  | _ => true

/-- Every message `send_data` was called with is on a connection, or on its way to one. -/
structure Attended (d : Delivery) : Prop extends Delivering d where
  exact : d.streams.flatMap ClientStream.sent ++ d.sender.message = d.calls
  served : d.sender ≠ .idle → d.listener = .serving

section Attended

variable {d d' : Delivery} {a : DeliveryAction}

theorem attended_start : Attended Delivery.start where
  toDelivering := delivering_start
  exact := rfl
  served busy := absurd rfl busy

theorem Attended.idle (inv : Attended d) (away : d.listener ≠ .serving) : d.sender = .idle := by
  by_contra busy
  exact away (inv.served busy)

/-- A call that is attended meets what is asked of it in general. -/
theorem Attended.orderly (inv : Attended d) (met : d.attended a = true) (h : d.step a = some d') :
    d.orderly a = true := by
  cases a with
  | accept clnSockDescr =>
      simp only [Delivery.step, Option.ite_none_right_eq_some] at h
      have idle := inv.idle (by rw [h.1]; decide)
      simp [Delivery.orderly, idle]
  | call data =>
      simp only [Delivery.attended, Bool.and_eq_true] at met
      exact met.2
  | write r =>
      have full : r.full d.sender.bytes.length = true := met
      simp [Delivery.orderly, full]
  | foreign bs => cases met
  | _ => rfl

/-- A whole `write` moves the message on, or to the connection. -/
theorem Attended.put_sent (serving : d.listener = .serving) {r : WriteResult}
    (full : r.full d.sender.bytes.length = true) :
    (d.put r).sent ++ d.sender.next.message = d.current.sent ++ d.sender.message := by
  cases loc : d.sender <;> rw [loc] at full <;>
    simp_all [Delivery.put, SendLoc.next, SendLoc.message, SendLoc.bytes]

theorem Attended.step (inv : Attended d) (met : d.attended a = true) (h : d.step a = some d') :
    Attended d' := by
  have delivering := inv.toDelivering.step (inv.orderly met h) h
  have exact := inv.exact
  cases a with
  | accept clnSockDescr =>
      simp only [Delivery.step, Option.ite_none_right_eq_some, Option.some.injEq] at h
      obtain ⟨-, rfl⟩ := h
      exact ⟨delivering, exact, fun _ => rfl⟩
  | close =>
      simp only [Delivery.step, Option.ite_none_right_eq_some, Option.some.injEq] at h
      obtain ⟨-, rfl⟩ := h
      have idle : d.sender = .idle := by simpa [Delivery.attended] using met
      refine ⟨delivering, ?_, fun busy => absurd idle busy⟩
      rw [← exact]
      simp [Delivery.streams, ClientStream.fresh]
  | clear =>
      simp only [Delivery.step, Option.ite_none_right_eq_some, Option.some.injEq] at h
      obtain ⟨closed, rfl⟩ := h
      have idle := inv.idle (by rw [closed]; decide)
      exact ⟨delivering, exact, fun busy => absurd idle busy⟩
  | call data =>
      simp only [Delivery.attended, Bool.and_eq_true, bne_iff_ne, ne_eq, beq_iff_eq] at met
      obtain ⟨⟨client, serving⟩, -⟩ := met
      simp only [Delivery.step, Delivery.enter, Option.ite_none_right_eq_some,
        Option.some.injEq] at h
      obtain ⟨idle, rfl⟩ := h
      refine ⟨delivering, ?_, fun _ => serving⟩
      rw [idle, SendLoc.message, List.append_nil] at exact
      rw [if_pos client, ← exact]
      rfl
  | write r =>
      simp only [Delivery.step, Delivery.proceed, Option.ite_none_left_eq_some,
        Option.some.injEq] at h
      obtain ⟨busy, rfl⟩ := h
      have serving := inv.served busy
      have full : r.full d.sender.bytes.length = true := met
      have returned := (write_full_iff d.sender.bytes r).mpr full
      refine ⟨delivering, ?_, fun _ => serving⟩
      rw [Delivery.streams, List.flatMap_append, List.flatMap_singleton, List.append_assoc] at exact ⊢
      rw [if_neg (not_not.mpr returned), Attended.put_sent serving full]
      exact exact
  | foreign bs => cases met

theorem attended_run {moves : List (Move Delivery DeliveryAction)}
    (run : Run Delivery.step .start moves d)
    (met : ∀ m ∈ moves, m.before.attended m.action = true) : Attended d :=
  run.invariant_of attended_start met fun _ _ _ inv met h => inv.step met h

end Attended

/-! ### The channel -/

/-- What the history of a node says after a step: nothing arrived, and what was emitted
stays. -/
theorem Endpoint.step_history {e e' : Endpoint} {a : EndpointAction} (h : e.step a = some e') :
    e'.site.arrived = e.site.arrived ∧ e.site.node.emitted <+: e'.site.node.emitted := by
  obtain ⟨p, -, -, site, -⟩ := Endpoint.step_together h
  rcases exec_toList_cases site with ⟨-, same⟩ | ⟨act, -, stepped⟩
  · rw [same]
    exact ⟨rfl, List.prefix_rfl⟩
  · rcases Site.step_cases stepped with
      ⟨act, n, sent, same⟩ | ⟨present, replaced, same⟩ | same
    · rw [same]
      exact ⟨rfl, Node.emitted_prefix sent⟩
    · rw [same]
      exact ⟨rfl, List.prefix_rfl⟩
    · rw [same]
      exact ⟨rfl, List.prefix_rfl⟩

/-- What the step is on the connection, if anything, is attended. -/
def Endpoint.attends (e : Endpoint) (a : EndpointAction) : Bool :=
  ((e.parts a).bind Parts.delivery).all e.delivery.attended

/-- There is a listener and a client. -/
def Endpoint.attended (e : Endpoint) : Bool :=
  e.site.node.mod.pTcpListener && (e.delivery.clnSockDescr != 0 && e.delivery.listener == .serving)

namespace Exchange

variable {ι : Type*} [DecidableEq ι]

/-- The packets handed to the node `j`: who emitted them, and after how many others. -/
def handed (j : ι) (actions : List (ExchangeAction ι)) : List (ι × Nat) :=
  actions.filterMap fun a =>
    match a with
    | .arrive i k j' _ => if j' = j then some (i, k) else none
    | .node _ _ => none

/-- The receiver has a listener and a client for everything that arrives, and what it does on
the connection is attended. -/
def attending (j : ι) (net : ι → Endpoint) : ExchangeAction ι → Bool
  | .node k a => k != j || (net k).attends a
  | .arrive _ _ k _ => k != j || (net k).attended

end Exchange

section Run

variable {ι : Type*} {reach : ι → UInt8 → ι → Bool} {heap : ι → Nat → Bool} {b : ι → Bound}
  {net net' : ι → Endpoint} {moves : List (Move (ι → Endpoint) (ExchangeAction ι))} {i j : ι}
  {a : ExchangeAction ι}

variable [DecidableEq ι]

theorem kept_run (run : Run (Exchange.straightStep reach) (Exchange.start heap b) moves net)
    (i : ι) :
    (net i).site.Kept :=
  run.invariant ⟨rfl, fun _ => rfl⟩ fun _ _ _ kept h =>
    Exchange.each_of_step (R := fun e e' => e.site.Kept → e'.site.Kept) (fun _ kept => kept)
      (fun _ _ _ h kept => Endpoint.kept_of_step kept h)
      (fun _ _ _ h kept => Endpoint.kept_of_recv kept h) h i kept

/-- What was emitted stays. -/
theorem emitted_grows (h : Exchange.straightStep reach net a = some net') (i : ι) :
    (net i).site.node.emitted <+: (net' i).site.node.emitted :=
  Exchange.each_of_step (R := fun e e' => e.site.node.emitted <+: e'.site.node.emitted)
    (fun _ => List.prefix_rfl) (fun _ _ _ h => (Endpoint.step_history h).2)
    (fun _ _ _ h => by rw [(Endpoint.recv_cases h).2.1]; exact List.prefix_rfl) h i

theorem emitted_stays (h : Exchange.straightStep reach net a = some net') {k : Nat} {p : Packet}
    (found : (net i).site.node.emitted[k]? = some p) :
    (net' i).site.node.emitted[k]? = some p := by
  obtain ⟨more, same⟩ := emitted_grows h i
  rw [← same, List.getElem?_append_left (List.getElem?_eq_some_iff.mp found).1, found]

/-- What arrived at a node are the packets handed to it. -/
theorem arrived_eq_handed
    (run : Run (Exchange.straightStep reach) (Exchange.start heap b) moves net) :
    ((net j).site.arrived.map fun a => some a.packet) =
      (Exchange.handed j (moves.map Move.action)).map fun m =>
        (net m.1).site.node.emitted[m.2]? := by
  induction run with
  | nil => rfl
  | @snoc moves t u a _ last ih =>
      -- what was handed over before is still where it was emitted
      have stays : ((t j).site.arrived.map fun a => some a.packet) =
          (Exchange.handed j (moves.map Move.action)).map fun m =>
            (u m.1).site.node.emitted[m.2]? := by
        rw [ih]
        apply List.map_congr_left
        intro m hm
        have known := List.mem_map_of_mem
          (f := fun m : ι × Nat => (t m.1).site.node.emitted[m.2]?) hm
        rw [← ih] at known
        obtain ⟨x, -, found⟩ := List.mem_map.mp known
        rw [← found, emitted_stays last found.symm]
      rw [List.map_append, Exchange.handed, List.filterMap_append, List.map_append]
      rcases Exchange.step_cases last with
        ⟨i, act, e, rfl, stepped, rfl⟩ | ⟨i, k, j', clock, p, e, rfl, found, -, received, rfl⟩
      · have arrived : (Function.update t i e j).site.arrived = (t j).site.arrived := by
          by_cases same : j = i
          · subst same
            rw [Function.update_self]
            exact (Endpoint.step_history stepped).1
          · rw [Function.update_of_ne same]
        rw [arrived, stays]
        simp [Exchange.handed]
      · by_cases same : j = j'
        · subst same
          have here := emitted_stays last found
          have arrived : (Function.update t j e j).site.arrived =
              (t j).site.arrived ++ [⟨clock, p⟩] := by
            rw [Function.update_self, (Endpoint.recv_cases received).2.1]
            rfl
          rw [arrived, List.map_append, stays]
          simp [Exchange.handed, here]
        · rw [Function.update_of_ne same, stays]
          simp [Exchange.handed, Ne.symm same]

/-- A channel that hands over every packet of a node, in order. -/
theorem arrived_eq_emitted
    (run : Run (Exchange.straightStep reach) (Exchange.start heap b) moves net)
    (inOrder : Exchange.handed j (moves.map Move.action) =
      (List.range (net i).site.node.emitted.length).map fun k => (i, k)) :
    (net j).site.arrived.map Arrival.packet = (net i).site.node.emitted := by
  have same := arrived_eq_handed (j := j) run
  rw [inOrder, List.map_map] at same
  apply List.map_injective_iff.mpr (Option.some_injective Packet)
  rw [List.map_map]
  refine same.trans (List.ext_getElem (by simp) fun k hk _ => ?_)
  rw [List.length_map, List.length_range] at hk
  simp [hk]

/-- The connections of the receiver see an attended run. -/
theorem sees_attended (inv : Networked reach heap b (Exchange.sites net))
    (h : guarded (Exchange.attending j) (Exchange.straightStep reach) net a = some net') :
    ∃ bs, exec (guarded Delivery.attended Delivery.step) (net j).delivery bs =
      some (net' j).delivery := by
  simp only [guarded, Option.ite_none_right_eq_some] at h
  obtain ⟨attending, h⟩ := h
  refine Exchange.sees_part ?_ ?_ h
  · rintro act e rfl stepped
    obtain ⟨p, parts, -, -, delivery⟩ := Endpoint.step_together stepped
    refine ⟨p.delivery.toList, exec_guarded (fun x part => ?_) delivery⟩
    have attends : (net j).attends act = true := by simpa [Exchange.attending] using attending
    rw [Endpoint.attends, parts, Option.bind_some, Option.all_eq_true] at attends
    exact attends x part
  · rintro i k clock p e rfl found received
    have attended : (net j).attended = true := by simpa [Exchange.attending] using attending
    have sized := sized_of_emitted inv (List.mem_of_getElem? found)
    rw [Endpoint.attended, Bool.and_eq_true] at attended
    obtain ⟨-, -, called⟩ := Endpoint.recv_cases received
    rw [UwAppNetModule.sent_statistics] at called
    split at called
    · refine ⟨(some (DeliveryAction.call p.payload)).toList, exec_guarded ?_ called⟩
      rintro _ ⟨⟩
      rw [Delivery.attended, attended.2, Bool.true_and]
      exact decide_eq_true ⟨sized.1, lt_of_le_of_lt sized.2 (by decide)⟩
    · exact ⟨[], called⟩

/-- Everything that arrives is heard. -/
theorem heard_of_attending (inv : Heard reach heap b j (Exchange.sites net))
    (h : guarded (Exchange.attending j) (Exchange.straightStep reach) net a = some net') :
    Heard reach heap b j (Exchange.sites net') := by
  simp only [guarded, Option.ite_none_right_eq_some] at h
  obtain ⟨attending, h⟩ := h
  obtain ⟨seen, executed, arrival⟩ := Exchange.sees_network h
  rcases exec_toList_cases executed with ⟨-, same⟩ | ⟨act, rfl, stepped⟩
  · rwa [same]
  · apply inv.step _ stepped
    cases act with
    | site k act => rfl
    | arrive i k j' clock =>
        cases arrival i k j' clock rfl
        by_cases here : j' = j
        · subst here
          have listener : (net j').site.node.mod.pTcpListener = true := by
            simp only [Exchange.attending, bne_self_eq_false, Bool.false_or, Endpoint.attended,
              Bool.and_eq_true] at attending
            exact attending.1
          simp [Network.listening, Exchange.sites, listener]
        · simp [Network.listening, here]

/-- A receiver with a listener and a client for everything passes on all that is handed to it in
order, in either mode. -/
theorem passed_of_inOrder (run : Run (guarded (Exchange.attending j) (Exchange.straightStep reach))
      (Exchange.start heap b) moves net)
    (few : (b j).dropOutOfOrder = 1 → (net i).site.node.emitted.length < 65534)
    (arrived : (net j).site.arrived.map Arrival.packet = (net i).site.node.emitted) :
    (net j).site.delivered = (net j).site.arrived.map fun a => a.packet.payload := by
  have heard : Heard reach heap b j (Exchange.sites net) :=
    run.invariant (heard_start reach heap b j) fun _ _ _ inv h => heard_of_attending inv h
  by_cases on : (b j).dropOutOfOrder = 1
  · have only : HearsOnly (Exchange.sites net) i j := by
      intro a ha
      have emitted := List.mem_map_of_mem (f := Arrival.packet) ha
      rwa [show ((Exchange.sites net j).arrived.map Arrival.packet) = _ from arrived] at emitted
    apply (heard.passes_iff on only (few on)).mpr
    show ((net j).site.arrived.map Arrival.packet).Sublist _
    rw [arrived]
    exact List.Sublist.refl _
  · exact heard.passes_unchecked on

/-- Between two calls its clients have been sent all that `send_data` was called with. -/
theorem read_of_attending (run : Run (guarded (Exchange.attending j) (Exchange.straightStep reach))
      (Exchange.start heap b) moves net) (idle : (net j).delivery.sender = .idle) :
    (net j).delivery.streams.flatMap ClientStream.messages = (net j).delivery.calls := by
  obtain ⟨_, seen⟩ := run.simulate (fun net => (net j).delivery) _
    (networked_start reach heap b) (fun _ _ _ inv h => networked_of_guarded inv h)
    fun _ _ _ inv h => sees_attended inv h
  obtain ⟨sending, met⟩ := seen.of_guarded
  have attended := attended_run sending met
  rw [List.flatMap_def, List.map_congr_left attended.delivered.messages, ← List.flatMap_def,
    ← attended.exact, idle, SendLoc.message, List.append_nil]

/-- What is under way when nothing is: every packet of `i` has arrived at `j` in order, no
message is queued at `i` and none half written at `j`, and the thread of `i` has caught up with
its client. -/
structure Exchange.Settled (i j : ι) (actions : List (ExchangeAction ι)) (net : ι → Endpoint) :
    Prop where
  inOrder : Exchange.handed j actions =
    (List.range (net i).site.node.emitted.length).map fun k => (i, k)
  queue : (net i).site.node.queuePckRead = []
  running : (net i).live.listener.mStop = false
  caughtUp : (net i).live.listener.caughtUp = true
  idle : (net j).delivery.sender = .idle

/-- Where the channel keeps its order and loses nothing, and a client is there for every
message, nothing is lost: once everything has come through, the clients of the one node have
been sent exactly the messages the other took from its clients, in order. -/
theorem nothing_lost (run : Run (Exchange.step reach) (Exchange.start heap b) moves net)
    (reading : ∀ m ∈ moves, Exchange.reading i m.before m.action = true)
    (attending : ∀ m ∈ moves, Exchange.attending j m.before m.action = true)
    (straight : ∀ m ∈ moves, Exchange.straight m.before m.action = true)
    (few : (b j).dropOutOfOrder = 1 → (net i).site.node.emitted.length < 65534)
    (settled : Exchange.Settled i j (moves.map Move.action) net) :
    (net j).delivery.streams.flatMap ClientStream.messages =
      (net i).live.transcripts.flatMap fun t => takenMessages t.sent := by
  have run := Exchange.straight_run run straight
  have coupled := coupled_run run
  have fair := run.to_guarded attending
  have arrived := arrived_eq_emitted run settled.inOrder
  obtain ⟨_, thread, whole⟩ := sees_live_run run reading
  have intake := (synced_run thread whole).faithful
  calc (net j).delivery.streams.flatMap ClientStream.messages
      = (net j).delivery.calls := read_of_attending fair settled.idle
    _ = (net j).site.delivered := (coupled j).calls
    _ = (net j).site.arrived.map fun a => a.packet.payload :=
        passed_of_inOrder fair few arrived
    _ = (net i).site.node.emitted.map Packet.payload := by
        rw [← arrived, List.map_map]
        rfl
    _ = (net i).site.messages := by
        rw [← (kept_run run i).messages, settled.queue, List.append_nil]
    _ = (net i).live.listener.queuePckRead := (coupled i).messages
    _ = (net i).live.transcripts.flatMap fun t => takenMessages t.sent :=
        intake.taken settled.running settled.caughtUp

end Run

/-- Both messages of the client of node 1 arrive, in order. -/
theorem both_messages_arrive : ∃ moves net,
    Run (Exchange.step pairReach) (Exchange.start (fun _ _ => false) pairBound) moves net ∧
      (net true).delivery.current.text = frame [7] ++ frame [7, 8] ∧
      (net true).delivery.streams.flatMap ClientStream.messages =
        (net false).live.transcripts.flatMap fun t => takenMessages t.sent := by
  let good net a :=
    Exchange.reading false net a && Exchange.attending true net a && Exchange.straight net a
  have ran : (exec (guarded good (Exchange.step pairReach))
      (Exchange.start (fun _ _ => false) pairBound)
      (exchangeSends ++
        [.arrive false 0 true 3, .node true (.write (.count 4)), .node true (.write (.count 4)),
          .node true (.write (.count 1)), .arrive false 1 true 4, .node true (.write (.count 4)),
          .node true (.write (.count 4)), .node true (.write (.count 2))])).map (fun net =>
        ([(net false).site.node.emitted.length, (net false).site.node.queuePckRead.length],
          [(net false).live.listener.mStop, (net false).live.listener.caughtUp],
          (net true).delivery.sender, (net true).delivery.current.text)) =
      some ([2, 0], [false, true], .idle, frame [7] ++ frame [7, 8]) := by decide +kernel
  obtain ⟨net, executed, same⟩ := Option.map_eq_some_iff.mp ran
  obtain ⟨moves, run, actions⟩ := run_of_exec executed
  obtain ⟨run, met⟩ := run.of_guarded
  simp only [Prod.mk.injEq, List.cons.injEq, and_true] at same
  obtain ⟨⟨emitted, queue⟩, ⟨running, caughtUp⟩, idle, text⟩ := same
  simp only [good, Bool.and_eq_true] at met
  refine ⟨moves, net, run, text, nothing_lost run (fun m hm => (met m hm).1.1)
    (fun m hm => (met m hm).1.2) (fun m hm => (met m hm).2) (fun _ => by rw [emitted]; decide) ?_⟩
  refine ⟨?_, List.length_eq_zero_iff.mp queue, running, caughtUp, idle⟩
  rw [actions, emitted]
  decide

end UwAppNet
