import UwAppNet.LiveIntake
import UwAppNet.Network
import UwAppNet.Handover
import Mathlib.Data.List.Flatten

/-!
From the clients of one node to the clients of another, all threads and all nodes running at
once.

An `Endpoint` puts together what the modules before this one look at apart: the listener
thread with the clients' bytes, the module with its queue and its receive path, and
`send_data` with the connections it writes to. A step of an endpoint is a step of the parts
that take part in it, so a run is seen as a run of each part, and what the parts guarantee
adds up to a statement about bytes alone. Every node is started once and keeps its listener, whose
thread may be told to stop. The modules of a simulation share one process, so that a write to a
descriptor that was closed comes in at whichever node has been given its number since.
-/

namespace UwAppNet

open SelfDelimiting SelfDelimiting.Code Transition

/-! ### One node with its clients -/

/-- A node: its listener thread and the bytes of its clients, its module with the queue, and
the connections `send_data` writes to. -/
structure Endpoint where
  live : Live
  site : Site
  delivery : Delivery

/-- The command `start`, a step of the listener thread, of a client or of the timer, `m_stop`
being stored, a `write` of `send_data`. -/
inductive EndpointAction where
  | start
  | thread (a : WorkerAction) (clnSockDescr : Nat) (alloc : Packet) (bufferMsg : Buffer)
  | close
  | client (a : ClientAction)
  | stop
  | test
  | pop (clock : ℚ)
  | write (r : WriteResult)

/-- The parts of a step. -/
structure Parts where
  live : Option LiveAction
  site : Option SiteAction
  delivery : Option DeliveryAction

namespace Endpoint

/-- A module as constructed; its listener will use the port `port_num`. -/
def init (heap : Nat → Bool) (b : Bound) : Endpoint where
  live := Live.start (UInt16.ofInt b.destPort)
  site := Site.init heap b
  delivery := .start

/-- What a step of the listener thread is for the parts: `HandleTCPclient` makes a packet in
`alloc` of what it read into `buffer_msg`, and `accept` returns `clnSockDescr`. The client is
gone for the thread when `clnSockDescr` is cleared. -/
def threadParts (e : Endpoint) (a : WorkerAction) (clnSockDescr : Nat) (alloc : Packet)
    (bufferMsg : Buffer) : Option Parts :=
  match a, e.live.listener.loc with
  | .accept, _ => some ⟨some (.worker a), none, some (.accept clnSockDescr)⟩
  | .next, .pushing data =>
      if bufferMsg.bytes data.length = data then
        some ⟨some (.worker a), some (.send (.enqueue alloc bufferMsg data.length)), none⟩
      else none
  | .next, .closeClient => some ⟨some (.worker a), none, some .clear⟩
  | _, _ => some ⟨some (.worker a), none, none⟩

def parts (e : Endpoint) : EndpointAction → Option Parts
  | .start => some ⟨none, some .start, none⟩
  | .thread a clnSockDescr alloc bufferMsg => e.threadParts a clnSockDescr alloc bufferMsg
  | .close => if e.live.listener.loc = .closeClient then some ⟨none, none, some .close⟩ else none
  | .client a => some ⟨some (.client a), none, none⟩
  | .stop => some ⟨some .stop, none, none⟩
  | .test => some ⟨none, some (.send .test), none⟩
  | .pop clock => some ⟨none, some (.send (.pop clock)), none⟩
  | .write r => some ⟨none, none, some (.write r)⟩

/-- Each part makes its step, if it takes part. -/
def together (e : Endpoint) (p : Parts) : Option Endpoint :=
  (exec Live.step e.live p.live.toList).bind fun live =>
    (exec Site.step e.site p.site.toList).bind fun site =>
      (exec Delivery.step e.delivery p.delivery.toList).map fun delivery =>
        ⟨live, site, delivery⟩

/-- Without a listener there is nothing but the command `start`, which is not given again. -/
def step (e : Endpoint) (a : EndpointAction) : Option Endpoint :=
  match a with
  | .start => if e.site.node.mod.pTcpListener then none else (e.parts a).bind e.together
  | a => if e.site.node.mod.pTcpListener then (e.parts a).bind e.together else none

/-- `recv(p)`, which enters `send_data` if the packet passes every check. -/
def recv (e : Endpoint) (a : Arrival) : Option Endpoint :=
  if e.delivery.sender ≠ .idle then none
  else
    let passed := (e.site.node.mod.statistics a.clock a.packet).2.sent
    (exec Delivery.step e.delivery (passed.map .call)).map fun delivery =>
      { e with site := e.site.recv a, delivery := delivery }

theorem step_together {e e' : Endpoint} {a : EndpointAction} (h : e.step a = some e') :
    ∃ p, e.parts a = some p ∧ exec Live.step e.live p.live.toList = some e'.live ∧
      exec Site.step e.site p.site.toList = some e'.site ∧
      exec Delivery.step e.delivery p.delivery.toList = some e'.delivery := by
  have made : (e.parts a).bind e.together = some e' := by
    cases a <;>
      simp only [step, Option.ite_none_right_eq_some, Option.ite_none_left_eq_some] at h <;>
      exact h.2
  obtain ⟨p, parts, made⟩ := Option.bind_eq_some_iff.mp made
  obtain ⟨live, one, made⟩ := Option.bind_eq_some_iff.mp made
  obtain ⟨site, two, made⟩ := Option.bind_eq_some_iff.mp made
  obtain ⟨delivery, three, rfl⟩ := Option.map_eq_some_iff.mp made
  exact ⟨p, parts, one, two, three⟩

theorem unstarted {e e' : Endpoint} (h : e.step .start = some e') :
    e.site.node.mod.pTcpListener = false := by
  simp only [step, Option.ite_none_left_eq_some, Bool.not_eq_true] at h
  exact h.1

theorem recv_cases {e e' : Endpoint} {a : Arrival} (h : e.recv a = some e') :
    e'.live = e.live ∧ e'.site = e.site.recv a ∧
      exec Delivery.step e.delivery
        ((e.site.node.mod.statistics a.clock a.packet).2.sent.map .call) = some e'.delivery := by
  simp only [recv, Option.ite_none_left_eq_some] at h
  obtain ⟨delivery, called, rfl⟩ := Option.map_eq_some_iff.mp h.2
  exact ⟨rfl, rfl, called⟩

end Endpoint

/-! ### What the parts agree on -/

/-- What was put in the listener's queue are the messages of the module's history, and what it
passed on the calls of `send_data`. -/
structure Coupled (e : Endpoint) : Prop where
  messages : e.site.messages = e.live.listener.queuePckRead
  calls : e.delivery.calls = e.site.delivered

section Coupled

/-- The message a step of the listener thread enqueues. -/
def Live.pushes (v : Live) : LiveAction → List (List UInt8)
  | .worker .next =>
      match v.listener.loc with
      | .pushing data => [data]
      | _ => []
  | _ => []

theorem Listener.next_queue {l l' : Listener} (h : l.next = some l') :
    l'.queuePckRead = l.queuePckRead ++
      match l.loc with
      | .pushing data => [data]
      | _ => [] := by
  unfold Listener.next at h
  split at h <;> cases h <;> rename_i loc <;> rw [loc] <;> simp

theorem Live.step_queue {v v' : Live} {a : LiveAction} (h : v.step a = some v') :
    v'.listener.queuePckRead = v.listener.queuePckRead ++ v.pushes a := by
  cases a with
  | worker a =>
      obtain ⟨l', stepped, rfl⟩ := Option.map_eq_some_iff.mp h
      rw [Live.observe_listener]
      cases Listener.step_effect stepped with
      | next stepped => exact Listener.next_queue stepped
      | _ => exact (List.append_nil _).symm
  | client a =>
      obtain ⟨l', stepped, rfl⟩ := Option.map_eq_some_iff.mp h
      rw [Live.receive_listener, (Listener.clientStep_frame stepped).2.2.2]
      exact (List.append_nil _).symm
  | stop =>
      cases h
      exact (List.append_nil _).symm

/-- The message a step of the module enqueues. -/
def SiteAction.message : SiteAction → List (List UInt8)
  | .send a => a.message
  | _ => []

theorem Site.step_messages {s s' : Site} {a : SiteAction} (h : s.step a = some s') :
    s'.messages = s.messages ++ a.message ∧ s'.delivered = s.delivered := by
  cases a with
  | send act =>
      simp only [Site.step, Option.ite_none_right_eq_some] at h
      obtain ⟨n, -, rfl⟩ := Option.map_eq_some_iff.mp h.2
      exact ⟨rfl, rfl⟩
  | start | stop =>
      simp only [Site.step, Option.ite_none_left_eq_some, Option.some.injEq] at h
      obtain ⟨-, rfl⟩ := h
      exact ⟨(List.append_nil _).symm, rfl⟩
  | orphan =>
      simp only [Site.step, Option.ite_none_right_eq_some, Option.some.injEq] at h
      obtain ⟨-, rfl⟩ := h
      exact ⟨(List.append_nil _).symm, rfl⟩

/-- The message a step of `send_data` is called with. -/
def DeliveryAction.message : DeliveryAction → List (List UInt8)
  | .call data => [data]
  | _ => []

theorem Delivery.step_calls {d d' : Delivery} {a : DeliveryAction} (h : d.step a = some d') :
    d'.calls = d.calls ++ a.message := by
  cases a with
  | accept clnSockDescr =>
      simp only [Delivery.step, Option.ite_none_right_eq_some, Option.some.injEq] at h
      obtain ⟨-, rfl⟩ := h
      exact (List.append_nil _).symm
  | close =>
      simp only [Delivery.step, Option.ite_none_right_eq_some, Option.some.injEq] at h
      obtain ⟨-, rfl⟩ := h
      exact (List.append_nil _).symm
  | clear =>
      simp only [Delivery.step, Option.ite_none_right_eq_some, Option.some.injEq] at h
      obtain ⟨-, rfl⟩ := h
      exact (List.append_nil _).symm
  | call data =>
      simp only [Delivery.step, Delivery.enter, Option.ite_none_right_eq_some,
        Option.some.injEq] at h
      obtain ⟨-, rfl⟩ := h
      rfl
  | write r =>
      simp only [Delivery.step, Delivery.proceed, Option.ite_none_left_eq_some,
        Option.some.injEq] at h
      obtain ⟨-, rfl⟩ := h
      exact (List.append_nil _).symm
  | foreign bs =>
      simp only [Delivery.step, Option.ite_none_right_eq_some, Option.some.injEq] at h
      obtain ⟨-, rfl⟩ := h
      exact (List.append_nil _).symm

/-- The listener thread, which may not take part in a step. -/
theorem Live.exec_queue {v v' : Live} {a : Option LiveAction}
    (h : exec Live.step v a.toList = some v') :
    v'.listener.queuePckRead = v.listener.queuePckRead ++ a.toList.flatMap v.pushes := by
  rcases exec_toList_cases h with ⟨rfl, rfl⟩ | ⟨a, rfl, stepped⟩
  · exact (List.append_nil _).symm
  · rw [Option.toList_some, List.flatMap_singleton]
    exact Live.step_queue stepped

/-- What the parts of a step can be. A step of the thread that does not enqueue, accept or
clear is the thread's alone. -/
inductive Endpoint.Taken (e : Endpoint) : EndpointAction → Parts → Prop where
  | start : Taken e .start ⟨none, some .start, none⟩
  | accept {clnSockDescr : Nat} {alloc : Packet} {bufferMsg : Buffer} :
      Taken e (.thread .accept clnSockDescr alloc bufferMsg)
        ⟨some (.worker .accept), none, some (.accept clnSockDescr)⟩
  | push {clnSockDescr : Nat} {alloc : Packet} {bufferMsg : Buffer} {data : List UInt8} :
      e.live.listener.loc = .pushing data → bufferMsg.bytes data.length = data →
      Taken e (.thread .next clnSockDescr alloc bufferMsg)
        ⟨some (.worker .next), some (.send (.enqueue alloc bufferMsg data.length)), none⟩
  | clear {clnSockDescr : Nat} {alloc : Packet} {bufferMsg : Buffer} :
      e.live.listener.loc = .closeClient →
      Taken e (.thread .next clnSockDescr alloc bufferMsg)
        ⟨some (.worker .next), none, some .clear⟩
  | thread {a : WorkerAction} {clnSockDescr : Nat} {alloc : Packet} {bufferMsg : Buffer} :
      e.live.pushes (.worker a) = [] →
      Taken e (.thread a clnSockDescr alloc bufferMsg) ⟨some (.worker a), none, none⟩
  | close : Taken e .close ⟨none, none, some .close⟩
  | client (a : ClientAction) : Taken e (.client a) ⟨some (.client a), none, none⟩
  | stop : Taken e .stop ⟨some .stop, none, none⟩
  | test : Taken e .test ⟨none, some (.send .test), none⟩
  | pop (clock : ℚ) : Taken e (.pop clock) ⟨none, some (.send (.pop clock)), none⟩
  | write (r : WriteResult) : Taken e (.write r) ⟨none, none, some (.write r)⟩

theorem Endpoint.parts_taken {e : Endpoint} {a : EndpointAction} {p : Parts}
    (h : e.parts a = some p) : e.Taken a p := by
  cases a with
  | thread a clnSockDescr alloc bufferMsg =>
      simp only [Endpoint.parts, Endpoint.threadParts] at h
      split at h
      · cases h
        exact .accept
      · rename_i data loc
        simp only [Option.ite_none_right_eq_some, Option.some.injEq] at h
        obtain ⟨read, rfl⟩ := h
        exact .push loc read
      · rename_i loc
        cases h
        exact .clear loc
      · rename_i a _ _ _ other _
        cases h
        apply Taken.thread
        unfold Live.pushes
        split
        · rename_i same
          split
          · rename_i data loc
            exact absurd loc (other data (LiveAction.worker.inj same))
          · rfl
        · rfl
  | close =>
      simp only [Endpoint.parts, Option.ite_none_right_eq_some, Option.some.injEq] at h
      obtain ⟨-, rfl⟩ := h
      exact .close
  | _ =>
      cases h
      constructor

/-- What is enqueued by the thread is enqueued at the module, and `recv` alone calls
`send_data`. -/
theorem Endpoint.Taken.agree {e : Endpoint} {a : EndpointAction} {p : Parts}
    (taken : e.Taken a p) :
    p.site.toList.flatMap SiteAction.message = p.live.toList.flatMap e.live.pushes ∧
      p.delivery.toList.flatMap DeliveryAction.message = [] := by
  cases taken with
  | push loc read => simp [SiteAction.message, NodeAction.message, Live.pushes, loc, read]
  | clear loc => simp [Live.pushes, loc, DeliveryAction.message]
  | thread silent => simp [silent]
  | _ => exact ⟨rfl, rfl⟩

theorem coupled_init (heap : Nat → Bool) (b : Bound) : Coupled (Endpoint.init heap b) :=
  ⟨rfl, rfl⟩

theorem Coupled.step {e e' : Endpoint} (inv : Coupled e) {a : EndpointAction}
    (h : e.step a = some e') : Coupled e' := by
  obtain ⟨p, parts, live, site, delivery⟩ := Endpoint.step_together h
  obtain ⟨pushed, uncalled⟩ := (Endpoint.parts_taken parts).agree
  have messages := exec_record Site.messages SiteAction.message
    (fun _ _ _ h => (Site.step_messages h).1) site
  have delivered := exec_record Site.delivered (fun _ => [])
    (fun _ _ _ h => (Site.step_messages h).2.trans (List.append_nil _).symm) site
  have calls := exec_record Delivery.calls DeliveryAction.message
    (fun _ _ _ => Delivery.step_calls) delivery
  constructor
  · rw [messages, Live.exec_queue live, inv.messages, pushed]
  · have same : (p.site.toList.flatMap fun _ => ([] : List (List UInt8))) = [] := by simp
    rw [calls, delivered, uncalled, same, inv.calls]

theorem Coupled.recv {e e' : Endpoint} (inv : Coupled e) {a : Arrival}
    (h : e.recv a = some e') : Coupled e' := by
  obtain ⟨live, site, called⟩ := Endpoint.recv_cases h
  have calls := exec_record Delivery.calls DeliveryAction.message
    (fun _ _ _ => Delivery.step_calls) called
  have passed : ∀ sent : List (List UInt8),
      (sent.map DeliveryAction.call).flatMap DeliveryAction.message = sent := by
    intro sent
    rw [List.flatMap_map]
    exact List.flatMap_singleton' sent
  constructor
  · rw [site, live]
    exact inv.messages
  · rw [calls, site, inv.calls, passed]
    rfl

end Coupled

/-! ### All nodes -/

/-- A step of the node `i`, or the arrival of the packet `i` emitted after `k` others at `j`. -/
inductive ExchangeAction (ι : Type*) where
  | node (i : ι) (a : EndpointAction)
  | arrive (i : ι) (k : Nat) (j : ι) (clock : ℚ)

namespace Exchange

variable {ι : Type*}

/-- The modules as constructed. -/
def start (heap : ι → Nat → Bool) (b : ι → Bound) (i : ι) : Endpoint :=
  Endpoint.init (heap i) (b i)

/-- What the lower layers see of the nodes. -/
def sites (net : ι → Endpoint) (i : ι) : Site := (net i).site

variable [DecidableEq ι]

/-- One step as far as no write goes astray; the lower layers are those of `Network.step`. -/
def straightStep (reach : ι → UInt8 → ι → Bool) (net : ι → Endpoint) :
    ExchangeAction ι → Option (ι → Endpoint)
  | .node i a => ((net i).step a).map (Function.update net i)
  | .arrive i k j clock => (net i).site.node.emitted[k]?.bind fun p =>
      if reach i p.daddr j then ((net j).recv ⟨clock, p⟩).map (Function.update net j) else none

/-- What a step writes to a descriptor that is no client's of the node. -/
def stray (net : ι → Endpoint) : ExchangeAction ι → Option (Nat × List UInt8)
  | .node k (.write r) => (net k).delivery.stray r
  | _ => none

/-- It comes in where the number is that of a client. -/
def land (net : ι → Endpoint) (stray : Nat × List UInt8) (j : ι) : Endpoint :=
  let d := (net j).delivery
  if d.listener = .serving ∧ d.clnSockDescr = stray.1 then
    { net j with delivery := d.hit stray.2 }
  else net j

/-- One step. -/
def step (reach : ι → UInt8 → ι → Bool) (net : ι → Endpoint) (a : ExchangeAction ι) :
    Option (ι → Endpoint) :=
  (straightStep reach net a).map fun net' =>
    match stray net a with
    | some bytes => land net' bytes
    | none => net'

theorem sites_update (net : ι → Endpoint) (i : ι) (e : Endpoint) :
    sites (Function.update net i e) = Function.update (sites net) i e.site :=
  Function.comp_update Endpoint.site net i e

/-- What a step can do. -/
theorem step_cases {reach : ι → UInt8 → ι → Bool} {net net' : ι → Endpoint} {a : ExchangeAction ι}
    (h : straightStep reach net a = some net') :
    (∃ i act e, a = .node i act ∧ (net i).step act = some e ∧
        net' = Function.update net i e) ∨
      ∃ (i : ι) (k : Nat) (j : ι) (clock : ℚ) (p : Packet) (e : Endpoint),
        a = .arrive i k j clock ∧ (net i).site.node.emitted[k]? = some p ∧
        reach i p.daddr j = true ∧ (net j).recv ⟨clock, p⟩ = some e ∧ net' = Function.update net j e := by
  cases a with
  | node i act =>
      obtain ⟨e, stepped, rfl⟩ := Option.map_eq_some_iff.mp h
      exact .inl ⟨i, act, e, rfl, stepped, rfl⟩
  | arrive i k j clock =>
      obtain ⟨p, found, h⟩ := Option.bind_eq_some_iff.mp h
      simp only [Option.ite_none_right_eq_some] at h
      obtain ⟨e, received, rfl⟩ := Option.map_eq_some_iff.mp h.2
      exact .inr ⟨i, k, j, clock, p, e, rfl, found, h.1, received, rfl⟩

/-- How steps and arrivals change a node, a step of the network changes every node. -/
theorem each_of_step {R : Endpoint → Endpoint → Prop} (refl : ∀ e, R e e)
    (own : ∀ e a e', e.step a = some e' → R e e')
    (received : ∀ e x e', e.recv x = some e' → R e e') {reach : ι → UInt8 → ι → Bool}
    {net net' : ι → Endpoint} {a : ExchangeAction ι}
    (h : straightStep reach net a = some net') (k : ι) :
    R (net k) (net' k) := by
  rcases step_cases h with
    ⟨i, act, e, -, stepped, rfl⟩ | ⟨i, n, j, clock, p, e, -, -, -, arrived, rfl⟩
  · by_cases same : k = i
    · subst same
      rw [Function.update_self]
      exact own _ _ _ stepped
    · rw [Function.update_of_ne same]
      exact refl _
  · by_cases same : k = j
    · subst same
      rw [Function.update_self]
      exact received _ _ _ arrived
    · rw [Function.update_of_ne same]
      exact refl _

/-- A part of the node `j` sees a step of the network if it sees those that `j` makes and what
arrives at `j`. -/
theorem sees_part {σ β : Type*} {view : Endpoint → σ} {part : σ → β → Option σ}
    {reach : ι → UInt8 → ι → Bool} {net net' : ι → Endpoint} {a : ExchangeAction ι} {j : ι}
    (own : ∀ act e, a = .node j act → (net j).step act = some e →
      ∃ bs, exec part (view (net j)) bs = some (view e))
    (received : ∀ i k clock p e, a = .arrive i k j clock →
      (net i).site.node.emitted[k]? = some p → (net j).recv ⟨clock, p⟩ = some e →
      ∃ bs, exec part (view (net j)) bs = some (view e))
    (h : straightStep reach net a = some net') :
    ∃ bs, exec part (view (net j)) bs = some (view (net' j)) := by
  rcases step_cases h with
    ⟨i, act, e, taken, stepped, rfl⟩ | ⟨i, k, j', clock, p, e, taken, found, -, arrived, rfl⟩
  · by_cases same : j = i
    · subst same
      rw [Function.update_self]
      exact own act e taken stepped
    · rw [Function.update_of_ne same]
      exact ⟨[], rfl⟩
  · by_cases same : j = j'
    · subst same
      rw [Function.update_self]
      exact received i k clock p e taken found arrived
    · rw [Function.update_of_ne same]
      exact ⟨[], rfl⟩

/-- The lower layers see a step of the network, or nothing; an arrival is an arrival. -/
theorem sees_network {reach : ι → UInt8 → ι → Bool} {net net' : ι → Endpoint} {a : ExchangeAction ι}
    (h : straightStep reach net a = some net') :
    ∃ seen : Option (NetworkAction ι),
      exec (Network.step reach) (sites net) seen.toList = some (sites net') ∧
        ∀ i k j clock, seen = some (.arrive i k j clock) → a = .arrive i k j clock := by
  cases a with
  | node i act =>
      obtain ⟨e, stepped, rfl⟩ := Option.map_eq_some_iff.mp h
      obtain ⟨p, -, -, site, -⟩ := Endpoint.step_together stepped
      rw [sites_update]
      rcases exec_toList_cases site with ⟨-, same⟩ | ⟨act, -, stepped⟩
      · rw [same]
        exact ⟨none, congrArg some (Function.update_eq_self i (sites net)).symm, nofun⟩
      · refine ⟨some (.site i act), Option.bind_eq_some_iff.mpr ⟨_, ?_, rfl⟩, nofun⟩
        exact Option.map_eq_some_iff.mpr ⟨_, stepped, rfl⟩
  | arrive i k j clock =>
      obtain ⟨p, found, h⟩ := Option.bind_eq_some_iff.mp h
      simp only [Option.ite_none_right_eq_some] at h
      obtain ⟨address, h⟩ := h
      obtain ⟨e, received, rfl⟩ := Option.map_eq_some_iff.mp h
      obtain ⟨-, site, -⟩ := Endpoint.recv_cases received
      rw [sites_update, site]
      refine ⟨some (.arrive i k j clock), Option.bind_eq_some_iff.mpr ⟨_, ?_, rfl⟩, ?_⟩
      · exact Option.bind_eq_some_iff.mpr ⟨p, found, if_pos address⟩
      · rintro _ _ _ _ ⟨⟩
        rfl

end Exchange

/-! ### What is asked of reads and writes -/

namespace Endpoint

/-- If the step is a `read`, it returns all it asks for, or nothing. -/
def reads (e : Endpoint) : EndpointAction → Bool
  | .thread a _ _ _ => LiveAction.whole e.live.listener (.worker a)
  | _ => true

/-- If the step is an `accept` or a `write`, it is an orderly one. -/
def writes (e : Endpoint) : EndpointAction → Bool
  | .thread .accept clnSockDescr _ _ => e.delivery.orderly (.accept clnSockDescr)
  | .write r => e.delivery.orderly (.write r)
  | _ => true

end Endpoint

namespace Exchange

variable {ι : Type*} [DecidableEq ι]

/-- The reads of the node `i` are whole. -/
def reading (i : ι) (net : ι → Endpoint) : ExchangeAction ι → Bool
  | .node k a => k != i || (net k).reads a
  | .arrive _ _ _ _ => true

/-- The writes of the node `j` are orderly. -/
def writing (j : ι) (net : ι → Endpoint) : ExchangeAction ι → Bool
  | .node k a => k != j || (net k).writes a
  | .arrive _ _ _ _ => true

/-- No write goes astray, at any node. -/
def straight (net : ι → Endpoint) (a : ExchangeAction ι) : Bool := (stray net a).isNone

/-- What is asked of the sender, of the receiver and of all nodes. -/
def orderly (i j : ι) (net : ι → Endpoint) (a : ExchangeAction ι) : Bool :=
  reading i net a && writing j net a && straight net a

theorem step_eq_of_straight {reach : ι → UInt8 → ι → Bool} {net : ι → Endpoint}
    {a : ExchangeAction ι} (met : straight net a = true) :
    step reach net a = straightStep reach net a := by
  rw [step, Option.isNone_iff_eq_none.mp met]
  exact Option.map_id' ..

/-- Such a run is one of the parts alone. -/
theorem straight_run {reach : ι → UInt8 → ι → Bool} {net net' : ι → Endpoint}
    {moves : List (Move (ι → Endpoint) (ExchangeAction ι))}
    (run : Run (step reach) net moves net')
    (straight : ∀ m ∈ moves, Exchange.straight m.before m.action = true) :
    Run (straightStep reach) net moves net' :=
  run.of_same_moves fun m hm => step_eq_of_straight (straight m hm)

/-- An orderly run, and what it gives the parts. -/
theorem orderly_run {reach : ι → UInt8 → ι → Bool} {net net' : ι → Endpoint} {i j : ι}
    {moves : List (Move (ι → Endpoint) (ExchangeAction ι))}
    (run : Run (step reach) net moves net')
    (orderly : ∀ m ∈ moves, Exchange.orderly i j m.before m.action = true) :
    Run (straightStep reach) net moves net' ∧
      (∀ m ∈ moves, reading i m.before m.action = true) ∧
      ∀ m ∈ moves, writing j m.before m.action = true := by
  simp only [Exchange.orderly, Bool.and_eq_true] at orderly
  exact ⟨straight_run run fun m hm => (orderly m hm).2, fun m hm => (orderly m hm).1.1,
    fun m hm => (orderly m hm).1.2⟩

theorem reading_node {i : ι} {net : ι → Endpoint} {act : EndpointAction}
    (h : reading i net (.node i act) = true) : (net i).reads act = true := by
  simpa only [reading, bne_self_eq_false, Bool.false_or] using h

theorem writing_node {j : ι} {net : ι → Endpoint} {act : EndpointAction}
    (h : writing j net (.node j act) = true) : (net j).writes act = true := by
  simpa only [writing, bne_self_eq_false, Bool.false_or] using h

end Exchange

/-! ### A run seen by its parts -/

section Views

/-- The steps of the thread and its clients whose reads are whole. -/
def Live.wholeStep : Live → LiveAction → Option Live :=
  guarded (fun v a => a.whole v.listener) Live.step

/-- The orderly steps of `send_data` and the thread. -/
def Delivery.orderlyStep : Delivery → DeliveryAction → Option Delivery :=
  guarded Delivery.orderly Delivery.step

variable {e e' : Endpoint} {a : EndpointAction}

theorem Endpoint.sees_live (h : e.step a = some e') (reads : e.reads a = true) :
    ∃ bs, exec Live.wholeStep e.live bs = some e'.live := by
  obtain ⟨p, parts, live, -, -⟩ := Endpoint.step_together h
  refine ⟨p.live.toList, exec_guarded (fun b part => ?_) live⟩
  cases Endpoint.parts_taken parts <;> cases part <;> exact reads

theorem Endpoint.sees_delivery (h : e.step a = some e') (writes : e.writes a = true) :
    ∃ bs, exec Delivery.orderlyStep e.delivery bs = some e'.delivery := by
  obtain ⟨p, parts, -, -, delivery⟩ := Endpoint.step_together h
  refine ⟨p.delivery.toList, exec_guarded (fun b part => ?_) delivery⟩
  cases Endpoint.parts_taken parts <;> cases part <;> exact writes

/-- A packet that passes every check is a call of `send_data`. -/
theorem Endpoint.recv_sees_delivery {x : Arrival} (h : e.recv x = some e')
    (sized : 1 ≤ x.packet.payload.length ∧ x.packet.payload.length ≤ maxLengthPayload) :
    ∃ bs, exec Delivery.orderlyStep e.delivery bs = some e'.delivery := by
  obtain ⟨-, -, called⟩ := Endpoint.recv_cases h
  rw [UwAppNetModule.sent_statistics] at called
  split at called
  · refine ⟨(some (DeliveryAction.call x.packet.payload)).toList, exec_guarded ?_ called⟩
    rintro _ ⟨⟩
    exact decide_eq_true ⟨sized.1, lt_of_le_of_lt sized.2 (by decide)⟩
  · exact ⟨[], called⟩

end Views

section Run

variable {ι : Type*} {reach : ι → UInt8 → ι → Bool} {heap : ι → Nat → Bool} {b : ι → Bound}
  {net net' : ι → Endpoint} {moves : List (Move (ι → Endpoint) (ExchangeAction ι))} {i j : ι}
  {a : ExchangeAction ι}

/-- What an emitted packet carries has the size of a message. -/
theorem sized_of_emitted (inv : Networked reach heap b (Exchange.sites net)) {p : Packet}
    (emitted : p ∈ (net i).site.node.emitted) :
    1 ≤ p.payload.length ∧ p.payload.length ≤ maxLengthPayload := by
  have sound := inv.sound i
  refine sound.sized _ (sound.messages.subset ?_)
  rw [List.map_append]
  exact List.mem_append_left _ (List.mem_map_of_mem emitted)

variable [DecidableEq ι]

/-- The lower layers and the modules keep their invariant. -/
theorem networked_of_step (inv : Networked reach heap b (Exchange.sites net))
    (h : Exchange.straightStep reach net a = some net') :
    Networked reach heap b (Exchange.sites net') := by
  obtain ⟨bs, seen, -⟩ := Exchange.sees_network h
  obtain ⟨moves, run, -⟩ := run_of_exec seen
  exact run.invariant inv fun _ _ _ inv h => inv.step h

/-- A node that one sender reaches hears this one only. -/
theorem hearsOnly_run (run : Run (Exchange.straightStep reach) (Exchange.start heap b) moves net)
    (only : ∀ k, reach k (b k).destAddr j = true → k = i) : HearsOnly (Exchange.sites net) i j := by
  have inv : Networked reach heap b (Exchange.sites net) :=
    run.invariant (networked_start reach heap b) fun _ _ _ inv h => networked_of_step inv h
  exact inv.hearsOnly only

/-- The parts of every node agree. -/
def Exchange.AllCoupled (net : ι → Endpoint) : Prop := ∀ k, Coupled (net k)

theorem coupled_of_step (inv : Exchange.AllCoupled net)
    (h : Exchange.straightStep reach net a = some net') : Exchange.AllCoupled net' :=
  fun k => Exchange.each_of_step (R := fun e e' => Coupled e → Coupled e') (fun _ inv => inv)
    (fun _ _ _ h inv => inv.step h) (fun _ _ _ h inv => inv.recv h) h k (inv k)

theorem coupled_run (run : Run (Exchange.straightStep reach) (Exchange.start heap b) moves net) :
    Exchange.AllCoupled net :=
  run.invariant (fun k => coupled_init (heap k) (b k)) fun _ _ _ inv h => coupled_of_step inv h

theorem sees_live
    (h : guarded (Exchange.reading i) (Exchange.straightStep reach) net a = some net') :
    ∃ bs, exec Live.wholeStep (net i).live bs = some (net' i).live := by
  simp only [guarded, Option.ite_none_right_eq_some] at h
  obtain ⟨reading, h⟩ := h
  refine Exchange.sees_part ?_ ?_ h
  · rintro act e rfl stepped
    exact Endpoint.sees_live stepped (Exchange.reading_node reading)
  · intro _ _ _ _ _ _ _ received
    rw [(Endpoint.recv_cases received).1]
    exact ⟨[], rfl⟩

theorem sees_delivery (inv : Networked reach heap b (Exchange.sites net))
    (h : guarded (Exchange.writing j) (Exchange.straightStep reach) net a = some net') :
    ∃ bs, exec Delivery.orderlyStep (net j).delivery bs = some (net' j).delivery := by
  simp only [guarded, Option.ite_none_right_eq_some] at h
  obtain ⟨writing, h⟩ := h
  refine Exchange.sees_part ?_ ?_ h
  · rintro act e rfl stepped
    exact Endpoint.sees_delivery stepped (Exchange.writing_node writing)
  · intro _ _ _ _ _ _ found received
    exact Endpoint.recv_sees_delivery received
      (sized_of_emitted inv (List.mem_of_getElem? found))

/-- The thread of a node sees a run of its own, all reads whole. -/
theorem sees_live_run (run : Run (Exchange.straightStep reach) (Exchange.start heap b) moves net)
    (reading : ∀ m ∈ moves, Exchange.reading i m.before m.action = true) :
    ∃ moves, Run Live.step (Live.start (UInt16.ofInt (b i).destPort)) moves (net i).live ∧
      ∀ m ∈ moves, m.action.whole m.before.listener = true := by
  obtain ⟨_, seen⟩ := (run.to_guarded reading).simulate (fun net => (net i).live) (fun _ => True)
    trivial (fun _ _ _ _ _ => trivial) fun _ _ _ _ h => sees_live h
  exact ⟨_, seen.of_guarded⟩

/-- The lower layers keep their invariant in a run some of whose steps are left out. -/
theorem networked_of_guarded {guard : (ι → Endpoint) → ExchangeAction ι → Bool}
    (inv : Networked reach heap b (Exchange.sites net))
    (h : guarded guard (Exchange.straightStep reach) net a = some net') :
    Networked reach heap b (Exchange.sites net') := by
  simp only [guarded, Option.ite_none_right_eq_some] at h
  exact networked_of_step inv h.2

/-- The connections of a node see an orderly run. -/
theorem sees_delivery_run
    (run : Run (Exchange.straightStep reach) (Exchange.start heap b) moves net)
    (writing : ∀ m ∈ moves, Exchange.writing j m.before m.action = true) :
    ∃ moves, Run Delivery.step .start moves (net j).delivery ∧
      ∀ m ∈ moves, m.before.orderly m.action = true := by
  obtain ⟨_, seen⟩ := (run.to_guarded writing).simulate (fun net => (net j).delivery) _
    (networked_start reach heap b) (fun _ _ _ inv h => networked_of_guarded inv h)
    fun _ _ _ inv h => sees_delivery inv h
  exact ⟨_, seen.of_guarded⟩

/-- The calls of `send_data` at a node in drop mode that hears one sender are a subsequence of
the messages the sender took from its clients. -/
theorem calls_sublist (run : Run (Exchange.straightStep reach) (Exchange.start heap b) moves net)
    (reading : ∀ m ∈ moves, Exchange.reading i m.before m.action = true)
    (drop : (b j).dropOutOfOrder = 1) (only : HearsOnly (Exchange.sites net) i j)
    (few : (net i).site.node.emitted.length < 65534) :
    (net j).delivery.calls.Sublist
      ((net i).live.transcripts.flatMap fun t => takenMessages t.sent) := by
  have coupled := coupled_run run
  obtain ⟨_, network⟩ := run.simulate Exchange.sites (fun _ => True) trivial
    (fun _ _ _ _ _ => trivial) fun _ _ _ _ h =>
      let ⟨seen, executed, _⟩ := Exchange.sees_network h
      ⟨seen.toList, executed⟩
  have order := (networked_run network).delivered_sublist drop only few
  obtain ⟨_, thread, whole⟩ := sees_live_run run reading
  have intake := (synced_run thread whole).faithful
  calc (net j).delivery.calls = (net j).site.delivered := (coupled j).calls
    List.Sublist _ (net i).site.messages := order
    _ = (net i).live.listener.queuePckRead := (coupled i).messages
    _ = (net i).live.transcripts.flatMap Transcript.pushed := intake.queue
    List.Sublist _ ((net i).live.transcripts.flatMap fun t => takenMessages t.sent) :=
      List.Sublist.flatMap_right _ fun t ht => (intake.pushed ht).sublist

/-! ### From bytes to bytes -/

/-- What the clients of a node in drop mode can read from their connections, one connection
after the other, is a subsequence of what the only sender it hears took from its clients:
whatever is lost, repeated and reordered between the nodes, and however clients, threads, timers
and arrivals take turns, as long as the sender's reads are whole, the receiver's writes and
accepts orderly and no write goes astray. -/
theorem bytes_to_bytes (run : Run (Exchange.step reach) (Exchange.start heap b) moves net)
    (orderly : ∀ m ∈ moves, Exchange.orderly i j m.before m.action = true)
    (drop : (b j).dropOutOfOrder = 1) (only : HearsOnly (Exchange.sites net) i j)
    (few : (net i).site.node.emitted.length < 65534) :
    ((net j).delivery.streams.flatMap ClientStream.messages).Sublist
      ((net i).live.transcripts.flatMap fun t => takenMessages t.sent) := by
  obtain ⟨run, reading, writing⟩ := Exchange.orderly_run run orderly
  obtain ⟨_, sending, met⟩ := sees_delivery_run run writing
  have delivered := (delivering_run sending met).delivered
  exact delivered.calls.trans (calls_sublist run reading drop only few)

end Run

/-- One node's thread from its start to a client that is served, whose descriptor is 5 at node 1
and 6 at node 2. -/
def served (node : Bool) : List (ExchangeAction Bool) :=
  let go (a : WorkerAction) : ExchangeAction Bool :=
    .node node (.thread a (if node then 6 else 5) (oneBytePacket 0) fun _ => 0)
  [.node node .start, go .next, go .next, go .next, .node node (.client .connect), go .accept,
    go .next]

/-- A client of node 1 sends two messages, the second one in two parts, and both are handed
down. -/
def exchangeSends : List (ExchangeAction Bool) :=
  let go (a : WorkerAction) : ExchangeAction Bool :=
    .node false (.thread a 0 (oneBytePacket 0) fun i => if i = 0 then 7 else 8)
  let send (bs : List UInt8) : ExchangeAction Bool := .node false (.client (.send none bs))
  served false ++ served true ++
    [send (frame [7] ++ (frame [7, 8]).take 5),
      go (.select true), go (.read 4 staleStack), go (.read 4 staleStack),
      go (.read 1 staleStack), go .next, go .next,
      go (.select true), go (.read 4 staleStack), send ((frame [7, 8]).drop 5),
      go (.read 4 staleStack), go (.read 2 staleStack), go .next,
      .node false .test, .node false (.pop 1), .node false .test, .node false (.pop 2)]

/-- Of their packets the first is lost and the second comes twice. -/
def exchangeRun : List (ExchangeAction Bool) :=
  exchangeSends ++
    [.arrive false 1 true 3, .node true (.write (.count 4)), .node true (.write (.count 4)),
      .node true (.write (.count 2)), .arrive false 1 true 4]

/-- The client of node 2 reads the second message, once. -/
theorem second_message_exchanged : ∃ moves net,
    Run (Exchange.step pairReach) (Exchange.start (fun _ _ => false) pairBound) moves net ∧
      (net true).delivery.current.text = frame [7, 8] ∧
      ((net true).delivery.streams.flatMap ClientStream.messages).Sublist
        ((net false).live.transcripts.flatMap fun t => takenMessages t.sent) := by
  have ran : (exec (guarded (Exchange.orderly false true) (Exchange.step pairReach))
      (Exchange.start (fun _ _ => false) pairBound) exchangeRun).map
        (fun net => ((net true).delivery.current.text, (net false).site.node.emitted.length)) =
      some (frame [7, 8], 2) := by decide +kernel
  obtain ⟨net, executed, same⟩ := Option.map_eq_some_iff.mp ran
  obtain ⟨moves, run, -⟩ := run_of_exec executed
  obtain ⟨run, orderly⟩ := run.of_guarded
  obtain ⟨text, emitted⟩ := Prod.mk.inj same
  have straight := (Exchange.orderly_run run orderly).1
  refine ⟨moves, net, run, text, bytes_to_bytes run orderly rfl ?_ ?_⟩
  · exact hearsOnly_run straight (by decide)
  · rw [emitted]
    decide

end UwAppNet
