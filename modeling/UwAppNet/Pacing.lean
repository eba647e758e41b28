import UwAppNet.Network
import UwAppNet.Lib.Spacing
import UwAppNet.Lib.Simulation

/-!
The sending timer: `uwSendTimerAppl`, `PERIOD`, and the commands that set and cancel it.

The simulator's `TimerHandler` is not part of the repository. It is a parameter, of which
the module uses `resched`, `force_cancel` and that `expire` is called when the time of the
pending event has come. Nothing is asked about how late it is called: a real-time
scheduler lags. The results say how often a node sends, which expiration sends which
message, and, where time waits for the timer as in a plain simulation, at what time. The
simulator's times, doubles there, are exact rationals here.
-/

namespace UwAppNet

open Spacing Transition

/-- The simulator's timers. `due t` is the time of the pending event of `t`; `handle` is
what happens to the timer between the event and the call of `expire`. -/
structure TimerHandler (τ : Type*) where
  idle : τ
  due : τ → Option ℚ
  resched : τ → ℚ → ℚ → τ
  forceCancel : τ → τ
  handle : τ → τ
  due_idle : due idle = none
  due_resched : ∀ t clock delay, due (resched t clock delay) = some (clock + delay)
  due_forceCancel : ∀ t, due (forceCancel t) = none
  due_handle : ∀ t, due (handle t) = none

/-- A timer that is nothing but the time of its event. -/
def eventTimer : TimerHandler (Option ℚ) where
  idle := none
  due := id
  resched _ clock delay := some (clock + delay)
  forceCancel _ := none
  handle _ := none
  due_idle := rfl
  due_resched _ _ _ := rfl
  due_forceCancel _ := rfl
  due_handle _ := rfl

/-- A node with its timer and the simulator's clock. `expiring` holds while the scheduler is
inside `expire`. -/
structure Pacer (τ : Type*) where
  site : Site
  timer : τ
  period : ℚ
  clock : ℚ
  expiring : Bool

/-- The listener thread; packets, commands and the bound `period_` between two events; the
clock; and `expire`: up to the emptiness test, the rest of `init_Packet_TCP`, and the
`resched` at its end. -/
inductive PacerAction where
  | enqueue (alloc : Packet) (bufferMsg : Buffer) (recvMsgSize : Nat)
  | recv (p : Packet)
  | start (setup : Bool)
  | stop
  | setPeriod (period : ℚ)
  | advance (clock : ℚ)
  | expire
  | pop
  | resched

/-- A command that ends or replaces the listener. -/
def PacerAction.replaces : PacerAction → Bool
  | .start _ | .stop => true
  | _ => false

namespace Pacer

variable {τ : Type*}

/-- A module as constructed, at time 0. -/
def init (T : TimerHandler τ) (heap : Nat → Bool) (b : Bound) (period : ℚ) : Pacer τ where
  site := Site.init heap b
  timer := T.idle
  period := period
  clock := 0
  expiring := false

/-- `if (m_->p_tcp_listener) init_Packet_TCP()`, as far as the emptiness test. -/
def test (s : Site) : Site := if s.node.mod.pTcpListener then { s with node := s.node.test } else s

/-- `start` sets the timer only after a successful `Setup`; the pointer it sets anyway. -/
def start (T : TimerHandler τ) (s : Pacer τ) (setup : Bool) : Pacer τ :=
  { s with
    site := s.site.setListener true (s.site.replaced || s.site.node.mod.pTcpListener)
    timer := if setup then T.resched s.timer s.clock s.period else s.timer }

def stop (T : TimerHandler τ) (s : Pacer τ) : Pacer τ :=
  { s with
    site := s.site.setListener false s.site.replaced
    timer := T.forceCancel s.timer }

/-- One step. The scheduler does nothing else while it is inside `expire`. -/
def step (T : TimerHandler τ) (s : Pacer τ) : PacerAction → Option (Pacer τ)
  | .enqueue alloc bufferMsg recvMsgSize =>
      (s.site.step (.send (.enqueue alloc bufferMsg recvMsgSize))).map fun site =>
        { s with site := site }
  | .recv p => if s.expiring then none else some { s with site := s.site.recv ⟨s.clock, p⟩ }
  | .start setup => if s.expiring then none else some (s.start T setup)
  | .stop => if s.expiring then none else some (s.stop T)
  | .setPeriod period => if s.expiring then none else some { s with period := period }
  | .advance clock => if s.clock ≤ clock then some { s with clock := clock } else none
  | .expire => (T.due s.timer).bind fun due =>
      if s.expiring = false ∧ due ≤ s.clock then
        some { s with site := test s.site, timer := T.handle s.timer, expiring := true }
      else none
  | .pop =>
      (s.site.step (.send (.pop s.clock))).map fun site => { s with site := site }
  | .resched =>
      if s.expiring = true ∧ s.site.node.popping = false then
        some { s with timer := T.resched s.timer s.clock s.period, expiring := false }
      else none

/-- The node after `init_Packet_TCP` took `ptmp` off the queue and `rest` is left. -/
def sent (s : Pacer τ) (ptmp : Packet) (rest : List Packet) : Pacer τ :=
  let filled := s.site.node.mod.fillHeaders s.clock ptmp
  { s with site := { s.site with
      node := {
        mod := filled.2
        queuePckRead := rest
        popping := false
        sentDown := s.site.node.sentDown ++ [⟨filled.1, filled.2.getPktSent⟩] } } }

/-- What a step can be. -/
inductive Effect (T : TimerHandler τ) (s : Pacer τ) : PacerAction → Pacer τ → Prop where
  | enqueue {alloc : Packet} {bufferMsg : Buffer} {recvMsgSize : Nat} :
      s.site.node.mod.pTcpListener = true →
      Effect T s (.enqueue alloc bufferMsg recvMsgSize) { s with
        site := { s.site with
          node := s.site.node.enqueue (makePacket alloc bufferMsg recvMsgSize)
          messages := s.site.messages ++ [bufferMsg.bytes recvMsgSize] } }
  | recv (p : Packet) : s.expiring = false →
      Effect T s (.recv p) { s with site := s.site.recv ⟨s.clock, p⟩ }
  | start (setup : Bool) : s.expiring = false → Effect T s (.start setup) (s.start T setup)
  | stop : s.expiring = false → Effect T s .stop (s.stop T)
  | setPeriod (period : ℚ) : s.expiring = false →
      Effect T s (.setPeriod period) { s with period := period }
  | advance {clock : ℚ} : s.clock ≤ clock → Effect T s (.advance clock) { s with clock := clock }
  | expire {due : ℚ} : T.due s.timer = some due → s.expiring = false → due ≤ s.clock →
      Effect T s .expire { s with
        site := test s.site, timer := T.handle s.timer, expiring := true }
  | pop {ptmp : Packet} {rest : List Packet} : s.site.node.popping = true →
      s.site.node.queuePckRead = ptmp :: rest → Effect T s .pop (s.sent ptmp rest)
  | resched : s.expiring = true → s.site.node.popping = false →
      Effect T s .resched { s with
        timer := T.resched s.timer s.clock s.period, expiring := false }

theorem step_effect {T : TimerHandler τ} {s s' : Pacer τ} {a : PacerAction}
    (h : s.step T a = some s') : s.Effect T a s' := by
  cases a with
  | enqueue alloc bufferMsg recvMsgSize =>
      obtain ⟨site, stepped, rfl⟩ := Option.map_eq_some_iff.mp h
      simp only [Site.step, Node.step, Option.ite_none_right_eq_some,
        Option.map_eq_some_iff, Option.some.injEq] at stepped
      obtain ⟨listener, n, ⟨-, rfl⟩, rfl⟩ := stepped
      exact .enqueue listener
  | recv p =>
      simp only [step, Option.ite_none_left_eq_some, Bool.not_eq_true, Option.some.injEq] at h
      obtain ⟨idle, rfl⟩ := h
      exact .recv p idle
  | start setup =>
      simp only [step, Option.ite_none_left_eq_some, Bool.not_eq_true, Option.some.injEq] at h
      obtain ⟨idle, rfl⟩ := h
      exact .start setup idle
  | stop =>
      simp only [step, Option.ite_none_left_eq_some, Bool.not_eq_true, Option.some.injEq] at h
      obtain ⟨idle, rfl⟩ := h
      exact .stop idle
  | setPeriod period =>
      simp only [step, Option.ite_none_left_eq_some, Bool.not_eq_true, Option.some.injEq] at h
      obtain ⟨idle, rfl⟩ := h
      exact .setPeriod period idle
  | advance clock =>
      simp only [step, Option.ite_none_right_eq_some, Option.some.injEq] at h
      obtain ⟨later, rfl⟩ := h
      exact .advance later
  | expire =>
      obtain ⟨due, pending, h⟩ := Option.bind_eq_some_iff.mp h
      simp only [Option.ite_none_right_eq_some, Option.some.injEq] at h
      obtain ⟨⟨idle, reached⟩, rfl⟩ := h
      exact .expire pending idle reached
  | pop =>
      obtain ⟨site, stepped, rfl⟩ := Option.map_eq_some_iff.mp h
      simp only [Site.step, Option.ite_none_right_eq_some] at stepped
      obtain ⟨n, popped, rfl⟩ := Option.map_eq_some_iff.mp stepped.2
      rcases Node.step_cases popped with
        ⟨_, _, _, wrong, -⟩ | ⟨wrong, -⟩ | ⟨clock, ptmp, rest, same, popping, queue, rfl⟩
      · cases wrong
      · cases wrong
      · cases same
        simp only [NodeAction.message, List.append_nil]
        exact .pop popping queue
  | resched =>
      simp only [step, Option.ite_none_right_eq_some, Option.some.injEq] at h
      obtain ⟨⟨expiring, tested⟩, rfl⟩ := h
      exact .resched expiring tested

/-! ### The phases of the timer -/

/-- How the timer, the listener and the queue go together: a pending or handled timer finds
a listener, and `init_Packet_TCP` runs inside `expire` only. -/
structure Phased (T : TimerHandler τ) (s : Pacer τ) : Prop where
  handling : s.expiring = true → T.due s.timer = none
  popping : s.site.node.popping = true → s.expiring = true
  queue : s.site.node.queuePckRead ≠ [] → s.site.node.mod.pTcpListener = true
  listener : s.expiring = true ∨ (T.due s.timer).isSome = true →
    s.site.node.mod.pTcpListener = true

section Phases

variable {T : TimerHandler τ} {s s' : Pacer τ} {a : PacerAction}

theorem phased_init (T : TimerHandler τ) (heap : Nat → Bool) (b : Bound) (period : ℚ) :
    (init T heap b period).Phased T where
  handling := by simp [init]
  popping := by simp [init, Site.init]
  queue := by simp [init, Site.init]
  listener := by simp [init, T.due_idle]

theorem Phased.not_popping (inv : s.Phased T) (idle : s.expiring = false) :
    s.site.node.popping = false := by
  by_contra popping
  have inside := inv.popping (Bool.not_eq_false _ ▸ popping)
  rw [idle] at inside
  cases inside

theorem Phased.expire_listener (inv : s.Phased T) (h : s.step T .expire = some s') :
    s.site.node.mod.pTcpListener = true := by
  cases step_effect h with
  | expire pending idle reached => exact inv.listener (.inr (by rw [pending]; rfl))

/-- Inside `expire` the test is made on a listener. -/
theorem Phased.test_eq (inv : s.Phased T) {due : ℚ} (pending : T.due s.timer = some due) :
    test s.site = { s.site with node := s.site.node.test } := by
  rw [test, if_pos (inv.listener (.inr (by rw [pending]; rfl)))]

theorem Phased.step (inv : s.Phased T) (h : s.step T a = some s') : s'.Phased T := by
  cases step_effect h with
  | enqueue listener => exact ⟨inv.handling, inv.popping, fun _ => listener, fun _ => listener⟩
  | recv p idle =>
      have same : (s.site.recv ⟨s.clock, p⟩).node.mod.pTcpListener =
          s.site.node.mod.pTcpListener := UwAppNetModule.statistics_pTcpListener ..
      refine ⟨inv.handling, inv.popping, fun queued => ?_, fun live => ?_⟩
      · exact same.trans (inv.queue queued)
      · exact same.trans (inv.listener live)
  | start setup idle =>
      have outside : (s.start T setup).expiring = false := idle
      refine ⟨fun inside => ?_, inv.popping, fun _ => rfl, fun _ => rfl⟩
      rw [outside] at inside
      cases inside
  | stop idle =>
      refine ⟨fun _ => T.due_forceCancel _, inv.popping, fun queued => absurd rfl queued, ?_⟩
      simp [stop, idle, T.due_forceCancel]
  | setPeriod period idle => exact ⟨inv.handling, inv.popping, inv.queue, inv.listener⟩
  | advance later => exact ⟨inv.handling, inv.popping, inv.queue, inv.listener⟩
  | expire pending idle reached =>
      have listener := inv.listener (.inr (by rw [pending]; rfl))
      rw [inv.test_eq pending]
      exact ⟨fun _ => T.due_handle _, fun _ => rfl, fun _ => listener, fun _ => listener⟩
  | pop popping queue =>
      have listener := inv.listener (.inl (inv.popping popping))
      exact ⟨inv.handling, nofun, fun _ => listener, fun _ => listener⟩
  | resched inside tested =>
      have listener := inv.listener (.inl inside)
      refine ⟨nofun, fun popping => ?_, fun _ => listener, fun _ => listener⟩
      rw [tested] at popping
      cases popping

theorem phased_run {heap : Nat → Bool} {b : Bound} {period : ℚ}
    {moves : List (Move (Pacer τ) PacerAction)}
    (run : Run (Pacer.step T) (init T heap b period) moves s) : s.Phased T :=
  run.invariant (phased_init T heap b period) fun _ _ _ inv h => inv.step h

end Phases

/-! ### How often a node sends -/

/-- The times in the packets handed down: `ch->timestamp()` is the clock at that moment. -/
def sendTimes (s : Pacer τ) : List ℚ := s.site.node.emitted.map fun p => p.ch.timestamp

@[simp] theorem sendTimes_sent (s : Pacer τ) (ptmp : Packet) (rest : List Packet) :
    (s.sent ptmp rest).sendTimes = s.sendTimes ++ [s.clock] := by
  simp only [sendTimes, Node.emitted, sent, List.map_append, List.map_cons, List.map_nil]
  rfl

/-- A node that sends no faster than once in `gap`, and why: nothing is due, and no packet
under way, before the last one is `gap` old. -/
structure Paced (T : TimerHandler τ) (gap : ℚ) (s : Pacer τ) : Prop extends Phased T s where
  period : gap ≤ s.period
  spaced : Spaced gap s.sendTimes
  past : ∀ x ∈ s.sendTimes, x ≤ s.clock
  due : ∀ due, T.due s.timer = some due → ∀ x ∈ s.sendTimes, x + gap ≤ due
  cleared : s.site.node.popping = true → ∀ x ∈ s.sendTimes, x + gap ≤ s.clock

section Rate

variable {T : TimerHandler τ} {gap : ℚ} {s s' : Pacer τ} {a : PacerAction}

theorem paced_init (T : TimerHandler τ) (heap : Nat → Bool) (b : Bound) {period : ℚ}
    (slow : gap ≤ period) : (init T heap b period).Paced T gap where
  toPhased := phased_init T heap b period
  period := slow
  spaced := spaced_nil gap
  past := by simp [init, Site.init, sendTimes, Node.emitted]
  due := by simp [init, T.due_idle]
  cleared := by simp [init, Site.init]

/-- A timer set now is due a period after the last packet at the earliest. -/
theorem Paced.resched (inv : s.Paced T gap) {due : ℚ}
    (set : T.due (T.resched s.timer s.clock s.period) = some due) :
    ∀ x ∈ s.sendTimes, x + gap ≤ due := by
  intro x hx
  rw [T.due_resched, Option.some.injEq] at set
  rw [← set]
  exact add_le_add (inv.past x hx) inv.period

theorem Paced.step (inv : s.Paced T gap)
    (slow : ∀ period, a = .setPeriod period → gap ≤ period) (h : s.step T a = some s') :
    s'.Paced T gap := by
  have phased := inv.toPhased.step h
  cases step_effect h with
  | enqueue listener => exact ⟨phased, inv.period, inv.spaced, inv.past, inv.due, inv.cleared⟩
  | recv p idle => exact ⟨phased, inv.period, inv.spaced, inv.past, inv.due, inv.cleared⟩
  | start setup idle =>
      refine ⟨phased, inv.period, inv.spaced, inv.past, fun due pending => ?_, inv.cleared⟩
      cases setup with
      | false => exact inv.due due pending
      | true => exact inv.resched pending
  | stop idle =>
      refine ⟨phased, inv.period, inv.spaced, inv.past, fun due pending => ?_, inv.cleared⟩
      rw [stop, T.due_forceCancel] at pending
      cases pending
  | setPeriod period idle =>
      exact ⟨phased, slow period rfl, inv.spaced, inv.past, inv.due, inv.cleared⟩
  | advance later =>
      refine ⟨phased, inv.period, inv.spaced, fun x hx => (inv.past x hx).trans later, inv.due, ?_⟩
      exact fun popping x hx => (inv.cleared popping x hx).trans later
  | @expire due pending idle reached =>
      rw [inv.test_eq pending] at phased ⊢
      refine ⟨phased, inv.period, inv.spaced, inv.past, fun due' pending' => ?_, fun _ x hx => ?_⟩
      · rw [T.due_handle] at pending'
        cases pending'
      · exact (inv.due due pending x hx).trans reached
  | pop popping queue =>
      refine ⟨phased, inv.period, ?_, ?_, fun due pending => ?_, nofun⟩
      · rw [sendTimes_sent]
        exact inv.spaced.concat (inv.cleared popping)
      · rw [sendTimes_sent]
        exact List.forall_mem_append.mpr
          ⟨inv.past, List.forall_mem_singleton.mpr (le_refl s.clock)⟩
      · have none : T.due s.timer = none := inv.handling (inv.popping popping)
        rw [sent, none] at pending
        cases pending
  | resched inside tested =>
      refine ⟨phased, inv.period, inv.spaced, inv.past, fun due pending => inv.resched pending, ?_⟩
      exact inv.cleared

variable {heap : Nat → Bool} {b : Bound} {period : ℚ} {moves : List (Move (Pacer τ) PacerAction)}

theorem paced_run (run : Run (Pacer.step T) (init T heap b period) moves s) (slow : gap ≤ period)
    (slower : ∀ m ∈ moves, ∀ period, m.action = .setPeriod period → gap ≤ period) :
    s.Paced T gap :=
  run.invariant_of (paced_init T heap b slow) slower fun _ _ _ inv slow h => inv.step slow h

end Rate

/-! ### When the timer is set -/

/-- The timer is pending, or `expire` is about to set it again. -/
def armed (T : TimerHandler τ) (s : Pacer τ) : Bool := (T.due s.timer).isSome || s.expiring

/-- The last command: a `start` whose `Setup` succeeded, rather than none or a `stop`. -/
def startedLast (actions : List PacerAction) : Bool :=
  actions.foldl (fun started a =>
    match a with
    | .start true => true
    | .stop => false
    | _ => started) false

theorem armed_step {T : TimerHandler τ} {s s' : Pacer τ} {a : PacerAction}
    {actions : List PacerAction} (same : s.armed T = startedLast actions)
    (h : s.step T a = some s') : s'.armed T = startedLast (actions ++ [a]) := by
  rw [startedLast, List.foldl_append, ← startedLast]
  cases step_effect h with
  | enqueue listener => exact same
  | recv p idle => exact same
  | start setup idle =>
      cases setup with
      | false => exact same
      | true => simp [armed, start, T.due_resched]
  | stop idle => simp [armed, stop, T.due_forceCancel, idle]
  | setPeriod period idle => exact same
  | advance later => exact same
  | expire pending idle reached =>
      simp only [List.foldl_cons, List.foldl_nil, ← same]
      simp [armed, pending]
  | pop popping queue => exact same
  | resched inside tested =>
      simp only [List.foldl_cons, List.foldl_nil, ← same]
      simp [armed, inside, T.due_resched]

/-! ### Which expiration sends which message -/

/-- The calls of `expire`. -/
def expirations (actions : List PacerAction) : Nat :=
  actions.countP fun
    | .expire => true
    | _ => false

/-- `e` expirations after `s`: messages keep their order behind those of `s`, no expiration
sends two, and while messages of `s` wait none is idle. -/
structure Serving (s : Pacer τ) (e : Nat) (t : Pacer τ) : Prop where
  messages : ∃ more, (t.site.node.emitted ++ t.site.node.queuePckRead).map Packet.payload =
    (s.site.node.emitted ++ s.site.node.queuePckRead).map Packet.payload ++ more
  atMost : t.site.node.emitted.length + t.site.node.popping.toNat ≤
    s.site.node.emitted.length + e
  busy : t.site.node.emitted.length <
      s.site.node.emitted.length + s.site.node.queuePckRead.length →
    t.site.node.emitted.length + t.site.node.popping.toNat = s.site.node.emitted.length + e

section Queue

variable {T : TimerHandler τ} {s t u : Pacer τ} {a : PacerAction} {e : Nat}

theorem serving_refl (tested : s.site.node.popping = false) : s.Serving 0 s where
  messages := ⟨[], by simp⟩
  atMost := by simp [tested]
  busy := by simp [tested]

/-- While messages of `s` are not sent the queue is not empty. -/
theorem Serving.waiting (inv : s.Serving e t) (unsent : t.site.node.emitted.length <
    s.site.node.emitted.length + s.site.node.queuePckRead.length) :
    t.site.node.queuePckRead.isEmpty = false := by
  obtain ⟨more, same⟩ := inv.messages
  have lengths := congrArg List.length same
  simp only [List.length_map, List.length_append] at lengths
  rw [List.isEmpty_eq_false_iff, ← List.length_pos_iff]
  omega

theorem Serving.step (inv : s.Serving e t) (phased : t.Phased T) (kept : a.replaces = false)
    (h : t.step T a = some u) :
    s.Serving (e + expirations [a]) u := by
  cases step_effect h with
  | @enqueue alloc bufferMsg recvMsgSize listener =>
      obtain ⟨more, same⟩ := inv.messages
      refine ⟨⟨more ++ [(makePacket alloc bufferMsg recvMsgSize).payload], ?_⟩, inv.atMost, inv.busy⟩
      rw [← List.append_assoc, ← same]
      simp [Node.enqueue, Node.emitted]
  | recv p idle => exact ⟨inv.messages, inv.atMost, inv.busy⟩
  | start setup idle => cases kept
  | stop idle => cases kept
  | setPeriod period idle => exact ⟨inv.messages, inv.atMost, inv.busy⟩
  | advance later => exact ⟨inv.messages, inv.atMost, inv.busy⟩
  | expire pending idle reached =>
      have tested := phased.not_popping idle
      have atMost := inv.atMost
      have busy := inv.busy
      have waiting := inv.waiting
      have one := Bool.toNat_le (!t.site.node.queuePckRead.isEmpty)
      rw [phased.test_eq pending]
      simp only [tested, Bool.toNat_false] at atMost busy
      refine ⟨inv.messages, ?_, fun unsent => ?_⟩
      · show t.site.node.emitted.length + (!t.site.node.queuePckRead.isEmpty).toNat ≤ _ + (e + 1)
        omega
      · show t.site.node.emitted.length + (!t.site.node.queuePckRead.isEmpty).toNat = _ + (e + 1)
        rw [waiting unsent, Bool.not_false, Bool.toNat_true, ← Nat.add_assoc, ← busy unsent]
  | @pop ptmp rest popping queue =>
      obtain ⟨more, same⟩ := inv.messages
      have atMost := inv.atMost
      have busy := inv.busy
      have one : (t.sent ptmp rest).site.node.emitted.length = t.site.node.emitted.length + 1 := by
        simp [sent, Node.emitted]
      rw [popping, Bool.toNat_true] at atMost busy
      refine ⟨⟨more, ?_⟩, ?_, fun unsent => ?_⟩
      · rw [← same, queue]
        simp [sent, Node.emitted, fillHeaders_payload]
      · show (t.sent ptmp rest).site.node.emitted.length + 0 ≤ _ + (e + 0)
        omega
      · show (t.sent ptmp rest).site.node.emitted.length + 0 = _ + (e + 0)
        rw [one] at unsent ⊢
        exact busy (by omega)
  | resched inside tested => exact ⟨inv.messages, inv.atMost, inv.busy⟩

theorem serving_run (phased : s.Phased T) (idle : s.expiring = false)
    {moves : List (Move (Pacer τ) PacerAction)} (run : Run (Pacer.step T) s moves t)
    (kept : ∀ m ∈ moves, m.action.replaces = false) :
    t.Phased T ∧ s.Serving (expirations (moves.map Move.action)) t := by
  induction run with
  | nil => exact ⟨phased, serving_refl (phased.not_popping idle)⟩
  | snoc _ last ih =>
      rw [List.forall_mem_append, List.forall_mem_singleton] at kept
      obtain ⟨phased', serving⟩ := ih kept.1
      rw [List.map_append, expirations, List.countP_append]
      exact ⟨phased'.step last, serving.step phased' kept.2 last⟩

/-- A message of `s` with `k` others before it is the next packet but `k` once `k + 1`
expirations are over. -/
theorem Serving.sent_iff (inv : s.Serving e t) (phased : t.Phased T) (idle : t.expiring = false)
    {k : Nat} (queued : k < s.site.node.queuePckRead.length) :
    (t.site.node.emitted.map Packet.payload)[s.site.node.emitted.length + k]? =
      if k < e then (s.site.node.queuePckRead.map Packet.payload)[k]? else none := by
  obtain ⟨more, same⟩ := inv.messages
  have atMost := inv.atMost
  have busy := inv.busy
  rw [phased.not_popping idle, Bool.toNat_false, Nat.add_zero] at atMost busy
  split
  · rename_i turn
    have sent : s.site.node.emitted.length + k < t.site.node.emitted.length := by
      by_contra unsent
      have := busy (by omega)
      omega
    have found := congrArg (·[s.site.node.emitted.length + k]?) same
    rw [List.map_append, List.map_append, List.append_assoc] at found
    rw [List.getElem?_append_left (by simpa using sent),
      List.getElem?_append_right (by simp), List.length_map, Nat.add_sub_cancel_left,
      List.getElem?_append_left (by simpa using queued)] at found
    exact found
  · rw [List.getElem?_eq_none]
    rw [List.length_map]
    omega

end Queue

/-! ### Where time waits for the timer -/

/-- Of the steps that change the listener, the period or the clock, only that time goes on
between two expirations, and not past the pending one. -/
def steady (T : TimerHandler τ) (s : Pacer τ) : PacerAction → Bool
  | .start _ | .stop | .setPeriod _ => false
  | .advance clock => !s.expiring && (T.due s.timer).all fun due => decide (clock ≤ due)
  | _ => true

/-- `e` expirations after `s`, whose timer was due at `due`: they came a period apart, and the
messages of `s` left with them. -/
structure OnTime (T : TimerHandler τ) (s : Pacer τ) (due : ℚ) (e : Nat) (t : Pacer τ) : Prop where
  period : t.period = s.period
  pending : t.expiring = false → T.due t.timer = some (due + e * s.period)
  before : t.clock ≤ due + e * s.period
  since : ∀ e', e = e' + 1 → due + e' * s.period ≤ t.clock
  inside : t.expiring = true → ∃ e', e = e' + 1 ∧ t.clock = due + e' * s.period
  times : ∀ k < s.site.node.queuePckRead.length,
    s.site.node.emitted.length + k < t.site.node.emitted.length →
      t.sendTimes[s.site.node.emitted.length + k]? = some (due + k * s.period)

section Time

variable {T : TimerHandler τ} {s t u : Pacer τ} {a : PacerAction} {e : Nat} {due : ℚ}

theorem onTime_refl (idle : s.expiring = false) (pending : T.due s.timer = some due)
    (early : s.clock ≤ due) : s.OnTime T due 0 s where
  period := rfl
  pending := by simp [pending]
  before := by simpa using early
  since := by simp
  inside := by simp [idle]
  times := by simp

theorem OnTime.step (inv : s.OnTime T due e t) (nonneg : 0 ≤ s.period) (serving : s.Serving e t)
    (phased : t.Phased T) (fair : t.steady T a = true) (h : t.step T a = some u) :
    s.OnTime T due (e + expirations [a]) u := by
  cases step_effect h with
  | enqueue listener =>
      exact ⟨inv.period, inv.pending, inv.before, inv.since, inv.inside, inv.times⟩
  | recv p idle =>
      exact ⟨inv.period, inv.pending, inv.before, inv.since, inv.inside, inv.times⟩
  | start setup idle => cases fair
  | stop idle => cases fair
  | setPeriod period idle => cases fair
  | @advance clock later =>
      simp only [steady, Bool.and_eq_true, Bool.not_eq_true'] at fair
      obtain ⟨idle, early⟩ := fair
      rw [inv.pending idle, Option.all_some, decide_eq_true_iff] at early
      refine ⟨inv.period, inv.pending, early, ?_, fun inside => ?_, inv.times⟩
      · exact fun e' he => (inv.since e' he).trans later
      · exact absurd inside (by simp [idle])
  | @expire due' pending idle reached =>
      have same := inv.pending idle
      rw [pending, Option.some.injEq] at same
      have now : t.clock = due + e * s.period := le_antisymm inv.before (same ▸ reached)
      have next : due + ((e + 1 : Nat) : ℚ) * s.period = t.clock + s.period := by
        rw [now, Nat.cast_succ]
        ring
      rw [phased.test_eq pending]
      refine ⟨inv.period, by simp, ?_, ?_, fun _ => ⟨e, rfl, now⟩, inv.times⟩
      · exact (le_add_of_nonneg_right nonneg).trans_eq next.symm
      · rintro e' he
        obtain rfl : e = e' := Nat.succ.inj he
        exact now.ge
  | @pop ptmp rest popping queue =>
      obtain ⟨e', rfl, now⟩ := inv.inside (phased.popping popping)
      have busy := serving.busy
      rw [popping, Bool.toNat_true] at busy
      have length : t.sendTimes.length = t.site.node.emitted.length := List.length_map _
      have grown : (t.sent ptmp rest).site.node.emitted.length =
          t.site.node.emitted.length + 1 := by simp [sent, Node.emitted]
      refine ⟨inv.period, inv.pending, inv.before, inv.since, inv.inside, fun k queued sent => ?_⟩
      rw [sendTimes_sent]
      rw [grown] at sent
      by_cases old : s.site.node.emitted.length + k < t.site.node.emitted.length
      · rw [List.getElem?_append_left (by rwa [length])]
        exact inv.times k queued old
      · -- the packet handed down now, in the expiration of its turn
        have turn : k = e' := by
          have := busy (by omega)
          omega
        have last : s.site.node.emitted.length + k = t.sendTimes.length := by omega
        rw [last, List.getElem?_concat_length, now, turn]
  | resched inside tested =>
      obtain ⟨e', rfl, now⟩ := inv.inside inside
      refine ⟨inv.period, fun _ => ?_, inv.before, inv.since, by simp, inv.times⟩
      rw [T.due_resched, now, inv.period]
      simp only [expirations, List.countP_cons, List.countP_nil]
      push_cast
      ring_nf

theorem onTime_run (phased : s.Phased T) (idle : s.expiring = false)
    (pending : T.due s.timer = some due) (early : s.clock ≤ due) (nonneg : 0 ≤ s.period)
    {moves : List (Move (Pacer τ) PacerAction)} (run : Run (Pacer.step T) s moves t)
    (fair : ∀ m ∈ moves, m.before.steady T m.action = true) :
    (t.Phased T ∧ s.Serving (expirations (moves.map Move.action)) t) ∧
      s.OnTime T due (expirations (moves.map Move.action)) t := by
  induction run with
  | nil => exact ⟨⟨phased, serving_refl (phased.not_popping idle)⟩, onTime_refl idle pending early⟩
  | @snoc _ t u a _ last ih =>
      rw [List.forall_mem_append, List.forall_mem_singleton] at fair
      obtain ⟨⟨phased', serving⟩, onTime⟩ := ih fair.1
      have kept : a.replaces = false := by
        by_contra replaces
        cases a <;> simp_all [PacerAction.replaces, steady]
      rw [List.map_append, expirations, List.countP_append]
      exact ⟨⟨phased'.step last, serving.step phased' kept last⟩,
        onTime.step nonneg serving phased' fair.2 last⟩

end Time

end Pacer

open Pacer

/-- A node that is started, takes in two messages, and hands one down at each of two
expirations. -/
def pacedStart : List PacerAction :=
  [.start true, .enqueue (oneBytePacket 0) (fun _ => 7) 1, .enqueue (oneBytePacket 0) (fun _ => 8) 1]

def pacedSends : List PacerAction :=
  [.advance 1, .expire, .pop, .resched, .advance 2, .expire, .pop, .resched, .advance (5 / 2)]

/-- They are runs, and what can be seen of their last states. -/
theorem pacedRun_reaches : ∃ before s moves t,
    Run (Pacer.step eventTimer) (Pacer.init eventTimer (fun _ => false) ⟨0, 1, 0⟩ 1) before s ∧
      Run (Pacer.step eventTimer) s moves t ∧ moves.map Move.action = pacedSends ∧
      (∀ m ∈ moves, m.before.steady eventTimer m.action = true) ∧
      s.timer = some 1 ∧ s.site.node.queuePckRead.map Packet.payload = [[7], [8]] ∧
      s.sendTimes = [] ∧ t.sendTimes = [1, 2] ∧ s.clock = 0 ∧ s.period = 1 ∧ t.clock = 5 / 2 ∧
      s.expiring = false ∧ t.expiring = false := by
  have ran : ((exec (Pacer.step eventTimer)
      (Pacer.init eventTimer (fun _ => false) ⟨0, 1, 0⟩ 1) pacedStart).bind fun s =>
        (exec (guarded (Pacer.steady eventTimer) (Pacer.step eventTimer)) s pacedSends).map fun t =>
          (s.timer, s.site.node.queuePckRead.map Packet.payload,
            [s.sendTimes, t.sendTimes, [s.clock, s.period, t.clock]], [s.expiring, t.expiring])) =
      some (some 1, [[7], [8]], [[], [1, 2], [0, 1, 5 / 2]], [false, false]) := by
    decide +kernel
  obtain ⟨s, first, rest⟩ := Option.bind_eq_some_iff.mp ran
  obtain ⟨t, second, seen⟩ := Option.map_eq_some_iff.mp rest
  obtain ⟨before, run, -⟩ := run_of_exec first
  obtain ⟨moves, later, actions⟩ := run_of_exec second
  obtain ⟨later, fair⟩ := later.of_guarded
  simp only [Prod.mk.injEq, List.cons.injEq, and_true, and_assoc] at seen
  exact ⟨before, s, moves, t, run, later, actions, fair, seen⟩

section Results

variable {τ : Type*} {T : TimerHandler τ} {heap : Nat → Bool} {b : Bound} {period gap : ℚ}
  {moves : List (Move (Pacer τ) PacerAction)} {s : Pacer τ}

/-- However the listener is started and stopped, messages come in and time passes: in any
window of time a node hands down at most one packet more than periods fit into it. -/
theorem rate_limited (run : Run (Pacer.step T) (Pacer.init T heap b period) moves s)
    (nonneg : 0 ≤ gap) (slow : gap ≤ period)
    (slower : ∀ m ∈ moves, ∀ period, m.action = .setPeriod period → gap ≤ period)
    {since till : ℚ} (le : since ≤ till) :
    (s.site.node.emitted.countP fun p =>
      decide (since ≤ p.ch.timestamp ∧ p.ch.timestamp ≤ till)) * gap ≤ till - since + gap := by
  have paced := paced_run run slow slower
  let within := s.sendTimes.filter fun x => decide (since ≤ x ∧ x ≤ till)
  have spaced : Spaced gap within := paced.spaced.sublist List.filter_sublist
  have window := spaced.window nonneg le fun x hx => of_decide_eq_true (List.mem_filter.mp hx).2
  rwa [← List.countP_eq_length_filter, sendTimes, List.countP_map] at window

/-- Two packets in the two and a half seconds of that run, with a period of one. -/
theorem paced_rate_limited : ∃ moves s,
    Run (Pacer.step eventTimer) (Pacer.init eventTimer (fun _ => false) ⟨0, 1, 0⟩ 1) moves s ∧
      s.sendTimes = [1, 2] ∧
      (s.site.node.emitted.countP fun p =>
        decide (0 ≤ p.ch.timestamp ∧ p.ch.timestamp ≤ 5 / 2)) * (1 : ℚ) ≤ 5 / 2 - 0 + 1 := by
  have ran : (exec (Pacer.step eventTimer)
      (Pacer.init eventTimer (fun _ => false) ⟨0, 1, 0⟩ 1) (pacedStart ++ pacedSends)).map
        sendTimes = some [1, 2] := by decide +kernel
  obtain ⟨s, executed, times⟩ := Option.map_eq_some_iff.mp ran
  obtain ⟨moves, run, actions⟩ := run_of_exec executed
  refine ⟨moves, s, run, times, rate_limited run (by norm_num) le_rfl ?_ (by norm_num)⟩
  intro m hm period set
  have member : m.action ∈ moves.map Move.action := List.mem_map_of_mem hm
  rw [actions, set] at member
  simp [pacedStart, pacedSends] at member

/-- The timer is set exactly from a successful `start` to the next `stop`, and then there is a
listener: `expire` never finds the pointer null. -/
theorem timer_armed_iff (run : Run (Pacer.step T) (Pacer.init T heap b period) moves s) :
    (s.armed T = true ↔ startedLast (moves.map Move.action) = true) ∧
      (s.armed T = true → s.site.node.mod.pTcpListener = true) ∧
      ∀ m ∈ moves, m.action = .expire → m.before.site.node.mod.pTcpListener = true := by
  have same : s.armed T = startedLast (moves.map Move.action) := by
    induction run with
    | nil => simp [armed, init, startedLast, T.due_idle]
    | snoc _ last ih =>
        rw [List.map_append]
        exact armed_step ih last
  have phased := phased_run run
  refine ⟨by rw [same], fun set => phased.listener ?_, ?_⟩
  · rw [armed, Bool.or_eq_true] at set
    exact set.symm
  · rintro ⟨t, a, u⟩ hm rfl
    obtain ⟨before, stepped⟩ := run.invariant_before (phased_init T heap b period)
      (fun _ _ _ inv h => inv.step h) hm
    exact before.expire_listener stepped

/-- Set by the first command, and no longer pending after `stop`. -/
theorem armed_until_stop : ∃ moves s,
    Run (Pacer.step eventTimer) (Pacer.init eventTimer (fun _ => false) ⟨0, 1, 0⟩ 1) moves s ∧
      moves.map Move.action = pacedStart ++ pacedSends ++ [.stop] ∧
      (s.armed eventTimer = true ↔ startedLast (moves.map Move.action) = true) ∧
      startedLast (moves.map Move.action) = false := by
  have ran : ((exec (Pacer.step eventTimer) (Pacer.init eventTimer (fun _ => false) ⟨0, 1, 0⟩ 1)
      (pacedStart ++ pacedSends ++ [.stop])).map fun s => s.timer) = some none := by
    decide +kernel
  obtain ⟨s, executed, -⟩ := Option.map_eq_some_iff.mp ran
  obtain ⟨moves, run, actions⟩ := run_of_exec executed
  refine ⟨moves, s, run, actions, (timer_armed_iff run).1, ?_⟩
  rw [actions]
  rfl

variable {moves' : List (Move (Pacer τ) PacerAction)} {t : Pacer τ} {due : ℚ} {k : Nat}

/-- A message with `k` others before it is handed down in the expiration `k + 1`, not in an
earlier one, whatever else happens to the node meanwhile and however late `expire` is called;
only `start` and `stop` take the queue away. -/
theorem leaves_in_turn (run : Run (Pacer.step T) (Pacer.init T heap b period) moves s)
    (idle : s.expiring = false) (later : Run (Pacer.step T) s moves' t)
    (idle' : t.expiring = false) (kept : ∀ m ∈ moves', m.action.replaces = false)
    (queued : k < s.site.node.queuePckRead.length) :
    (t.site.node.emitted.map Packet.payload)[s.site.node.emitted.length + k]? =
      if k < expirations (moves'.map Move.action) then (s.site.node.queuePckRead.map Packet.payload)[k]?
      else none := by
  obtain ⟨phased, serving⟩ := serving_run (phased_run run) idle later kept
  exact serving.sent_iff phased idle' queued

/-- The second of two messages goes with the second expiration. -/
theorem second_leaves_second : ∃ before s moves t,
    Run (Pacer.step eventTimer) (Pacer.init eventTimer (fun _ => false) ⟨0, 1, 0⟩ 1) before s ∧
      Run (Pacer.step eventTimer) s moves t ∧ moves.map Move.action = pacedSends ∧
      (t.site.node.emitted.map Packet.payload)[s.site.node.emitted.length + 1]? = some [8] := by
  obtain ⟨before, s, moves, t, run, later, actions, fair, -, queue, -, -, -, -, -, idle, idle'⟩ :=
    pacedRun_reaches
  have kept : ∀ m ∈ moves, m.action.replaces = false := by
    intro m hm
    have member : m.action ∈ moves.map Move.action := List.mem_map_of_mem hm
    have none : ∀ a ∈ pacedSends, a.replaces = false := by simp [pacedSends, PacerAction.replaces]
    exact none m.action (actions ▸ member)
  have queued : 1 < s.site.node.queuePckRead.length := by
    rw [← List.length_map Packet.payload, queue]
    decide
  refine ⟨before, s, moves, t, run, later, actions, ?_⟩
  rw [leaves_in_turn run idle later idle' kept queued, actions, queue]
  rfl

/-- Where time waits for the timer, that message leaves at the pending time and `k` periods:
it is not handed down before, and it is afterwards, with that time in it. -/
theorem leaves_on_time (run : Run (Pacer.step T) (Pacer.init T heap b period) moves s)
    (idle : s.expiring = false) (pending : T.due s.timer = some due) (early : s.clock ≤ due)
    (nonneg : 0 ≤ s.period) (later : Run (Pacer.step T) s moves' t) (idle' : t.expiring = false)
    (fair : ∀ m ∈ moves', m.before.steady T m.action = true)
    (queued : k < s.site.node.queuePckRead.length) :
    (t.clock < due + k * s.period →
        t.site.node.emitted[s.site.node.emitted.length + k]? = none) ∧
      (due + k * s.period < t.clock →
        ∃ p, t.site.node.emitted[s.site.node.emitted.length + k]? = some p ∧
          p.payload = (s.site.node.queuePckRead[k]).payload ∧
          p.ch.timestamp = due + k * s.period) := by
  obtain ⟨⟨phased, serving⟩, onTime⟩ :=
    onTime_run (phased_run run) idle pending early nonneg later fair
  have sent := serving.sent_iff phased idle' queued
  rw [List.getElem?_map, List.getElem?_map] at sent
  constructor
  · intro before
    have turn : ¬ k < expirations (moves'.map Move.action) := by
      intro turn
      obtain ⟨e', he⟩ := Nat.exists_eq_succ_of_ne_zero (Nat.ne_zero_of_lt turn)
      have since := onTime.since e' he
      have le : (k : ℚ) * s.period ≤ e' * s.period :=
        mul_le_mul_of_nonneg_right (by exact_mod_cast (by omega : k ≤ e')) nonneg
      linarith
    rw [if_neg turn] at sent
    exact Option.map_eq_none_iff.mp sent
  · intro after
    have turn : k < expirations (moves'.map Move.action) := by
      by_contra unserved
      have before := onTime.before
      have le : ((expirations (moves'.map Move.action) : Nat) : ℚ) * s.period ≤ k * s.period :=
        mul_le_mul_of_nonneg_right (by exact_mod_cast not_lt.mp unserved) nonneg
      linarith
    rw [if_pos turn, List.getElem?_eq_getElem queued, Option.map_some] at sent
    obtain ⟨p, found, payload⟩ := Option.map_eq_some_iff.mp sent
    have time := onTime.times k queued (List.getElem?_eq_some_iff.mp found).1
    rw [sendTimes, List.getElem?_map, found, Option.map_some, Option.some.injEq] at time
    exact ⟨p, found, payload, time⟩

/-- The first expiration is due at 1, and the second of two messages is sent at 2. -/
theorem second_leaves_at_two : ∃ before s moves t p,
    Run (Pacer.step eventTimer) (Pacer.init eventTimer (fun _ => false) ⟨0, 1, 0⟩ 1) before s ∧
      Run (Pacer.step eventTimer) s moves t ∧ s.clock = 0 ∧ t.clock = 5 / 2 ∧
      t.site.node.emitted[s.site.node.emitted.length + 1]? = some p ∧ p.payload = [8] ∧
      p.ch.timestamp = 2 := by
  obtain ⟨before, s, moves, t, run, later, -, fair, timer, queue, -, -, start, period, clock, idle,
    idle'⟩ := pacedRun_reaches
  have queued : 1 < s.site.node.queuePckRead.length := by
    rw [← List.length_map Packet.payload, queue]
    decide
  have second : (s.site.node.queuePckRead[1]).payload = [8] := by
    have found := congrArg (·[1]?) queue
    rw [List.getElem?_map, List.getElem?_eq_getElem queued] at found
    simpa using found
  have pending : eventTimer.due s.timer = some 1 := timer
  obtain ⟨p, found, payload, time⟩ := (leaves_on_time run idle pending (by rw [start]; norm_num)
    (by rw [period]; norm_num) later idle' fair queued).2 (by rw [clock, period]; norm_num)
  refine ⟨before, s, moves, t, p, run, later, start, clock, found, payload.trans second, ?_⟩
  rw [time, period]
  norm_num

end Results

end UwAppNet
