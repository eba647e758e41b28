import UwAppNet.LiveIntake
import UwAppNet.Polling

/-!
The listener thread with its own `m_ReadTimeout`.

Elsewhere `select` may answer anything that agrees with the client's socket. Here its answers
are those of `readyToRead`, and every call leaves its remaining time to the next. If `select`
takes the timeout that `start` sets, this is the same listener: what one reaches the other
does. If not, it is one that accepts its clients and never reads from them. Which timeouts are
taken is up to the system: `SelectRule.strict_refuses_iff`, `SelectRule.normalising_takes`.
-/

namespace UwAppNet

open Transition

/-- A listener with its clients and its `m_ReadTimeout`. -/
structure TimedLive where
  live : Live
  mReadTimeout : Timeval

/-- A call of `ReadyToRead` and what ends its wait, or another action. -/
inductive TimedAction where
  | readyToRead (w : Wakeup)
  | other (a : LiveAction)

namespace TimedLive

/-- A listener that `start` has created and started. -/
def start (port : UInt16) (socketReadTimeout : UInt32) : TimedLive :=
  ⟨.start port, .configured socketReadTimeout⟩

def step (rule : SelectRule) (p : TimedLive) : TimedAction → Option TimedLive
  | .readyToRead w =>
      (p.live.step (.worker (.select (readyToRead rule p.mReadTimeout w).1))).map fun v =>
        ⟨v, (readyToRead rule p.mReadTimeout w).2⟩
  | .other (.worker (.select _)) => none
  | .other a => (p.live.step a).map fun v => ⟨v, p.mReadTimeout⟩

end TimedLive

/-! ### One listener seen as the other -/

/-- `select` finds data only with a time that it takes. -/
def LiveAction.permitted (rule : SelectRule) (socketReadTimeout : UInt32) : LiveAction → Bool
  | .worker (.select true) => rule.takes (.configured socketReadTimeout)
  | _ => true

/-- The steps of a listener whose `select` answers what that of the other may. -/
def Live.permittedStep (rule : SelectRule) (socketReadTimeout : UInt32) :
    Live → LiveAction → Option Live :=
  guarded (fun _ a => a.permitted rule socketReadTimeout) Live.step

section Views

variable {rule : SelectRule} {p q : TimedLive} {v v' : Live} {a : LiveAction} {port : UInt16}
  {socketReadTimeout : UInt32}

/-- Data is found with a time that is taken. -/
theorem readyToRead_data {t : Timeval} {w : Wakeup} (found : (readyToRead rule t w).1 = true) :
    rule.takes t = true := by
  by_contra refused
  rw [readyToRead_refused (by simpa using refused)] at found
  cases found

/-- A wait in vain. -/
theorem readyToRead_timeout (rule : SelectRule) (t : Timeval) :
    (readyToRead rule t .timeout).1 = false := by
  cases taken : rule.takes t with
  | true => simp [readyToRead, SelectRule.select, taken, Wakeup.ret]
  | false => rw [readyToRead_refused taken]

/-- Data that is there. -/
theorem readyToRead_found {t : Timeval} (taken : rule.takes t = true) :
    (readyToRead rule t (.data 0)).1 = true := by
  simp [readyToRead, SelectRule.select, taken, Wakeup.ret]

/-- A step with the timeout is a permitted one without. -/
theorem TimedLive.sees
    (taken : rule.takes p.mReadTimeout = rule.takes (.configured socketReadTimeout))
    {a : TimedAction} (h : p.step rule a = some q) :
    rule.takes q.mReadTimeout = rule.takes (.configured socketReadTimeout) ∧
      ∃ b, Live.permittedStep rule socketReadTimeout p.live b = some q.live := by
  cases a with
  | readyToRead w =>
      obtain ⟨v, stepped, rfl⟩ := Option.map_eq_some_iff.mp h
      refine ⟨(takes_readyToRead rule _ w).trans taken,
        .worker (.select (readyToRead rule p.mReadTimeout w).1), ?_⟩
      rw [Live.permittedStep, guarded, if_pos, stepped]
      cases found : (readyToRead rule p.mReadTimeout w).1 with
      | false => rfl
      | true => exact taken.symm.trans (readyToRead_data found)
  | other a =>
      have permitted : a.permitted rule socketReadTimeout = true ∧
          (p.live.step a).map (fun v => TimedLive.mk v p.mReadTimeout) = some q := by
        cases a with
        | worker a =>
            cases a with
            | select ready => cases h
            | _ => exact ⟨rfl, h⟩
        | _ => exact ⟨rfl, h⟩
      obtain ⟨v, stepped, rfl⟩ := Option.map_eq_some_iff.mp permitted.2
      refine ⟨taken, a, ?_⟩
      rw [Live.permittedStep, guarded, if_pos permitted.1, stepped]

/-- A permitted step is one with the timeout. -/
theorem TimedLive.follows
    (taken : rule.takes p.mReadTimeout = rule.takes (.configured socketReadTimeout))
    (h : Live.permittedStep rule socketReadTimeout p.live a = some v') :
    ∃ b q, p.step rule b = some q ∧ v' = q.live ∧
      rule.takes q.mReadTimeout = rule.takes (.configured socketReadTimeout) := by
  obtain ⟨permitted, stepped⟩ := Option.ite_none_right_eq_some.mp h
  have answered (w : Wakeup)
      (answer : p.live.step (.worker (.select (readyToRead rule p.mReadTimeout w).1)) = some v') :
      ∃ b q, p.step rule b = some q ∧ v' = q.live ∧
        rule.takes q.mReadTimeout = rule.takes (.configured socketReadTimeout) :=
    ⟨.readyToRead w, ⟨v', (readyToRead rule p.mReadTimeout w).2⟩,
      Option.map_eq_some_iff.mpr ⟨v', answer, rfl⟩, rfl,
      (takes_readyToRead rule _ w).trans taken⟩
  have unchanged
      (same : p.step rule (.other a) = (p.live.step a).map fun v => ⟨v, p.mReadTimeout⟩) :
      ∃ b q, p.step rule b = some q ∧ v' = q.live ∧
        rule.takes q.mReadTimeout = rule.takes (.configured socketReadTimeout) :=
    ⟨.other a, ⟨v', p.mReadTimeout⟩, same.trans (by rw [stepped]; rfl), rfl, taken⟩
  cases a with
  | worker a =>
      cases a with
      | select ready =>
          cases ready with
          | false =>
              apply answered .timeout
              rwa [readyToRead_timeout]
          | true =>
              apply answered (.data 0)
              rwa [readyToRead_found (taken.trans permitted)]
      | _ => exact unchanged rfl
  | _ => exact unchanged rfl

end Views

/-! ### Runs -/

section Run

variable {rule : SelectRule} {v : Live} {port : UInt16} {socketReadTimeout : UInt32}
  {moves : List (Move Live LiveAction)}

/-- A run of permitted steps, told by its moves. -/
theorem permitted_run (run : Run Live.step (Live.start port) moves v)
    (taken : (∃ m ∈ moves, m.action = .worker (.select true)) →
      rule.takes (.configured socketReadTimeout) = true) :
    Run (Live.permittedStep rule socketReadTimeout) (Live.start port) moves v := by
  refine run.to_guarded fun m hm => ?_
  unfold LiveAction.permitted
  split
  · rename_i found
    exact taken ⟨m, hm, found⟩
  · rfl

/-- The listener `v` is the listener `p` but for the timeout, which `select` takes if it takes
the configured one. -/
def TimedLive.Agrees (rule : SelectRule) (socketReadTimeout : UInt32) (p : TimedLive) (v : Live) :
    Prop :=
  p.live = v ∧ rule.takes p.mReadTimeout = rule.takes (.configured socketReadTimeout)

theorem timed_seen {moves : List (Move TimedLive TimedAction)} {p : TimedLive}
    (run : Run (TimedLive.step rule) (TimedLive.start port socketReadTimeout) moves p) :
    ∃ moves', Run (Live.permittedStep rule socketReadTimeout) (Live.start port) moves' p.live := by
  have start : TimedLive.Agrees rule socketReadTimeout (.start port socketReadTimeout)
      (Live.start port) := ⟨rfl, rfl⟩
  obtain ⟨moves', v, seen, rfl, -⟩ := run.follow start fun p a q v agrees h => by
    obtain ⟨rfl, taken⟩ := agrees
    obtain ⟨taken, b, stepped⟩ := TimedLive.sees taken h
    exact ⟨b, q.live, stepped, rfl, taken⟩
  exact ⟨moves', seen⟩

theorem timed_followed
    (run : Run (Live.permittedStep rule socketReadTimeout) (Live.start port) moves v) :
    ∃ moves' t,
      Run (TimedLive.step rule) (TimedLive.start port socketReadTimeout) moves' ⟨v, t⟩ := by
  have start : TimedLive.Agrees rule socketReadTimeout (.start port socketReadTimeout)
      (Live.start port) := ⟨rfl, rfl⟩
  obtain ⟨moves', p, followed, rfl, -⟩ :=
    run.follow (R := fun v p => TimedLive.Agrees rule socketReadTimeout p v) start
      fun v a v' p agrees h => by
        obtain ⟨rfl, taken⟩ := agrees
        obtain ⟨b, q, stepped, rfl, taken⟩ := TimedLive.follows taken h
        exact ⟨b, q, stepped, rfl, taken⟩
  exact ⟨moves', p.mReadTimeout, followed⟩

/-- With the timeout a listener reaches what it reaches without, by a run in which `select`
finds data only if it takes the timeout that is configured. -/
theorem timed_reaches_iff :
    (∃ moves t, Run (TimedLive.step rule) (TimedLive.start port socketReadTimeout) moves ⟨v, t⟩) ↔
      ∃ moves, Run Live.step (Live.start port) moves v ∧
        ((∃ m ∈ moves, m.action = .worker (.select true)) →
          rule.takes (.configured socketReadTimeout) = true) := by
  constructor
  · rintro ⟨moves, t, run⟩
    obtain ⟨moves', seen⟩ := timed_seen run
    obtain ⟨run, permitted⟩ := seen.of_guarded
    refine ⟨moves', run, ?_⟩
    rintro ⟨m, hm, found⟩
    have allowed := permitted m hm
    rw [found] at allowed
    exact allowed
  · rintro ⟨moves, run, taken⟩
    exact timed_followed (permitted_run run taken)

/-- `ReceivePacket` is being executed, or its packet pushed. -/
def Loc.receiving : Loc → Bool
  | .readTag | .readLength | .readData _ | .pushing _ => true
  | _ => false

theorem receiving_of_request {loc : Loc} {n : Nat} (request : loc.request = some n) :
    loc.receiving = true := by
  cases loc <;> first | rfl | cases request

/-- Nothing was read, and nothing is being read. -/
structure Live.Deaf (v : Live) : Prop where
  loc : v.listener.loc.receiving = false
  queue : v.listener.queuePckRead = []
  past : ∀ t ∈ v.past, t.read = []
  current : v.current.read = []

theorem deaf_start (port : UInt16) : (Live.start port).Deaf :=
  ⟨rfl, rfl, by simp [Live.start], rfl⟩

/-- A statement that does not block. -/
theorem Live.Deaf.next {l' : Listener} (deaf : v.Deaf) (h : v.listener.next = some l') :
    (v.observe l' .next).Deaf := by
  obtain ⟨away, queue, past, current⟩ := deaf
  cases loc : v.listener.loc <;>
    simp only [Listener.next, loc, Option.some.injEq, reduceCtorEq] at h <;> subst h <;>
    simp only [observe, loc]
  case pushing data =>
    rw [loc] at away
    cases away
  case closeClient =>
    refine ⟨rfl, queue, ?_, rfl⟩
    rw [List.forall_mem_append, List.forall_mem_singleton]
    exact ⟨past, current⟩
  case runEntry | runHead | clientHead =>
    refine ⟨?_, queue, past, current⟩
    dsimp only
    split <;> rfl
  all_goals exact ⟨rfl, queue, past, current⟩

/-- Where `select` never finds data nothing is read. -/
theorem Live.Deaf.step {v' : Live} {a : LiveAction} (deaf : v.Deaf)
    (silent : a ≠ .worker (.select true)) (h : v.step a = some v') : v'.Deaf := by
  cases a with
  | worker a =>
      obtain ⟨l', stepped, rfl⟩ := Option.map_eq_some_iff.mp h
      cases Listener.step_effect stepped with
      | next stepped => exact deaf.next stepped
      | accept => exact ⟨rfl, deaf.queue, deaf.past, rfl⟩
      | acceptFails => exact ⟨rfl, deaf.queue, deaf.past, deaf.current⟩
      | timeout => exact ⟨rfl, deaf.queue, deaf.past, deaf.current⟩
      | ready => exact absurd rfl silent
      | read portion stack request =>
          have away := deaf.loc
          rw [receiving_of_request request] at away
          cases away
      | readFails => exact ⟨rfl, deaf.queue, deaf.past, deaf.current⟩
  | client a =>
      obtain ⟨l', stepped, rfl⟩ := Option.map_eq_some_iff.mp h
      obtain ⟨-, -, loc, queue⟩ := Listener.clientStep_frame stepped
      have kept : (v.receive l' a).past = v.past ∧
          (v.receive l' a).current.read = v.current.read := by
        unfold receive
        split
        · split <;> exact ⟨rfl, rfl⟩
        · exact ⟨rfl, rfl⟩
      refine ⟨?_, ?_, ?_, kept.2.trans deaf.current⟩
      · rw [receive_listener, loc]
        exact deaf.loc
      · rw [receive_listener, queue]
        exact deaf.queue
      · rw [kept.1]
        exact deaf.past
  | stop =>
      cases h
      exact ⟨deaf.loc, deaf.queue, deaf.past, deaf.current⟩

/-- A listener never reads anything exactly when `select` refuses its timeout. -/
theorem starved_iff (rule : SelectRule) (port : UInt16) (socketReadTimeout : UInt32) :
    (∀ moves p, Run (TimedLive.step rule) (TimedLive.start port socketReadTimeout) moves p →
      p.live.listener.queuePckRead = [] ∧ ∀ t ∈ p.live.transcripts, t.read = []) ↔
      rule.takes (.configured socketReadTimeout) = false := by
  constructor
  · intro starved
    by_contra short
    have reads : (exec Live.step (Live.start port)
        [.worker .next, .worker .next, .worker .next, .client .connect,
          .client (.send (some 0) (frame [7])), .worker .accept, .worker .next,
          .worker (.select true), .worker (.read 4 staleStack), .worker (.read 4 staleStack),
          .worker (.read 1 staleStack), .worker .next]).map
          (fun v => v.listener.queuePckRead) = some [[7]] := rfl
    obtain ⟨v, executed, queue⟩ := Option.map_eq_some_iff.mp reads
    obtain ⟨moves, run, -⟩ := run_of_exec executed
    obtain ⟨moves', t, followed⟩ := timed_followed
      (permitted_run run fun _ => Bool.not_eq_false _ ▸ short)
    have nothing := (starved moves' ⟨v, t⟩ followed).1
    rw [queue] at nothing
    cases nothing
  · intro refused moves p run
    obtain ⟨moves', seen⟩ := timed_seen run
    obtain ⟨thread, permitted⟩ := seen.of_guarded
    have deaf : p.live.Deaf := thread.invariant_of (deaf_start port) permitted
      fun v a v' deaf allowed h => by
        apply deaf.step _ h
        rintro rfl
        rw [LiveAction.permitted, refused] at allowed
        cases allowed
    refine ⟨deaf.queue, ?_⟩
    rw [Live.transcripts, List.forall_mem_append, List.forall_mem_singleton]
    exact ⟨deaf.past, deaf.current⟩

end Run

end UwAppNet
