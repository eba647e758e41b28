import UwAppNet.Intake
import Mathlib.Data.UInt

/-!
The timed wait of the listener thread: `ReadyToRead` gives `select` the address of the
member `m_ReadTimeout`, which `start` sets from `SocketReadTimeout`.

On Linux `select` replaces the `timeval` by the time it did not sleep, so what a call waits
depends on all calls before it. Whether it takes a `tv_usec` of a second or more differs
between systems: `SelectRule` says which times it takes. Whether every call waits for the
configured time is asked of the `select` that takes none beyond the valid ones, `strict`.
-/

namespace UwAppNet

/-- `timeval`. -/
structure Timeval where
  tvSec : Int
  tvUsec : Int
deriving DecidableEq, Repr

namespace Timeval

/-- The values every `select` takes. -/
def valid (t : Timeval) : Prop := 0 ≤ t.tvSec ∧ 0 ≤ t.tvUsec ∧ t.tvUsec < 1000000

instance (t : Timeval) : Decidable t.valid := inferInstanceAs (Decidable (_ ∧ _))

/-- In microseconds. -/
def duration (t : Timeval) : Int := t.tvSec * 1000000 + t.tvUsec

/-- The `timeval` of a number of microseconds. -/
def ofDuration (d : Nat) : Timeval := ⟨d / 1000000, d % 1000000⟩

/-- `timeout.tv_sec = 0; timeout.tv_usec = m_SocketReadTimeout`. -/
def configured (socketReadTimeout : UInt32) : Timeval := ⟨0, socketReadTimeout.toNat⟩

end Timeval

/-- What ends a wait: data, or an error such as a signal, after some microseconds, or
nothing in time. -/
inductive Wakeup where
  | data (slept : Nat)
  | error (slept : Nat)
  | timeout
deriving DecidableEq, Repr

namespace Wakeup

/-- The microseconds slept of a wait of `d` at most. -/
def slept (d : Nat) : Wakeup → Nat
  | .data slept => min slept d
  | .error slept => min slept d
  | .timeout => d

/-- The value `select` returns. -/
def ret : Wakeup → Int
  | .data _ => 1
  | .error _ => -1
  | .timeout => 0

end Wakeup

/-- The times that the `select` of a system takes: the valid ones at least. -/
structure SelectRule where
  takes : Timeval → Bool
  takes_of_valid : ∀ t : Timeval, t.valid → takes t = true

namespace SelectRule

/-- `EINVAL` for a `tv_usec` of a second or more. -/
def strict : SelectRule := ⟨fun t => decide t.valid, fun _ => decide_eq_true⟩

/-- The seconds in `tv_usec` are added to `tv_sec`. -/
def normalising : SelectRule where
  takes t := decide (0 ≤ t.tvSec ∧ 0 ≤ t.tvUsec)
  takes_of_valid _ valid := decide_eq_true ⟨valid.1, valid.2.1⟩

/-- `select` for one descriptor: its value, and the `timeval` afterwards. -/
def select (rule : SelectRule) (t : Timeval) (w : Wakeup) : Int × Timeval :=
  if rule.takes t then (w.ret, .ofDuration (t.duration.toNat - w.slept t.duration.toNat))
  else (-1, t)

end SelectRule

/-- `ReadyToRead`, with `m_ReadTimeout` afterwards. -/
def readyToRead (rule : SelectRule) (mReadTimeout : Timeval) (w : Wakeup) : Bool × Timeval :=
  ((rule.select mReadTimeout w).1 == 1, (rule.select mReadTimeout w).2)

/-- A call of `ReadyToRead`: the `timeval` that `select` received, and the answer. -/
structure Poll where
  received : Timeval
  ready : Bool

/-- The calls of a listener, one for each wakeup. -/
def polls (rule : SelectRule) (mReadTimeout : Timeval) : List Wakeup → List Poll
  | [] => []
  | w :: ws =>
      let r := readyToRead rule mReadTimeout w
      ⟨mReadTimeout, r.1⟩ :: polls rule r.2 ws

section Calls

variable {rule : SelectRule}

/-! ### One call -/

/-- A valid `timeval` of `d` microseconds. -/
def Timeval.Denotes (t : Timeval) (d : Nat) : Prop := t.valid ∧ t.duration = d

theorem Timeval.denotes_ofDuration (d : Nat) : (Timeval.ofDuration d).Denotes d := by
  simp only [Denotes, valid, duration, ofDuration]
  omega

theorem Timeval.denotes_configured_iff (v : UInt32) :
    (configured v).Denotes v.toNat ↔ v.toNat < 1000000 := by
  simp only [Denotes, valid, duration, configured]
  omega

theorem Timeval.Denotes.unique {t : Timeval} {d e : Nat} (h : t.Denotes d) (h' : t.Denotes e) :
    d = e := Int.ofNat_inj.mp (h.2.symm.trans h'.2)

/-- What is left of a valid time. -/
theorem Timeval.Denotes.readyToRead {t : Timeval} {d : Nat} (h : t.Denotes d) (w : Wakeup) :
    (UwAppNet.readyToRead rule t w).2.Denotes (d - w.slept d) := by
  obtain ⟨valid, duration⟩ := h
  have left : (UwAppNet.readyToRead rule t w).2 = .ofDuration (d - w.slept d) := by
    rw [UwAppNet.readyToRead, SelectRule.select, if_pos (rule.takes_of_valid t valid), duration,
      Int.toNat_natCast]
  rw [left]
  exact denotes_ofDuration _

/-- No more is slept than is left. -/
theorem Wakeup.slept_le (w : Wakeup) (d : Nat) : w.slept d ≤ d := by
  cases w with
  | data slept => exact Nat.min_le_right ..
  | error slept => exact Nat.min_le_right ..
  | timeout => exact Nat.le_refl d

/-- A `timeval` that is refused stays as it is. -/
theorem readyToRead_refused {t : Timeval} (refused : rule.takes t = false) (w : Wakeup) :
    readyToRead rule t w = (false, t) := by
  rw [readyToRead, SelectRule.select, if_neg (by simp [refused])]
  rfl

/-- A time that `select` takes leaves one that it takes, whatever it sleeps. -/
theorem takes_readyToRead (rule : SelectRule) (t : Timeval) (w : Wakeup) :
    rule.takes (readyToRead rule t w).2 = rule.takes t := by
  cases taken : rule.takes t with
  | false => rw [readyToRead_refused taken, taken]
  | true =>
      rw [readyToRead, SelectRule.select, if_pos taken]
      exact rule.takes_of_valid _ (Timeval.denotes_ofDuration _).1

/-! ### All calls of a listener -/

/-- From a valid time on, every call receives it exactly when no call but the last one
sleeps. -/
theorem forall_polls_denote_iff {t : Timeval} {d : Nat} (h : t.Denotes d) (ws : List Wakeup) :
    (∀ p ∈ polls rule t ws, p.received.Denotes d) ↔ ∀ w ∈ ws.dropLast, w.slept d = 0 := by
  induction ws generalizing t with
  | nil => simp [polls]
  | cons w ws ih =>
      rw [polls, List.forall_mem_cons, and_iff_right h]
      have left : (readyToRead rule t w).2.Denotes (d - w.slept d) := h.readyToRead w
      cases ws with
      | nil => simp [polls]
      | cons next ws =>
          rw [List.dropLast_cons_cons, List.forall_mem_cons]
          by_cases awake : w.slept d = 0
          · rw [awake, Nat.sub_zero] at left
            rw [ih left, and_iff_right awake]
          · apply iff_of_false
            · intro all
              have same := left.unique (all _ List.mem_cons_self)
              have le := w.slept_le d
              omega
            · rintro ⟨none, -⟩
              exact awake none

/-- Once the time is used up no call waits any more. -/
theorem polls_exhausted {t : Timeval} (h : t.Denotes 0) (ws : List Wakeup) :
    ∀ p ∈ polls rule t ws, p.received.Denotes 0 := by
  apply (forall_polls_denote_iff h ws).mpr
  intro w _
  exact Nat.le_zero.mp (w.slept_le 0)

/-- A listener with a time that `select` refuses never finds anything to read. -/
theorem polls_refused {t : Timeval} (refused : rule.takes t = false) (ws : List Wakeup) :
    ∀ p ∈ polls rule t ws, p.received = t ∧ p.ready = false := by
  induction ws with
  | nil => simp [polls]
  | cons w ws ih =>
      rw [polls, readyToRead_refused refused, List.forall_mem_cons]
      exact ⟨⟨rfl, rfl⟩, ih⟩

/-- Where `select` fails for a `tv_usec` of a second or more, it refuses these timeouts. -/
theorem SelectRule.strict_refuses_iff (socketReadTimeout : UInt32) :
    strict.takes (.configured socketReadTimeout) = false ↔ 1000000 ≤ socketReadTimeout.toNat := by
  have taken : strict.takes (.configured socketReadTimeout) = true ↔
      (Timeval.configured socketReadTimeout).valid := by
    simp only [strict, decide_eq_true_eq]
  rw [← Bool.not_eq_true, taken]
  simp only [Timeval.valid, Timeval.configured]
  omega

/-- A `select` that normalises takes every timeout. -/
theorem SelectRule.normalising_takes (socketReadTimeout : UInt32) :
    normalising.takes (.configured socketReadTimeout) = true := by
  simp [normalising, Timeval.configured]

/-- With a timeout that `select` refuses the loop of `HandleTCPclient` goes round without ever
reading from its client. -/
theorem deaf_listener {σ : Type*} (peer : Peer σ) (c : Client σ) {socketReadTimeout : UInt32}
    (refused : rule.takes (.configured socketReadTimeout) = false) {ws : List Wakeup}
    {ticks : List Tick} (running : ∀ t ∈ ticks, t.stopRequested = false)
    (polled : ticks.map Tick.ready =
      (polls rule (.configured socketReadTimeout) ws).map Poll.ready) :
    (c.handleTCPclient peer ticks).client = c ∧
      (c.handleTCPclient peer ticks).messages = [] := by
  have idle : ticks.filter Tick.ready = [] := by
    rw [List.filter_eq_nil_iff]
    intro t ht
    have answered : t.ready ∈ (polls rule (.configured socketReadTimeout) ws).map Poll.ready := by
      rw [← polled]
      exact List.mem_map_of_mem ht
    obtain ⟨p, hp, same⟩ := List.mem_map.mp answered
    rw [← same, (polls_refused refused ws p hp).2]
    exact Bool.false_ne_true
  obtain ⟨-, client, messages⟩ := handleTCPclient_filter peer c running
  rw [client, messages, idle]
  exact ⟨rfl, rfl⟩

end Calls

/-- Every call of the listener waits for the configured time, if `select` fails for a `tv_usec` of
a second or more. -/
def KeepsTimeout (socketReadTimeout : UInt32) (ws : List Wakeup) : Prop :=
  ∀ p ∈ polls .strict (.configured socketReadTimeout) ws,
    p.received.Denotes socketReadTimeout.toNat

/-- The calls of a listener wait for the configured time exactly when there are none, or
this is less than a second and no call but the last one sleeps. -/
theorem keeps_timeout_iff (socketReadTimeout : UInt32) (ws : List Wakeup) :
    KeepsTimeout socketReadTimeout ws ↔
      ws = [] ∨ socketReadTimeout.toNat < 1000000 ∧
        ∀ w ∈ ws.dropLast, w.slept socketReadTimeout.toNat = 0 := by
  rw [← Timeval.denotes_configured_iff]
  by_cases short : (Timeval.configured socketReadTimeout).Denotes socketReadTimeout.toNat
  · rw [KeepsTimeout, forall_polls_denote_iff short, and_iff_right short]
    constructor
    · exact .inr
    · rintro (rfl | awake)
      · simp
      · exact awake
  · cases ws with
    | nil => simp [KeepsTimeout, polls]
    | cons w ws =>
        apply iff_of_false
        · intro kept
          exact short (kept _ List.mem_cons_self)
        · simp [short]

/-- The default of 50 milliseconds: after one wait in vain the next call does not wait. -/
theorem second_wait_empty :
    (polls .strict (.configured 50000) [.timeout, .timeout]).map Poll.received =
        [⟨0, 50000⟩, ⟨0, 0⟩] ∧
      ¬ KeepsTimeout 50000 [.timeout, .timeout] := by
  constructor
  · rfl
  · rw [keeps_timeout_iff]
    decide

end UwAppNet
