import UwAppNet.Sender
import UwAppNet.Figures

/-!
A node that sends and receives: the two threads of its send path, `statistics` for
every packet that comes in, and the bound variable `drop_out_of_order_`, which the
simulation script may set at any time.
-/

namespace UwAppNet

open Transition

/-- A node with the packets its receive path accepted so far, in order. No step reads
`accepted`; it is there to be spoken of. -/
structure Station where
  node : Node
  accepted : List Arrival

inductive StationAction where
  | send (a : NodeAction)
  | recv (a : Arrival)
  | setDropOutOfOrder (value : Int)

namespace Station

/-- A freshly constructed module, with or without a listener. -/
def start (heap : Nat → Bool) (b : Bound) (listener : Bool) : Station where
  node := {
    mod := UwAppNetModule.fresh heap b listener
    queuePckRead := []
    popping := false
    sentDown := [] }
  accepted := []

/-- `recv(p)` at a scheduler time. -/
def recv (s : Station) (a : Arrival) : Station :=
  let r := s.node.mod.statistics a.clock a.packet
  { node := { s.node with mod := r.1 }
    accepted := if r.2.accepted then s.accepted ++ [a] else s.accepted }

def setDropOutOfOrder (s : Station) (value : Int) : Station :=
  { s with node := { s.node with mod := { s.node.mod with dropOutOfOrder := value } } }

def step (s : Station) : StationAction → Option Station
  | .send a => (s.node.step a).map fun n => { s with node := n }
  | .recv a => some (s.recv a)
  | .setDropOutOfOrder value => some (s.setDropOutOfOrder value)

def figures (s : Station) : Figures := s.node.mod.figures

/-- The packet of the move is one that passes every check. -/
def Admits (m : Move Station StationAction) (a : Arrival) : Prop :=
  m.action = .recv a ∧ m.before.node.mod.admits a.packet = true

/-- What a step does to the figures and the record of accepted packets. -/
inductive Change (s : Station) : StationAction → Station → Prop where
  | accepts {a : Arrival} {s' : Station} : s.node.mod.admits a.packet = true →
      s'.accepted = s.accepted ++ [a] →
      s'.figures = s.figures.accept s.node.mod.useDropOutOfOrder a → Change s (.recv a) s'
  | keeps {act : StationAction} {s' : Station} :
      (∀ a, act = .recv a → s.node.mod.admits a.packet = false) →
      s'.accepted = s.accepted → s'.figures = s.figures → Change s act s'

section Step

variable {s s' : Station} {act : StationAction}

/-- The send path does not touch the figures. -/
theorem figures_send {n n' : Node} {a : NodeAction} (h : n.step a = some n') :
    n'.mod.figures = n.mod.figures := by
  rcases Node.step_cases h with
    ⟨alloc, bufferMsg, recvMsgSize, -, -, -, rfl⟩ | ⟨-, -, rfl⟩ |
      ⟨clock, ptmp, rest, -, -, -, rfl⟩
  · rfl
  · rfl
  · rfl

theorem step_change (h : s.step act = some s') : s.Change act s' := by
  cases act with
  | send a =>
      obtain ⟨n', sent, rfl⟩ := Option.map_eq_some_iff.mp h
      refine .keeps ?_ rfl (figures_send sent)
      rintro _ ⟨⟩
  | setDropOutOfOrder value =>
      cases h
      refine .keeps ?_ rfl rfl
      rintro _ ⟨⟩
  | recv a =>
      cases h
      have figures := UwAppNetModule.figures_statistics s.node.mod a
      have accepted := UwAppNetModule.accepted_statistics s.node.mod a
      cases admitted : s.node.mod.admits a.packet with
      | true =>
          rw [if_pos admitted] at figures
          refine .accepts admitted ?_ figures
          simp [recv, accepted, admitted]
      | false =>
          rw [if_neg (by simp [admitted])] at figures
          refine .keeps ?_ ?_ figures
          · rintro _ ⟨⟩
            exact admitted
          · simp [recv, accepted, admitted]

end Step

end Station

end UwAppNet
