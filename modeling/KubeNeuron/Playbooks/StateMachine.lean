import KubeNeuron.Types.Incident

/-!
# The incident state machine

The table of legal moves between incident states. Every state that automation still drives may stop
in `needsHuman`, and no move leaves a terminal state.
-/

namespace KubeNeuron.Playbooks

open KubeNeuron.Types

/-- The states an incident may move to from each state. The self-edge of `evaluating` is the one
escalation uses. -/
def validTransitions : IncidentState → List IncidentState
  | .open => [.observing, .evaluating, .needsHuman, .resolved]
  | .observing => [.evaluating, .needsHuman, .resolved]
  | .evaluating => [.evaluating, .executing, .awaitingApproval, .observing, .needsHuman, .resolved]
  | .awaitingApproval => [.executing, .needsHuman, .expired, .resolved]
  | .executing => [.verifying, .needsHuman, .evaluating]
  | .verifying => [.resolved, .evaluating, .needsHuman]
  | .needsHuman => [.resolved, .evaluating]
  | .resolved => []
  | .expired => []

def canTransition (current dest : IncidentState) : Bool :=
  (validTransitions current).contains dest

theorem open_of_canTransition {state dest : IncidentState} (h : canTransition state dest = true) :
    state.terminal = false := by
  cases state with
  | resolved | expired => cases h
  | _ => rfl

theorem active_of_canTransition_awaiting {state : IncidentState}
    (h : canTransition state .awaitingApproval = true) : state.halted = false := by
  cases state with
  | evaluating => rfl
  | _ => cases h

end KubeNeuron.Playbooks
