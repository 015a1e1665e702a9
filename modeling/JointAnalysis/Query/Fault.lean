import JointAnalysis.Query.Kind
import JointAnalysis.Object.Operation

/-!
# Faults of a composition

A fault means that the composition itself is wired wrong; it says nothing about the program under
analysis, and ends the query in which it is found.
-/

namespace JointAnalysis

/-- The name of a state that a query can be in. -/
inductive Stage where
  | init
  | inAnalysis
  | finished
  deriving DecidableEq, Repr

/-- A stage in messages. -/
def Stage.text : Stage → String
  | .init => "Init"
  | .inAnalysis => "InAnalysis"
  | .finished => "Finished"

/-- How a composition broke its rules. -/
inductive Fault where
  /-- Two combinations with different numbers of children were taken pairwise. -/
  | unequalCounts (operation : Operation) (left right : Nat)
  /-- An object of one family stands where another family is needed. -/
  | familyMismatch (expected found : Family)
  /-- A finished answer is not an intersection of the query's family. -/
  | corruptAnswer (kind : QueryKind)
  /-- A query was to leave a state that it cannot leave. -/
  | backwardTransition (kind : QueryKind) (source target : Stage)
  /-- An analysis was asked a kind of query that it does not answer. -/
  | unsupportedQuery (analysis : String) (kind : QueryKind)
  deriving DecidableEq, Repr

/-- The wording of a fault. -/
def Fault.message : Fault → String
  | .unequalCounts operation left right =>
    s!"`{operation.text}` on combined objects needs equal child counts, got {left} and {right}"
  | .familyMismatch expected found =>
    s!"expected a {expected.text} object but found a {found.text} object"
  | .corruptAnswer kind =>
    s!"cached {kind.text} answer is not an intersection of analysis answers"
  | .backwardTransition kind source target =>
    s!"{kind.text} query cannot move from {source.text} back to {target.text}"
  | .unsupportedQuery analysis kind =>
    s!"analysis `{analysis}` does not implement {kind.text} queries"

end JointAnalysis
