import JointAnalysis.Program.Ident

/-!
# Errors of programs and transition systems

What can be wrong with a request to build or to read a program or a transition system.
-/

namespace JointAnalysis

/-- Why a program or a transition system refuses a request. -/
inductive StructureError where
  | unknownTerm (term : TermId)
  | unknownPart (part : PartId)
  | unknownEdge (edge : EdgeId)
  | alreadyParented (child parent : TermId)
  | cyclicTerm (child parent : TermId)
  deriving DecidableEq, Repr

/-- The wording of an error. -/
def StructureError.message : StructureError → String
  | .unknownTerm t => s!"term {t.text} does not exist in this program"
  | .unknownPart p => s!"part {p.text} does not exist in this transition system"
  | .unknownEdge e => s!"edge {e.text} does not exist in this transition system"
  | .alreadyParented child parent => s!"term {child.text} already has parent {parent.text}"
  | .cyclicTerm child parent =>
    s!"attaching {child.text} under {parent.text} would create a cycle"

end JointAnalysis
