import JointAnalysis.Object.Family

/-!
# Kinds of queries

A query asks for an object about a term. Besides the four families there are two kinds that no
composer answers, a query of any kind and one for the transition system.
-/

namespace JointAnalysis

/-- The direction in which an analysis moves facts over the program. -/
inductive Direction where
  | forward
  | backward
  deriving DecidableEq, Repr

/-- A direction in messages. -/
def Direction.text : Direction → String
  | .forward => "Forward"
  | .backward => "Backward"

/-- What a query asks for. -/
inductive QueryKind where
  | any
  | codeLoc
  | value
  | memLoc
  | memRegion
  | transitionSystem
  deriving DecidableEq, Repr

/-- A kind in messages. -/
def QueryKind.text : QueryKind → String
  | .any => "Any"
  | .codeLoc => "CodeLoc"
  | .value => "Value"
  | .memLoc => "MemLoc"
  | .memRegion => "MemRegion"
  | .transitionSystem => "AtsGraph"

/-- The position of a kind in the order of kinds. -/
def QueryKind.rank : QueryKind → Nat
  | .any => 0
  | .codeLoc => 1
  | .value => 2
  | .memLoc => 3
  | .memRegion => 4
  | .transitionSystem => 5

/-- The kind of query that asks for an object of a family. -/
def Family.kind : Family → QueryKind
  | .value => .value
  | .codeLoc => .codeLoc
  | .memRegion => .memRegion
  | .memLoc => .memLoc

end JointAnalysis
