import JointAnalysis.Literal.Basic
import JointAnalysis.Object.Comparison
import JointAnalysis.Object.Family

/-!
# Domains of leaves

The leaves of values and regions belong to analyses. A domain says how its leaves compare at an
edge. Leaves of different analyses can meet each other, so a domain has to give a cautious answer
for leaves it knows nothing about: they may be equal, everything else is denied, and a meet changes
nothing.
-/

namespace JointAnalysis

/-- The leaves of value objects. -/
class ValueDomain (V : Type) where
  mayEqual : EdgeId → V → V → Bool
  mustEqual : EdgeId → V → V → Bool
  equalSet : EdgeId → V → V → Bool
  subSet : EdgeId → V → V → Bool
  meet : EdgeId → V → V → Met V
  isFull : EdgeId → V → Bool
  isEmpty : EdgeId → V → Bool
  /-- Whether the leaf denotes a finite set of known literals. -/
  isConcrete : V → Bool
  /-- The literals that a concrete leaf denotes. -/
  literals : V → List Literal
  /-- The term from which the leaf was built. -/
  base : V → Option TermId
  text : V → String

/-- The leaves of region objects, whose sizes are values over the leaves `V`. -/
class RegionDomain (V : outParam Type) (R : Type) where
  mayEqual : EdgeId → R → R → Bool
  mustEqual : EdgeId → R → R → Bool
  equalSet : EdgeId → R → R → Bool
  subSet : EdgeId → R → R → Bool
  meet : EdgeId → R → R → Met R
  isFull : EdgeId → R → Bool
  isEmpty : EdgeId → R → Bool
  /-- Whether the region may still be allocated at the edge. -/
  isLive : EdgeId → R → Bool
  /-- The size of the region. -/
  size : EdgeId → R → Value V
  /-- The term from which the leaf was built. -/
  base : R → Option TermId
  text : R → String

end JointAnalysis
