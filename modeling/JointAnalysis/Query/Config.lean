import JointAnalysis.Object.Basic

/-!
# Settings of a composer
-/

namespace JointAnalysis

/-- How long a composer keeps finished answers. -/
inductive CachePolicy where
  /-- For good, or until they are cleared. -/
  | retain
  /-- Until the outermost query returns. -/
  | perTopLevelQuery
  deriving DecidableEq, Repr

/-- The settings of a composer. -/
structure Config where
  cachePolicy : CachePolicy := .retain
  /-- How the answers about an operand along several edges are combined. -/
  operandMode : Mode := .union
  /-- How many further resolutions of a query may start while one is under way, before the answer
  is that nothing is known. -/
  reentrantResolutions : Nat := 1
  deriving DecidableEq, Repr

end JointAnalysis
