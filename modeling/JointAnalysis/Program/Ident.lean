/-!
# Identifiers

Terms, parts and edges are numbered in the order in which they are added to the program or to the
transition system they belong to. Functions are identified by their names.
-/

namespace JointAnalysis

/-- The identity of a program term. -/
structure TermId where
  index : Nat
  deriving DecidableEq, Repr

/-- The identity of a part of a transition system: one abstract program point. -/
structure PartId where
  index : Nat
  deriving DecidableEq, Repr

/-- The identity of a partial-execution edge, the point between two steps of execution at which a
question is asked. -/
structure EdgeId where
  index : Nat
  deriving DecidableEq, Repr

/-- The identity of a function of the program. -/
structure FunctionName where
  name : String
  deriving DecidableEq, Repr

/-- A term in listings: `t3`. -/
def TermId.text (t : TermId) : String := s!"t{t.index}"

/-- A part in listings: `p3`. -/
def PartId.text (p : PartId) : String := s!"p{p.index}"

/-- An edge in listings: `e3`. -/
def EdgeId.text (e : EdgeId) : String := s!"e{e.index}"

/-- A function in listings: its name. -/
def FunctionName.text (f : FunctionName) : String := f.name

end JointAnalysis
