import JointAnalysis.Object.CodeLoc
import JointAnalysis.Object.MemRegion

/-!
# Who answers questions about objects

Questions about objects of one family are put before an *arbiter*, who may answer them in place of
the objects. Only when the arbiter leaves a question open do the objects answer themselves. Two
things are settled before the arbiter hears of them: how function results relate, and that two
objects built from one and the same term are equal unless they are empty.
-/

namespace JointAnalysis

/-- A question about one or two objects. -/
inductive Question (V R : Type) where
  | relation (relation : Relation) (a b : AnyObject V R)
  | meet (a b : AnyObject V R)
  | test (test : Test) (a : AnyObject V R)

/-- The operation that a question asks for. -/
def Question.operation {V R : Type} : Question V R → Operation
  | .relation r _ _ => .relation r
  | .meet _ _ => .meet
  | .test t _ => .test t

/-- Someone who hears every question about objects and may answer it. An answer to a meet says
whether there was a change and leaves the object as it is. -/
structure Arbiter (m : Type → Type) (V R : Type) where
  consult : Question V R → m (Option Bool)

namespace Arbiter

variable {m : Type → Type} [Monad m] {V R : Type}

/-- The arbiter who leaves every question to the objects. -/
def silent : Arbiter m V R := ⟨fun _ => pure none⟩

/-- The arbiter's answer, or else the objects' own. -/
def orElse (arbiter : Arbiter m V R) (question : Question V R) (own : m Bool) : m Bool := do
  match ← arbiter.consult question with
  | some answer => pure answer
  | none => own

/-- What the arbiter, or else the objects themselves, say about two objects of one family. -/
def relate [MonadExceptOf Fault m] (arbiter : Arbiter m V R) (family : Family)
    (c : Comparison m (Plain V R family)) (relation : Relation) (a b : Object V R family) :
    m Bool :=
  arbiter.orElse (.relation relation ⟨family, a⟩ ⟨family, b⟩) (a.relate c relation b)

/-- What the arbiter, or else the object itself, says about one object. -/
def test (arbiter : Arbiter m V R) (family : Family) (c : Comparison m (Plain V R family))
    (test : Test) (a : Object V R family) : m Bool :=
  arbiter.orElse (.test test ⟨family, a⟩) (a.test c test)

/-- Meet two objects of one family, unless the arbiter does it. -/
def meet [MonadExceptOf Fault m] (arbiter : Arbiter m V R) (family : Family)
    (c : Comparison m (Plain V R family)) (a b : Object V R family) :
    m (Met (Object V R family)) := do
  match ← arbiter.consult (.meet ⟨family, a⟩ ⟨family, b⟩) with
  | some changed => pure ⟨a, changed⟩
  | none => a.meet c b

end Arbiter

/-- What is settled about two objects of a family before anyone is asked. -/
structure Shortcuts (V R : Type) (family : Family) where
  /-- How function results relate the two objects at an edge. -/
  results : EdgeId → Object V R family → Object V R family → Option Bool
  /-- The term from which an object was built. -/
  base : Object V R family → Option TermId

namespace Shortcuts

variable {m : Type → Type} [Monad m] [MonadExceptOf Fault m] {V R : Type} {family : Family}

/-- Whether two objects were built from one and the same term. -/
def sameBase (s : Shortcuts V R family) (a b : Object V R family) : Bool :=
  match s.base a, s.base b with
  | some x, some y => x = y
  | _, _ => false

/-- Whether a question for certain equality is settled because the two objects were built from one
and the same term and neither of them is empty. -/
def provedByBase (s : Shortcuts V R family) (arbiter : Arbiter m V R)
    (c : Comparison m (Plain V R family)) (relation : Relation) (a b : Object V R family) :
    m Bool :=
  if relation = .mustEqual ∧ s.sameBase a b then
    firstHit false [(! ·) <$> arbiter.test family c .isEmpty a,
      (! ·) <$> arbiter.test family c .isEmpty b]
  else
    pure false

/-- Settle a comparison at an edge by a shortcut or put it before the arbiter. -/
def relate (s : Shortcuts V R family) (arbiter : Arbiter m V R) (edge : EdgeId)
    (c : Comparison m (Plain V R family)) (relation : Relation) (a b : Object V R family) :
    m Bool := do
  if ← s.provedByBase arbiter c relation a b then
    pure true
  else
    match s.results edge a b with
    | some answer => pure answer
    | none => arbiter.relate family c relation a b

end Shortcuts

/-- What is settled about values in advance. -/
def Value.shortcuts {V R : Type} [ValueDomain V] : Shortcuts V R .value where
  results _ _ _ := none
  base := Value.base

/-- What is settled about places in the code in advance. Nothing: two places at one term can still
lie in different parts. -/
def CodeLoc.shortcuts {V R : Type} : Shortcuts V R .codeLoc where
  results _ _ _ := none
  base _ := none

/-- What is settled about regions in advance. -/
def MemRegion.shortcuts {V R : Type} [RegionDomain V R] : Shortcuts V R .memRegion where
  results := MemRegion.resultRelation
  base := MemRegion.base

end JointAnalysis
