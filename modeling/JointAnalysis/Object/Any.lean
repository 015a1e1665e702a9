import JointAnalysis.Object.MemLoc

/-!
# Objects of any family

Operations on objects whose family is known only when they are asked. Objects of different families
are never equal and cannot be met; a question about two objects of one family is settled by a
shortcut, by the arbiter, or by the objects themselves, in this order.
-/

namespace JointAnalysis

variable {m : Type → Type} [Monad m] [MonadExceptOf Fault m]
variable {V R : Type} [ValueDomain V] [RegionDomain V R]

/-- How the plain objects of each family compare at an edge. -/
def Family.comparison (arbiter : Arbiter m V R) (edge : EdgeId) :
    (family : Family) → Comparison m (Plain V R family)
  | .value => Value.comparison edge
  | .codeLoc => CodeLoc.comparison
  | .memRegion => MemRegion.comparison edge
  | .memLoc => MemLoc.comparison arbiter edge

/-- What is settled in advance about the objects of each family. -/
def Family.shortcuts : (family : Family) → Shortcuts V R family
  | .value => Value.shortcuts
  | .codeLoc => CodeLoc.shortcuts
  | .memRegion => MemRegion.shortcuts
  | .memLoc => MemLoc.shortcuts

/-- The text of an object of each family. -/
def Family.textOf : (family : Family) → Object V R family → String
  | .value, o => Value.text o
  | .codeLoc, o => CodeLoc.text o
  | .memRegion, o => MemRegion.text o
  | .memLoc, o => MemLoc.text o

namespace AnyObject

/-- An object in listings. -/
def text (a : AnyObject V R) : String := a.family.textOf a.object

/-- The term from which an object was built. -/
def base (a : AnyObject V R) : Option TermId := a.family.shortcuts.base a.object

omit [ValueDomain V] [RegionDomain V R] in
/-- The object, which has to belong to the given family. -/
def expect (a : AnyObject V R) (family : Family) : m (Object V R family) :=
  match a.as? family with
  | some object => pure object
  | none => throw (.familyMismatch family a.family)

omit [ValueDomain V] [RegionDomain V R] in
/-- The combination of objects that have to belong to the given family. -/
def combine (family : Family) (mode : Mode) (objects : List (AnyObject V R)) :
    m (AnyObject V R) := do
  let children ← objects.mapM (·.expect family)
  pure ⟨family, .combined mode children⟩

omit [ValueDomain V] in
/-- The size of an object that has to be a region. -/
def size (edge : EdgeId) (a : AnyObject V R) : m (AnyObject V R) := do
  let region ← a.expect .memRegion
  pure ⟨.value, MemRegion.size edge region⟩

/-- Whether two objects of one family were built from one and the same term. -/
def sameBase (a b : AnyObject V R) : Bool :=
  a.family = b.family && a.base.isSome && a.base = b.base

/-- A comparison of two objects. -/
def relate (arbiter : Arbiter m V R) (edge : EdgeId) (relation : Relation) (a b : AnyObject V R) :
    m Bool :=
  match b.as? a.family with
  | some o =>
    a.family.shortcuts.relate arbiter edge (a.family.comparison arbiter edge) relation a.object o
  | none => pure false

/-- A question about one object. -/
def test (arbiter : Arbiter m V R) (edge : EdgeId) (test : Test) (a : AnyObject V R) : m Bool :=
  arbiter.test a.family (a.family.comparison arbiter edge) test a.object

/-- The first object narrowed to what the second denotes as well. -/
def meet (arbiter : Arbiter m V R) (edge : EdgeId) (a b : AnyObject V R) :
    m (Met (AnyObject V R)) := do
  let o ← b.expect a.family
  let met ← arbiter.meet a.family (a.family.comparison arbiter edge) a.object o
  pure ⟨⟨a.family, met.object⟩, met.changed⟩

/-- Put a comparison before the arbiter without trying the shortcuts. -/
def submit (arbiter : Arbiter m V R) (edge : EdgeId) (relation : Relation) (a b : AnyObject V R) :
    m Bool :=
  arbiter.orElse (.relation relation a b) <|
    match b.as? a.family with
    | some o => a.object.relate (a.family.comparison arbiter edge) relation o
    | none => pure false

/-- Put a meet before the arbiter without looking at the families first. -/
def submitMeet (arbiter : Arbiter m V R) (edge : EdgeId) (a b : AnyObject V R) :
    m (Met (AnyObject V R)) := do
  match ← arbiter.consult (.meet a b) with
  | some changed => pure ⟨a, changed⟩
  | none =>
    let o ← b.expect a.family
    let met ← a.object.meet (a.family.comparison arbiter edge) o
    pure ⟨⟨a.family, met.object⟩, met.changed⟩

end AnyObject

/-- A question in traces. -/
def Question.text (q : Question V R) : String :=
  match q with
  | .relation _ a b => q.operation.text ++ "(" ++ a.text ++ ", " ++ b.text ++ ")"
  | .meet a b => q.operation.text ++ "(" ++ a.text ++ ", " ++ b.text ++ ")"
  | .test _ a => q.operation.text ++ "(" ++ a.text ++ ")"

omit [ValueDomain V] [RegionDomain V R] in
/-- The arbiter who keeps a record of the questions, the latest last, and answers those about the
operations for which an answer is fixed in advance. -/
def Arbiter.recording (fixed : Operation → Option Bool) :
    Arbiter (ExceptT Fault (StateM (List (Question V R)))) V R where
  consult question := do
    modify (· ++ [question])
    pure (fixed question.operation)

end JointAnalysis
