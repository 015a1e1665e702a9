import JointAnalysis.Object.Comparison

/-!
# Combinations by themselves

A combination taken apart from the objects it occurs in. Two combinations are compared position by
position, and a combination and any other object by taking that object against every child.
-/

namespace JointAnalysis

/-- Several objects of one family and the way in which they act together. -/
structure Combination (α : Type) where
  mode : Mode
  children : List (AbstractObject α)

namespace Combination

variable {m : Type → Type} [Monad m] [MonadExceptOf Fault m] {α : Type}

omit [Monad m] [MonadExceptOf Fault m] in
/-- The combination of one child. -/
def singleton (mode : Mode) (child : AbstractObject α) : Combination α := ⟨mode, [child]⟩

/-- The combination with one more child at its end. -/
def add (k : Combination α) (child : AbstractObject α) : Combination α :=
  { k with children := k.children ++ [child] }

/-- The number of children. -/
def size (k : Combination α) : Nat := k.children.length

/-- The combination as an object. -/
def toObject (k : Combination α) : AbstractObject α := .combined k.mode k.children

/-- The truth value with which one child decides a comparison for the whole combination. A child
decides for a union that there is a common entity or an inclusion, and for an intersection that
there is none. It is the other way round for certain equality, and one child always suffices to
deny that two sets are equal. -/
def decisive (mode : Mode) : Relation → Bool
  | .mayEqual => mode.isUnion
  | .mustEqual => !mode.isUnion
  | .equalSet => false
  | .subSet => mode.isUnion

/-- Compare every child with one object. -/
def relateEach (c : Comparison m α) (relation : Relation) (k : Combination α)
    (x : AbstractObject α) : m Bool :=
  firstHit (decisive k.mode relation) (k.children.map fun child => child.relate c relation x)

/-- Whether the combination denotes at least what an object denotes, by asking this of every
child. -/
def includes (c : Comparison m α) (k : Combination α) (x : AbstractObject α) : m Bool :=
  firstHit k.mode.isUnion (k.children.map fun child => x.subSet c child)

/-- Compare two combinations position by position. -/
def relate (c : Comparison m α) (relation : Relation) (k l : Combination α) : m Bool :=
  k.toObject.relate c relation l.toObject

/-- Meet two combinations position by position. -/
def meet (c : Comparison m α) (k l : Combination α) : m (Met (Combination α)) := do
  if k.children.length = l.children.length then
    let met ← Met.collect (List.zipWith (fun a b => a.meet c b) k.children l.children)
    pure ⟨⟨k.mode, met.object⟩, met.changed⟩
  else
    throw (.unequalCounts .meet k.children.length l.children.length)

/-- Meet one object into every child. -/
def meetEach (c : Comparison m α) (k : Combination α) (x : AbstractObject α) :
    m (Met (Combination α)) := do
  let met ← Met.collect (k.children.map fun child => child.meet c x)
  pure ⟨⟨k.mode, met.object⟩, met.changed⟩

/-- The combination of what results when each child is met into one object. -/
def meetInto (c : Comparison m α) (k : Combination α) (x : AbstractObject α) :
    m (Combination α) := do
  let met ← Met.collect (k.children.map fun child => x.meet c child)
  pure ⟨k.mode, met.object⟩

end Combination

end JointAnalysis
