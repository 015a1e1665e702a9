import JointAnalysis.Object.Comparison

/-!
# Flat lattices

The flat lattice over a type has one element for each of its entities, one element that denotes no
entity, and one that denotes all of them. Every comparison below is exact for the sets that the
elements denote, up to types with at most one entity.
-/

namespace JointAnalysis

/-- No entity, exactly one, or any. -/
inductive Flat (α : Type) where
  | bottom
  | exactly (entity : α)
  | top
  deriving DecidableEq, Repr

namespace Flat

variable {α : Type} [DecidableEq α]

/-- Whether two elements have a common entity. -/
def mayEqual : Flat α → Flat α → Bool
  | .bottom, _ => false
  | _, .bottom => false
  | .exactly a, .exactly b => a = b
  | _, _ => true

/-- Whether two elements denote one and the same entity. -/
def mustEqual : Flat α → Flat α → Bool
  | .exactly a, .exactly b => a = b
  | _, _ => false

/-- Whether the first element denotes a part of what the second denotes. -/
def subSet : Flat α → Flat α → Bool
  | .bottom, _ => true
  | _, .top => true
  | .exactly a, .exactly b => a = b
  | _, _ => false

/-- The first element narrowed to what the second denotes as well. -/
def meet : Flat α → Flat α → Met (Flat α)
  | .bottom, _ => ⟨.bottom, false⟩
  | a, .top => ⟨a, false⟩
  | .top, b => ⟨b, true⟩
  | .exactly a, .exactly b => if a = b then ⟨.exactly a, false⟩ else ⟨.bottom, true⟩
  | .exactly _, .bottom => ⟨.bottom, true⟩

/-- An element in listings, by the words for nothing and for everything and the text of an
entity. -/
def text {α : Type} (nothing everything : String) (entity : α → String) : Flat α → String
  | .bottom => nothing
  | .exactly a => entity a
  | .top => everything

end Flat

end JointAnalysis
