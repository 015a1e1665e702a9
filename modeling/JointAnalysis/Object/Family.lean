import JointAnalysis.Object.Basic
import JointAnalysis.Program.Ident

/-!
# The families of abstract objects

There are four families: the values of expressions, the places in the code, the regions of memory,
and the locations in memory. Values and regions have an open part, the *leaves* `V` and `R`, which
belong to the analyses that make them.
-/

namespace JointAnalysis

/-- The kind of entities that an object denotes. -/
inductive Family where
  | value
  | codeLoc
  | memRegion
  | memLoc
  deriving DecidableEq, Repr

/-- A family in messages. -/
def Family.text : Family → String
  | .value => "Value"
  | .codeLoc => "CodeLoc"
  | .memRegion => "MemRegion"
  | .memLoc => "MemLoc"

/-- A place in the code: a part of the transition system and the term that runs there. A missing
field stands for every part or every term. -/
structure CodePoint where
  part : Option PartId
  term : Option TermId
  deriving DecidableEq, Repr

/-- A plain region of memory: the storage for the result of a function, or what an analysis
defines. -/
inductive Storage (R : Type) where
  | result (function : FunctionName)
  | leaf (region : R)
  deriving Repr

/-- A region of memory, narrowed by an index into it if there is one. -/
structure Slot (V R : Type) where
  region : AbstractObject (Storage R)
  index : Option (AbstractObject V)
  deriving Repr

/-- A plain location in memory: the place of the result of a function, or a slot. -/
inductive Cell (V R : Type) where
  | result (function : FunctionName)
  | slot (slot : Slot V R)
  deriving Repr

/-- The region and index that a plain location stands for. The place of a function's result is the
whole of its storage. -/
def Cell.toSlot {V R : Type} : Cell V R → Slot V R
  | .result f => ⟨.plain (.result f), none⟩
  | .slot s => s

/-- The plain objects of each family. -/
@[reducible] def Plain (V R : Type) : Family → Type
  | .value => V
  | .codeLoc => CodePoint
  | .memRegion => Storage R
  | .memLoc => Cell V R

/-- The objects of one family. -/
abbrev Object (V R : Type) (family : Family) : Type := AbstractObject (Plain V R family)

/-- A set of values. -/
abbrev Value (V : Type) : Type := AbstractObject V

/-- A set of places in the code. -/
abbrev CodeLoc : Type := AbstractObject CodePoint

/-- A set of regions of memory. -/
abbrev MemRegion (R : Type) : Type := AbstractObject (Storage R)

/-- A set of locations in memory. -/
abbrev MemLoc (V R : Type) : Type := AbstractObject (Cell V R)

/-- An object together with its family. -/
structure AnyObject (V R : Type) where
  family : Family
  object : Object V R family

/-- The object, if it belongs to the given family. -/
def AnyObject.as? {V R : Type} : AnyObject V R → (family : Family) → Option (Object V R family)
  | ⟨.value, o⟩, .value => some o
  | ⟨.codeLoc, o⟩, .codeLoc => some o
  | ⟨.memRegion, o⟩, .memRegion => some o
  | ⟨.memLoc, o⟩, .memLoc => some o
  | _, _ => none

end JointAnalysis
