/-!
# Abstract objects

An abstract object stands for a set of concrete entities of one family. It denotes everything, or
nothing, or what a plain object of the family denotes, or the union or the intersection of what
several objects denote. Functions of one object are folds over this structure.
-/

namespace JointAnalysis

/-- How the objects in a combination act together. -/
inductive Mode where
  | union
  | intersect
  deriving DecidableEq, Repr

/-- Whether a combination denotes the union of its children. -/
def Mode.isUnion : Mode → Bool
  | .union => true
  | .intersect => false

/-- A mode in listings. -/
def Mode.text : Mode → String
  | .union => "Union"
  | .intersect => "Intersect"

/-- A set of concrete entities, built from the plain objects `α` of a family. -/
inductive AbstractObject (α : Type) where
  | full
  | empty
  | plain (object : α)
  | combined (mode : Mode) (children : List (AbstractObject α))
  deriving Repr

/-- What to make of each shape of an object, given what was made of the children. -/
structure ObjectFold (α β : Type) where
  full : β
  empty : β
  plain : α → β
  combined : Mode → List β → β

namespace AbstractObject

variable {α β : Type}

mutual

/-- Fold an object from its innermost children outwards. -/
def fold (f : ObjectFold α β) : AbstractObject α → β
  | .full => f.full
  | .empty => f.empty
  | .plain x => f.plain x
  | .combined mode children => f.combined mode (foldList f children)

/-- Fold each object of a list. -/
def foldList (f : ObjectFold α β) : List (AbstractObject α) → List β
  | [] => []
  | o :: rest => fold f o :: foldList f rest

end

/-- Folding a list folds each of its objects. -/
theorem foldList_eq_map (f : ObjectFold α β) (os : List (AbstractObject α)) :
    foldList f os = os.map (fold f) := by
  induction os with
  | nil => rfl
  | cons o rest ih => rw [foldList, ih, List.map_cons]

/-- A combination is folded from what its children are folded to. -/
theorem fold_combined (f : ObjectFold α β) (mode : Mode) (children : List (AbstractObject α)) :
    fold f (.combined mode children) = f.combined mode (children.map (fold f)) := by
  rw [fold, foldList_eq_map]

/-- Which of the two built-in objects this is, if it is one. -/
inductive Bound where
  | full
  | empty
  deriving DecidableEq, Repr

/-- The built-in object that stands here, if one does. -/
def bound? : AbstractObject α → Option Bound
  | .full => some .full
  | .empty => some .empty
  | _ => none

/-- The mode and the children, if this is a combination. -/
def combination? : AbstractObject α → Option (Mode × List (AbstractObject α))
  | .combined mode children => some (mode, children)
  | _ => none

/-- The plain object that stands here, if one does. -/
def plain? : AbstractObject α → Option α
  | .plain x => some x
  | _ => none

/-- The text of an object, given the texts of the two built-in and of the plain objects. -/
def text (full empty : String) (plain : α → String) : AbstractObject α → String :=
  fold {
    full := full
    empty := empty
    plain := plain
    combined := fun mode children => mode.text ++ "[" ++ ", ".intercalate children ++ "]" }

/-- The value on which all entries of a list agree; nothing for the empty list. -/
def common? [DecidableEq β] : List (Option β) → Option β
  | [] => none
  | first :: rest => if rest.all (· = first) then first else none

/-- The one thing from which the object was built, if there is one: a combination was built from
what all its children were built from. -/
def base [DecidableEq β] (plain : α → Option β) : AbstractObject α → Option β :=
  fold { full := none, empty := none, plain := plain, combined := fun _ bases => common? bases }

end AbstractObject

end JointAnalysis
