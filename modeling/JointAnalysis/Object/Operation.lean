/-!
# Operations on abstract objects

The questions that can be asked about one or two objects, with the names under which traces and
messages mention them.
-/

namespace JointAnalysis

/-- A comparison of two objects. -/
inductive Relation where
  | mayEqual
  | mustEqual
  | equalSet
  | subSet
  deriving DecidableEq, Repr

/-- A question about one object. -/
inductive Test where
  | isFull
  | isEmpty
  | isLive
  deriving DecidableEq, Repr

/-- Any of the operations on objects. -/
inductive Operation where
  | relation (relation : Relation)
  | meet
  | test (test : Test)
  deriving DecidableEq, Repr

/-- The name of an operation. -/
def Operation.text : Operation → String
  | .relation .mayEqual => "may_equal"
  | .relation .mustEqual => "must_equal"
  | .relation .equalSet => "equal_set"
  | .relation .subSet => "sub_set"
  | .meet => "meet_update"
  | .test .isFull => "is_full"
  | .test .isEmpty => "is_empty"
  | .test .isLive => "is_live"

/-- All operations. -/
def Operation.all : List Operation :=
  [.relation .mayEqual, .relation .mustEqual, .relation .equalSet, .relation .subSet, .meet,
    .test .isFull, .test .isEmpty, .test .isLive]

/-- The operation of the given name. -/
def Operation.ofText? (name : String) : Option Operation :=
  Operation.all.find? (·.text = name)

end JointAnalysis
