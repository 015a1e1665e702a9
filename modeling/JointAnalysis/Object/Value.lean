import JointAnalysis.Object.Domain

/-!
# Values

Value objects compare as their leaves say. A value is *concrete* when it denotes a finite set of
known literals; `Value.literals` lists them without repetition.
-/

namespace JointAnalysis

namespace Value

variable {V : Type} [ValueDomain V]

/-- How the leaves of values compare at an edge. -/
def comparison {m : Type → Type} [Monad m] (edge : EdgeId) : Comparison m V where
  mayEqual x y := pure (ValueDomain.mayEqual edge x y)
  mustEqual x y := pure (ValueDomain.mustEqual edge x y)
  equalSet x y := pure (ValueDomain.equalSet edge x y)
  subSet x y := pure (ValueDomain.subSet edge x y)
  meet x y :=
    let met := ValueDomain.meet edge x y
    pure ⟨.plain met.object, met.changed⟩
  isFull x := pure (ValueDomain.isFull edge x)
  isEmpty x := pure (ValueDomain.isEmpty edge x)
  isLive _ := pure true
  meetsPairwise := true

/-- A value in listings. -/
def text (v : Value V) : String :=
  AbstractObject.text "FullValue" "EmptyValue" ValueDomain.text v

/-- The term from which a value was built. -/
def base (v : Value V) : Option TermId :=
  AbstractObject.base ValueDomain.base v

/-- Whether some literal of the list is the same constant as `l`. -/
def lists (ls : List Literal) (l : Literal) : Bool := ls.any (·.agrees l)

/-- The literals of a list without those that repeat an earlier constant. -/
def distinct (ls : List Literal) : List Literal :=
  ls.foldl (fun kept l => if lists kept l then kept else kept ++ [l]) []

/-- What is known about the literals of a value: whether it is concrete, and the literals. -/
structure Knowledge where
  concrete : Bool
  literals : List Literal

/-- What is known about a combination from what is known about its children. A union is concrete if
all its children are, and may be any of their literals. An intersection is concrete if one of its
children is, and may be any literal that all its concrete children list. -/
def Knowledge.combine (mode : Mode) (children : List Knowledge) : Knowledge :=
  match mode with
  | .union =>
    ⟨children.all (·.concrete), distinct (children.flatMap (·.literals))⟩
  | .intersect =>
    match children.filter (·.concrete) with
    | [] => ⟨false, []⟩
    | first :: rest =>
      ⟨true, distinct (first.literals.filter fun l => rest.all fun k => lists k.literals l)⟩

/-- What is known about the literals of a value. -/
def knowledge : Value V → Knowledge :=
  AbstractObject.fold {
    full := ⟨false, []⟩
    empty := ⟨false, []⟩
    plain := fun x => ⟨ValueDomain.isConcrete x, distinct (ValueDomain.literals x)⟩
    combined := Knowledge.combine }

/-- Whether the value denotes a finite set of known literals. -/
def isConcrete (v : Value V) : Bool := (knowledge v).concrete

/-- The literals that the value may be, without repetition. -/
def literals (v : Value V) : List Literal := (knowledge v).literals

/-- How the value decides a condition, when it is concrete and all its literals decide alike. -/
def truth (v : Value V) : Option Bool :=
  if isConcrete v then AbstractObject.common? ((literals v).map Literal.truth) else none

end Value

end JointAnalysis
