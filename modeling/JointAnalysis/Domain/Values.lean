import JointAnalysis.Domain.Flat
import JointAnalysis.Object.Value

/-!
# Domains of values

Three kinds of value leaves: the flat lattice of integer constants, finite sets of literals, and
named unknowns. Leaves of different kinds know nothing about each other.
-/

namespace JointAnalysis

/-- A finite set of literals. It counts as concrete only if its maker says so. -/
structure LiteralSet where
  literals : List Literal
  concrete : Bool
  deriving Repr

namespace LiteralSet

/-- Whether the set holds the constant `l`. -/
def holds (s : LiteralSet) (l : Literal) : Bool := s.literals.any l.agrees

/-- Whether two sets have a literal in common. -/
def mayEqual (s t : LiteralSet) : Bool := s.literals.any t.holds

/-- Whether two sets hold one and the same literal and no other. -/
def mustEqual (s t : LiteralSet) : Bool :=
  !s.literals.isEmpty && !t.literals.isEmpty && s.literals.all fun l => t.literals.all l.agrees

/-- Whether the second set holds every literal of the first. -/
def subSet (s t : LiteralSet) : Bool := s.literals.all t.holds

/-- The first set without the literals that the second does not hold. -/
def meet (s t : LiteralSet) : Met LiteralSet :=
  ⟨{ s with literals := s.literals.filter t.holds }, !s.subSet t⟩

/-- A set in listings. -/
def text (s : LiteralSet) : String :=
  "\x7b" ++ "|".intercalate (s.literals.map Literal.text) ++ "\x7d"

end LiteralSet

/-- A leaf of a value object. -/
inductive ValueLeaf where
  /-- An element of the flat lattice and the term from which it was built. -/
  | flat (value : Flat Int64) (base : Option TermId)
  /-- A set of literals and the term from which it was built. -/
  | literals (set : LiteralSet) (base : Option TermId)
  /-- An unknown value of which only the name is known. -/
  | symbol (name : String)
  deriving Repr

namespace ValueLeaf

/-- Whether two leaves may denote the same value. -/
def mayEqual : ValueLeaf → ValueLeaf → Bool
  | .flat x _, .flat y _ => x.mayEqual y
  | .literals s _, .literals t _ => s.mayEqual t
  | .symbol a, .symbol b => a = b
  | _, _ => true

/-- Whether two leaves certainly denote one and the same value. Two unknowns of one name need not
have the same value. -/
def mustEqual : ValueLeaf → ValueLeaf → Bool
  | .flat x _, .flat y _ => x.mustEqual y
  | .literals s _, .literals t _ => s.mustEqual t
  | _, _ => false

/-- Whether two leaves denote the same set of values. -/
def equalSet : ValueLeaf → ValueLeaf → Bool
  | .flat x _, .flat y _ => x = y
  | .literals s _, .literals t _ => s.subSet t && t.subSet s
  | .symbol a, .symbol b => a = b
  | _, _ => false

/-- Whether the first leaf denotes a part of what the second denotes. -/
def subSet : ValueLeaf → ValueLeaf → Bool
  | .flat x _, .flat y _ => x.subSet y
  | .literals s _, .literals t _ => s.subSet t
  | .symbol a, .symbol b => a = b
  | _, _ => false

/-- The first leaf narrowed to what the second denotes as well. It stays as it is beside a leaf of
another kind, and it keeps the term from which it was built. -/
def meet : ValueLeaf → ValueLeaf → Met ValueLeaf
  | .flat x base, .flat y _ =>
    let met := x.meet y
    ⟨.flat met.object base, met.changed⟩
  | .literals s base, .literals t _ =>
    let met := s.meet t
    ⟨.literals met.object base, met.changed⟩
  | leaf, _ => ⟨leaf, false⟩

/-- Whether a leaf denotes every value. -/
def isFull : ValueLeaf → Bool
  | .flat x _ => x = .top
  | _ => false

/-- Whether a leaf denotes no value. -/
def isEmpty : ValueLeaf → Bool
  | .flat x _ => x = .bottom
  | .literals s _ => s.literals.isEmpty
  | .symbol _ => false

/-- Whether the literals of a leaf are all that it denotes. -/
def isConcrete : ValueLeaf → Bool
  | .flat (.exactly _) _ => true
  | .literals s _ => s.concrete
  | _ => false

/-- The literals that a leaf is known to denote. -/
def listed : ValueLeaf → List Literal
  | .flat (.exactly c) _ => [.int c]
  | .literals s _ => s.literals
  | _ => []

/-- The term from which a leaf was built. -/
def base : ValueLeaf → Option TermId
  | .flat _ base => base
  | .literals _ base => base
  | .symbol _ => none

/-- A leaf in listings. -/
def text : ValueLeaf → String
  | .flat x _ => x.text "bottom" "top" fun c => toString c.toInt
  | .literals s _ => s.text
  | .symbol name => "?" ++ name

end ValueLeaf

instance : ValueDomain ValueLeaf where
  mayEqual _ := ValueLeaf.mayEqual
  mustEqual _ := ValueLeaf.mustEqual
  equalSet _ := ValueLeaf.equalSet
  subSet _ := ValueLeaf.subSet
  meet _ := ValueLeaf.meet
  isFull _ := ValueLeaf.isFull
  isEmpty _ := ValueLeaf.isEmpty
  isConcrete := ValueLeaf.isConcrete
  literals := ValueLeaf.listed
  base := ValueLeaf.base
  text := ValueLeaf.text

/-- The value that is one integer constant. -/
def Value.constant (n : Int64) : Value ValueLeaf := .plain (.flat (.exactly n) none)

/-- The value of the flat lattice of which nothing is known. -/
def Value.unknown : Value ValueLeaf := .plain (.flat .top none)

/-- The value of the flat lattice that is no value. -/
def Value.impossible : Value ValueLeaf := .plain (.flat .bottom none)

end JointAnalysis
