import JointAnalysis.Literal.Basic
import JointAnalysis.Program.Error

/-!
# Programs as forests of terms

A program is a forest. Each term may have operands, which are terms too, attached one after the
other; a term is attached at most once and never under itself or one of its own descendants.
-/

namespace JointAnalysis

/-- What a term is. -/
inductive TermKind where
  | expression
  | statement
  | declaration
  | literal (value : Literal)
  deriving DecidableEq, Repr

/-- A term together with the text that shows it in listings. -/
structure Term where
  kind : TermKind
  label : String
  deriving DecidableEq, Repr

/-- `child` is the operand of `parent` at `position`, counted from zero. -/
structure Attachment where
  parent : TermId
  child : TermId
  position : Nat
  deriving DecidableEq, Repr

/-- The terms of a program in the order of their identifiers, and the attachments between them in
the order in which they were made. -/
structure Program where
  terms : List Term
  attachments : List Attachment
  deriving Repr

namespace Program

/-- The program without terms. -/
def empty : Program := ⟨[], []⟩

/-- The number of terms. -/
def size (p : Program) : Nat := p.terms.length

/-- Whether the program has no terms. -/
def isEmpty (p : Program) : Bool := p.terms.isEmpty

/-- The term with the given identifier. -/
def term? (p : Program) (t : TermId) : Option Term := p.terms[t.index]?

/-- Add a term without parent and operands. -/
def addTerm (p : Program) (kind : TermKind) (label : String) : TermId × Program :=
  (⟨p.terms.length⟩, { p with terms := p.terms ++ [⟨kind, label⟩] })

/-- Add a literal, shown by its own text. -/
def addLiteral (p : Program) (literal : Literal) : TermId × Program :=
  p.addTerm (.literal literal) literal.text

/-- The term under which `t` is attached. -/
def parent? (p : Program) (t : TermId) : Option TermId :=
  (p.attachments.find? (·.child = t)).map (·.parent)

/-- The operands of `t` by their positions. -/
def operandList (p : Program) (t : TermId) : List TermId :=
  ((p.attachments.filter (·.parent = t)).mergeSort (·.position ≤ ·.position)).map (·.child)

/-- The term `t`, its parent, the parent of that one and so on, at most `steps` parents. -/
def ascend (p : Program) : Nat → TermId → List TermId
  | 0, t => [t]
  | steps + 1, t =>
    match p.parent? t with
    | none => [t]
    | some above => t :: p.ascend steps above

/-- The term `t` followed by all its ancestors, the nearest first. In a forest a chain of ancestors
has no more members than there are terms. -/
def lineage (p : Program) (t : TermId) : List TermId := p.ascend p.terms.length t

/-- The term with the given identifier, which has to exist. -/
def term (p : Program) (t : TermId) : Except StructureError Term :=
  match p.term? t with
  | some found => .ok found
  | none => .error (.unknownTerm t)

/-- The parent, if there is one, of a term that has to exist. -/
def parent (p : Program) (t : TermId) : Except StructureError (Option TermId) := do
  let _ ← p.term t
  return p.parent? t

/-- The operands, in their order, of a term that has to exist. -/
def operands (p : Program) (t : TermId) : Except StructureError (List TermId) := do
  let _ ← p.term t
  return p.operandList t

/-- Whether `operand`, which has to exist, is attached under `t`. -/
def isOperandOf (p : Program) (operand t : TermId) : Except StructureError Bool := do
  return (← p.parent operand) = some t

/-- Attach `child` as the next operand of `parent`, unless there is a reason against it: what comes
of it, and the program afterwards. -/
def attach (p : Program) (parent child : TermId) : Except StructureError Unit × Program :=
  match p.parent child with
  | .error e => (.error e, p)
  | .ok (some above) => (.error (.alreadyParented child above), p)
  | .ok none =>
    match p.term parent with
    | .error e => (.error e, p)
    | .ok _ =>
      if child ∈ p.lineage parent then
        (.error (.cyclicTerm child parent), p)
      else
        let position := (p.operandList parent).length
        (.ok (), { p with attachments := p.attachments ++ [⟨parent, child, position⟩] })

end Program

end JointAnalysis
