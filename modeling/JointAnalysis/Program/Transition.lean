import JointAnalysis.Program.Error

/-!
# Transition systems

Parts are located at program terms and connected by directed edges. `operandEdges` lists the edges
at which an operand may have been evaluated last before execution passes a given edge.
-/

namespace JointAnalysis

/-- An edge from one part to another. -/
structure Transition where
  source : PartId
  target : PartId
  deriving DecidableEq, Repr

/-- The terms at which the parts are located, in the order of the parts' identifiers, and the edges
in the order of theirs. -/
structure TransitionSystem where
  parts : List TermId
  edges : List Transition
  deriving Repr

namespace TransitionSystem

/-- The system without parts. -/
def empty : TransitionSystem := ⟨[], []⟩

/-- The term at which a part is located. -/
def location? (g : TransitionSystem) (p : PartId) : Option TermId := g.parts[p.index]?

/-- The edge with the given identifier. -/
def edge? (g : TransitionSystem) (e : EdgeId) : Option Transition := g.edges[e.index]?

/-- Add a part located at `t`. -/
def addPart (g : TransitionSystem) (t : TermId) : PartId × TransitionSystem :=
  (⟨g.parts.length⟩, { g with parts := g.parts ++ [t] })

/-- Fail unless the part exists. -/
def checkPart (g : TransitionSystem) (p : PartId) : Except StructureError Unit :=
  match g.location? p with
  | some _ => .ok ()
  | none => .error (.unknownPart p)

/-- Connect two parts, which have to exist: what comes of it, and the system afterwards. -/
def addEdge (g : TransitionSystem) (source target : PartId) :
    Except StructureError EdgeId × TransitionSystem :=
  match g.checkPart source, g.checkPart target with
  | .error e, _ => (.error e, g)
  | .ok _, .error e => (.error e, g)
  | .ok _, .ok _ => (.ok ⟨g.edges.length⟩, { g with edges := g.edges ++ [⟨source, target⟩] })

/-- The two parts that an existing edge connects. -/
def transition (g : TransitionSystem) (e : EdgeId) : Except StructureError Transition :=
  match g.edge? e with
  | some edge => .ok edge
  | none => .error (.unknownEdge e)

/-- The parts found after one edge: if it leads into a part found before, its source is found
too. -/
def extend (edge : Transition) (found : List PartId) : List PartId :=
  if edge.target ∈ found ∧ edge.source ∉ found then found ++ [edge.source] else found

/-- Go once over some edges. -/
def scan (edges : List Transition) (found : List PartId) : List PartId :=
  edges.foldl (fun found edge => extend edge found) found

/-- Add the source of every edge that leads into one of the given parts. -/
def stepBack (g : TransitionSystem) (seen : List PartId) : List PartId := scan g.edges seen

/-- Apply `stepBack` the given number of times. -/
def stepsBack (g : TransitionSystem) : Nat → List PartId → List PartId
  | 0, seen => seen
  | steps + 1, seen => g.stepsBack steps (g.stepBack seen)

/-- The parts from which `p` can be reached by zero or more edges. Every step but the last adds a
part, so as many steps as there are parts suffice. -/
def reaching (g : TransitionSystem) (p : PartId) : List PartId :=
  g.stepsBack g.parts.length [p]

/-- The edges that enter a part. -/
def entering (g : TransitionSystem) (p : PartId) : List EdgeId :=
  ((List.range g.edges.length).map EdgeId.mk).filter fun e => (g.edge? e).any (·.target = p)

/-- Put an edge into a list of edges before the first one that does not come before it. -/
def place (e : EdgeId) : List EdgeId → List EdgeId
  | [] => [e]
  | d :: rest => if e.index ≤ d.index then e :: d :: rest else d :: place e rest

/-- Sort edges in ascending order. -/
def ascending (es : List EdgeId) : List EdgeId := es.foldr place []

/-- The edges that enter one of the visited parts located at `operand`, in ascending order and
without repetitions. -/
def enteringAt (g : TransitionSystem) (operand : TermId) (visited : List PartId) : List EdgeId :=
  (ascending ((visited.filter (g.location? · = some operand)).flatMap g.entering)).eraseReps

/-- The edges at which `operand` may have been evaluated for a term before execution passes `e`:
those that enter a part located at `operand` from which the source of `e` can be reached. There are
none if there is no edge `e`. -/
def operandEdges (g : TransitionSystem) (_term operand : TermId) (e : EdgeId) : List EdgeId :=
  match g.edge? e with
  | none => []
  | some asked => g.enteringAt operand (g.reaching asked.source)

end TransitionSystem

end JointAnalysis
