import JointAnalysis.Composition.World
import JointAnalysis.Program.Forest
import JointAnalysis.Program.Transition
import JointAnalysis.Query.Config

/-!
# Composers

A composer answers questions on behalf of the analyses composed under it. There are three kinds.

* In a *chain* each member sees what the members before it computed: a question is answered by the
  last member before the asker that handles the family.
* In a *tight* composer all members that claim the family answer together, and its parent with them.
  The answer is the intersection of what they know. It is kept, and a question that comes up again
  while it is being answered is cut off.
* A *relay* hands every question to one analysis.

Where nobody can answer, the answer is the full object.
-/

namespace JointAnalysis

/-- An analysis and the identity under which a composer knows it. -/
structure Member (V R M : Type) where
  id : AnalysisId
  analysis : Analysis V R M

/-- A composer whose members see the members before them. -/
structure Chain (V R M : Type) where
  id : AnalysisId
  direction : Direction
  members : List (Member V R M)
  system : Option TransitionSystem
  program : Option Program

/-- A composer whose members answer together. The transition system and the program are its own or
else its parent's. -/
structure Tight (V R M : Type) where
  id : AnalysisId
  direction : Direction
  members : List (Member V R M)
  parent : Option ComposerId
  config : Config
  system : Option TransitionSystem
  program : Option Program

/-- A composer that stands for one analysis. -/
structure Relay (V R M : Type) where
  id : AnalysisId
  analysis : Analysis V R M

/-- A composer of any kind. -/
inductive Composer (V R M : Type) where
  | chain (composer : Chain V R M)
  | tight (composer : Tight V R M)
  | relay (composer : Relay V R M)

variable {V R M : Type}

namespace Chain

/-- The member that answers a client: the last one before the client that handles the family. All
members stand before a client that is none of them. -/
def speaker? (c : Chain V R M) (family : Family) (client : AnalysisId) :
    Option (Member V R M) :=
  (c.members.takeWhile (·.id ≠ client)).reverse.find? (·.analysis.handles family)

/-- Answer a question about a term. -/
def query (c : Chain V R M) (ask : Answerer V R M) (r : Request) :
    Run V R M (Object V R r.family) :=
  match c.speaker? r.family r.client with
  | some member => member.analysis.consult ask r.family ⟨r.term, r.edge, r.composer, member.id⟩
  | none => pure .full

end Chain

namespace Relay

/-- Answer a question about a term. -/
def query (c : Relay V R M) (ask : Answerer V R M) (r : Request) :
    Run V R M (Object V R r.family) :=
  c.analysis.consult ask r.family ⟨r.term, r.edge, r.composer, r.client⟩

end Relay

namespace Tight

/-- The finished answer to a query, which has to be an intersection of its family. -/
def cached? (r : Request) : Run V R M (Option (Object V R r.family)) := do
  match (← Run.cache r.composer).finished? r.key with
  | none => return none
  | some kept =>
    match kept.as? r.family with
    | some (.combined .intersect answers) => return some (.combined .intersect answers)
    | _ => Run.fail (.corruptAnswer r.key.kind)

/-- What the parent, if there is one, answers to a question. -/
def inherited (c : Tight V R M) (ask : Answerer V R M) (r : Request) :
    Run V R M (List (Object V R r.family)) :=
  match c.parent with
  | none => pure []
  | some parent => do
    let answer ← ask { r with composer := parent, client := c.id, operand := none }
    pure [answer]

/-- Keep the intersection of all answers, unless an answer was kept meanwhile. -/
def keep (r : Request) (answers : List (Object V R r.family)) :
    Run V R M (Object V R r.family) := do
  match ← cached? r with
  | some answer => pure answer
  | none =>
    let answer : Object V R r.family := .combined .intersect answers
    let cache ← Run.ofExcept ((← Run.cache r.composer).finish r.key ⟨r.family, answer⟩)
    Run.setCache r.composer cache
    pure answer

/-- Put the parent's answer in front of the members' answers and keep them all. -/
def conclude (c : Tight V R M) (ask : Answerer V R M) (r : Request)
    (answers : List (Object V R r.family)) : Run V R M (Object V R r.family) := do
  let above ← c.inherited ask r
  keep r (above ++ answers)

/-- Ask the members in turn and conclude, unless a nested query finishes this one first. -/
def gather (c : Tight V R M) (ask : Answerer V R M) (r : Request) :
    List (Member V R M) → List (Object V R r.family) → Run V R M (Object V R r.family)
  | [], answers => c.conclude ask r answers
  | member :: rest, answers => do
    if member.analysis.handles r.family then
      match ← cached? r with
      | some answer => pure answer
      | none =>
        let cache ← Run.ofExcept ((← Run.cache r.composer).mark r.key member.id)
        Run.setCache r.composer cache
        let answer ← member.analysis.consult ask r.family ⟨r.term, r.edge, r.composer, member.id⟩
        c.gather ask r rest (answers ++ [answer])
    else
      c.gather ask r rest answers

/-- Ask everyone who can answer. -/
def convene (c : Tight V R M) (ask : Answerer V R M) (r : Request) :
    Run V R M (Object V R r.family) := do
  Run.record (.dispatched r.composer r.key)
  c.gather ask r c.members []

/-- Ask everyone unless too many resolutions of the question are under way. -/
def attempt (c : Tight V R M) (ask : Answerer V R M) (r : Request) (running : Nat) :
    Run V R M (Object V R r.family) :=
  if running > c.config.reentrantResolutions then pure .full else c.convene ask r

/-- Answer a question from the cache, or cut it off, or ask everyone. A question is cut off when the
member to which it was handed asks it again, and when too many resolutions of it are under way. -/
def resolve (c : Tight V R M) (ask : Answerer V R M) (r : Request) :
    Run V R M (Object V R r.family) := do
  match ← cached? r with
  | some answer => pure answer
  | none =>
    let cache ← Run.cache r.composer
    if cache.isCycle r.key r.client then
      pure .full
    else
      let (running, cache) := cache.enter r.key
      Run.setCache r.composer cache
      let answer ← c.attempt ask r running
      Run.setCache r.composer ((← Run.cache r.composer).leave r.key)
      pure answer

/-- Note that a query of the composer begins. -/
def opened (composer : ComposerId) : Run V R M Unit := do
  let desk ← Run.desk composer
  Run.setDesk composer { desk with depth := desk.depth + 1 }

/-- Note that a query of the composer is over. The cache is dropped after the outermost query if it
is not to be retained. -/
def closed (c : Tight V R M) (composer : ComposerId) : Run V R M Unit := do
  let desk ← Run.desk composer
  let depth := desk.depth - 1
  Run.setDesk composer { desk with depth }
  if depth = 0 ∧ c.config.cachePolicy = .perTopLevelQuery then
    Run.clear composer
  else
    pure ()

/-- Answer a question about a term. -/
def query (c : Tight V R M) (ask : Answerer V R M) (r : Request) :
    Run V R M (Object V R r.family) := do
  opened r.composer
  let answer ← c.resolve ask r
  c.closed r.composer
  pure answer

/-- Where the value of an operand comes from. -/
inductive Source where
  /-- Nothing is known about it. -/
  | unknown
  /-- It is asked about at the edge itself. -/
  | here
  /-- It is asked about at each of these edges. -/
  | along (edges : List EdgeId)

/-- Where the operand of a term was computed. What is not an operand of the term in the program, and
what no edge of the transition system computes, is unknown. -/
def source (c : Tight V R M) (term operand : TermId) (edge : EdgeId) : Source :=
  if isOperand then
    match c.system with
    | none => .here
    | some g =>
      match g.operandEdges term operand edge with
      | [] => .unknown
      | edges => .along edges
  else
    .unknown
where
  /-- Whether the program, if there is one, has the operand under the term. -/
  isOperand : Bool :=
    match c.program with
    | none => true
    | some p =>
      match p.isOperandOf operand term with
      | .ok answer => answer
      | .error _ => false

end Tight

namespace Composer

/-- Find the answer to a question about a term in the way of the composer's kind. -/
def find (c : Composer V R M) (ask : Answerer V R M) (r : Request) :
    Run V R M (Object V R r.family) :=
  match c with
  | .chain c => c.query ask r
  | .tight c => c.query ask r
  | .relay c => c.query ask r

/-- Answer a question about a term and note it on the trail. -/
def query (c : Composer V R M) (ask : Answerer V R M) (r : Request) :
    Run V R M (Object V R r.family) := do
  Run.record (.requested r)
  let answer ← c.find ask r
  Run.record (.returned r ⟨r.family, answer⟩)
  pure answer

/-- Answer the question about an operand as a question about a term of its own, at an edge. -/
def queryOperand (c : Composer V R M) (ask : Answerer V R M) (r : Request) (operand : TermId)
    (edge : EdgeId) : Run V R M (Object V R r.family) :=
  c.query ask { r with term := operand, edge, operand := none }

/-- Answer a question about a term or an operand. An operand is asked about as a term of its own; a
tight composer does so at each edge at which it was computed and combines the answers. -/
def respond (c : Composer V R M) (ask : Answerer V R M) (r : Request) :
    Run V R M (Object V R r.family) :=
  match r.operand with
  | none => c.query ask r
  | some operand =>
    match c with
    | .tight t =>
      match t.source r.term operand r.edge with
      | .unknown => pure .full
      | .here => c.queryOperand ask r operand r.edge
      | .along [edge] => c.queryOperand ask r operand edge
      | .along edges => do
        let answers ← edges.mapM (c.queryOperand ask r operand)
        pure (.combined t.config.operandMode answers)
    | _ => c.queryOperand ask r operand r.edge

/-- The identity of a composer. -/
def id : Composer V R M → AnalysisId
  | .chain c => c.id
  | .tight c => c.id
  | .relay c => c.id

/-- The direction in which the members of a composer run. A relay has none. -/
def direction? : Composer V R M → Option Direction
  | .chain c => some c.direction
  | .tight c => some c.direction
  | .relay _ => none

/-- The identities of the members of a composer. -/
def memberIds : Composer V R M → List AnalysisId
  | .chain c => c.members.map (·.id)
  | .tight c => c.members.map (·.id)
  | .relay _ => []

/-- The transition system over which a composer runs. -/
def system? : Composer V R M → Option TransitionSystem
  | .chain c => c.system
  | .tight c => c.system
  | .relay _ => none

/-- The program against which a composer checks operands. -/
def program? : Composer V R M → Option Program
  | .chain c => c.program
  | .tight c => c.program
  | .relay _ => none

end Composer

end JointAnalysis
