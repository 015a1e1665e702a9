import JointAnalysis.Composition.Composer

/-!
# Networks of composers

Composers and analyses ask each other, so answering a question is a recursion through the whole
network. `Network.answer` follows it to a given depth. Composers are added one after the other; each
addition hands out identities in order.
-/

namespace JointAnalysis

/-- An analysis runs against the direction of the composition that it should join. -/
structure DirectionMismatch where
  analysis : String
  expected : Direction
  found : Direction
  deriving DecidableEq, Repr

/-- The wording of a mismatch of directions. -/
def DirectionMismatch.message (e : DirectionMismatch) : String :=
  s!"analysis `{e.analysis}` runs {e.found.text} but the composition runs {e.expected.text}"

/-- The composers in the order in which they were added. -/
structure Network (V R M : Type) where
  composers : List (Composer V R M)
  /-- The number of identities handed out. -/
  identities : Nat

namespace Network

variable {V R M : Type}

/-- The network without composers. -/
def empty : Network V R M := ⟨[], 0⟩

/-- The composer with the given identity. -/
def composer? (net : Network V R M) (c : ComposerId) : Option (Composer V R M) :=
  net.composers[c.index]?

/-- Answer a question, following questions that are nested at most `depth` deep. Nothing is known to
a composer that does not exist. -/
def answer (net : Network V R M) : Nat → Answerer V R M
  | 0, _ => throw .exhausted
  | depth + 1, r =>
    match net.composer? r.composer with
    | none => pure .full
    | some c => c.respond (net.answer depth) r

/-- The depth to which questions are followed unless another one is wanted. -/
def defaultDepth : Nat := Nat.pow 2 20

/-- An identity that no composer or member of the network has. -/
def outsider (net : Network V R M) : AnalysisId := ⟨net.identities⟩

/-- The identity that the next composer will have. -/
def nextComposer (net : Network V R M) : ComposerId := ⟨net.composers.length⟩

/-- Make analyses members with the identities from `first` on. All of them have to run in the given
direction. -/
def enroll (direction : Direction) : Nat → List (Analysis V R M) →
    Except DirectionMismatch (List (Member V R M))
  | _, [] => .ok []
  | first, a :: rest =>
    if a.direction = direction then do
      return ⟨⟨first⟩, a⟩ :: (← enroll direction (first + 1) rest)
    else
      .error ⟨a.name, direction, a.direction⟩

/-- The direction of the first analysis, or forward if there is none. -/
def leadingDirection (analyses : List (Analysis V R M)) : Direction :=
  (analyses.head?.map (·.direction)).getD .forward

/-- Add a chain. Its own identity comes before those of its members. -/
def addChain (net : Network V R M) (analyses : List (Analysis V R M))
    (system : Option TransitionSystem) (program : Option Program) :
    Except DirectionMismatch (Network V R M) := do
  let direction := leadingDirection analyses
  let members ← enroll direction (net.identities + 1) analyses
  let chain : Chain V R M := ⟨⟨net.identities⟩, direction, members, system, program⟩
  return ⟨net.composers ++ [.chain chain], net.identities + analyses.length + 1⟩

/-- Add a tight composer. Its own identity comes after those of its members. What it lacks of a
transition system and a program it has from its parent. -/
def addTight (net : Network V R M) (analyses : List (Analysis V R M)) (parent : Option ComposerId)
    (config : Config) (direction : Option Direction) (system : Option TransitionSystem)
    (program : Option Program) : Except DirectionMismatch (Network V R M) := do
  let direction := direction.getD (leadingDirection analyses)
  let members ← enroll direction net.identities analyses
  let above := parent.bind net.composer?
  let tight : Tight V R M := {
    id := ⟨net.identities + analyses.length⟩
    direction
    members
    parent
    config
    system := system.or (above.bind Composer.system?)
    program := program.or (above.bind Composer.program?) }
  return ⟨net.composers ++ [.tight tight], net.identities + analyses.length + 1⟩

/-- Add a relay. -/
def addRelay (net : Network V R M) (analysis : Analysis V R M) : Network V R M :=
  ⟨net.composers ++ [.relay ⟨⟨net.identities⟩, analysis⟩], net.identities + 1⟩

end Network

end JointAnalysis
