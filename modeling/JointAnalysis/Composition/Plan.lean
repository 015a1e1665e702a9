import JointAnalysis.Query.Cache
import JointAnalysis.Query.Kind

/-!
# What analyses do when they are asked

An analysis never asks another analysis directly. While it works out an answer it may ask composers,
look at the cache of a composer or clear it, and use the memory that analyses keep between
questions. A `Plan` describes this as a tree: each step says what to do and how to go on with what
comes back. Every path through a plan is finite, so an analysis asks finitely many questions before
it answers.
-/

namespace JointAnalysis

/-- The identity of a composer: its position among all composers. -/
structure ComposerId where
  index : Nat
  deriving DecidableEq, Repr

/-- A question put to a composer. -/
structure Request where
  composer : ComposerId
  family : Family
  /-- The term in question. If an operand is named, the term of which it is an operand. -/
  term : TermId
  edge : EdgeId
  /-- Who asks. -/
  client : AnalysisId
  /-- The operand in question, as it was computed for the term. -/
  operand : Option TermId := none
  deriving DecidableEq, Repr

/-- The key of the query about the term itself. -/
def Request.key (r : Request) : QueryKey := ⟨r.term, r.edge, r.family.kind⟩

/-- What an analysis is asked: a term, an edge, and how to ask further. -/
structure Inquiry where
  term : TermId
  edge : EdgeId
  /-- The composer to which further questions go. -/
  composer : ComposerId
  /-- The identity under which the analysis asks. -/
  self : AnalysisId
  deriving DecidableEq, Repr

/-- The request for another term, asked the way the inquiry says. -/
def Inquiry.request (q : Inquiry) (family : Family) (term : TermId) : Request where
  composer := q.composer
  family := family
  term := term
  edge := q.edge
  client := q.self

/-- A computation of an analysis with a result in `β`. Analyses share the memory `M`. -/
inductive Plan (V R M β : Type) : Type where
  | give (result : β)
  | fail (fault : Fault)
  | ask (request : Request) (next : Object V R request.family → Plan V R M β)
  | recollect (next : M → Plan V R M β)
  | remember (update : M → M) (next : Plan V R M β)
  /-- Look up how far a query of a composer is, and how many entries its cache has. -/
  | inspect (composer : ComposerId) (key : QueryKey)
      (next : Option QueryState → Nat → Plan V R M β)
  /-- Clear the cache of a composer. -/
  | clear (composer : ComposerId) (next : Plan V R M β)

namespace Plan

variable {V R M β γ : Type}

/-- Go on with the result of a plan. -/
def bind : Plan V R M β → (β → Plan V R M γ) → Plan V R M γ
  | .give result, k => k result
  | .fail fault, _ => .fail fault
  | .ask request next, k => .ask request fun answer => (next answer).bind k
  | .recollect next, k => .recollect fun memory => (next memory).bind k
  | .remember update next, k => .remember update (next.bind k)
  | .inspect composer key next, k =>
    .inspect composer key fun state size => (next state size).bind k
  | .clear composer next, k => .clear composer (next.bind k)

instance : Monad (Plan V R M) where
  pure := .give
  bind := .bind

/-- Ask a composer and take its answer for the result. -/
def request (r : Request) : Plan V R M (Object V R r.family) := .ask r .give

end Plan

/-- An analysis that takes part in compositions. -/
structure Analysis (V R M : Type) where
  name : String
  direction : Direction
  /-- The families about which composers may ask it. -/
  handles : Family → Bool
  answer : (family : Family) → Inquiry → Plan V R M (Object V R family)

/-- The plan of an analysis that is asked for a family about which it knows nothing. -/
def Plan.unsupported {V R M β : Type} (analysis : String) (family : Family) : Plan V R M β :=
  .fail (.unsupportedQuery analysis family.kind)

end JointAnalysis
