import JointAnalysis.Composition.Plan

/-!
# The state of a composition

Answering a question can change the caches of composers and the memory of analyses. All of this is
one `World`, which also keeps a trail of what happened. A computation in the world ends with a
result, with a fault, or because it went deeper than it was allowed to.
-/

namespace JointAnalysis

/-- What a composer keeps between questions. -/
structure Desk (V R : Type) where
  cache : QueryCache (AnyObject V R)
  /-- The number of queries that the composer is answering. -/
  depth : Nat

/-- The desk of a composer that was never asked. -/
def Desk.fresh {V R : Type} : Desk V R := ⟨.empty, 0⟩

/-- Something that happened while a question was answered. -/
inductive Event (V R : Type) where
  /-- A composer was asked about a term. -/
  | requested (request : Request)
  /-- A composer started to ask its members. -/
  | dispatched (composer : ComposerId) (key : QueryKey)
  /-- An analysis was asked. -/
  | asked (analysis : String) (family : Family) (inquiry : Inquiry)
  /-- An analysis answered. -/
  | answered (analysis : String) (inquiry : Inquiry) (answer : AnyObject V R)
  /-- A composer answered. -/
  | returned (request : Request) (answer : AnyObject V R)
  /-- The cache of a composer was cleared. -/
  | cleared (composer : ComposerId)

/-- The state of all composers and analyses. -/
structure World (V R M : Type) where
  desk : ComposerId → Desk V R
  memory : M
  /-- What happened so far, the latest first. -/
  trail : List (Event V R)

/-- The world before the first question. -/
def World.initial {V R M : Type} (memory : M) : World V R M := ⟨fun _ => .fresh, memory, []⟩

/-- Why a computation has no result. -/
inductive Halt where
  | fault (fault : Fault)
  /-- The questions were nested too deeply. -/
  | exhausted
  deriving DecidableEq, Repr

/-- A computation in the world. -/
abbrev Run (V R M : Type) : Type → Type := ExceptT Halt (StateM (World V R M))

/-- A function that answers requests. -/
abbrev Answerer (V R M : Type) : Type := (r : Request) → Run V R M (Object V R r.family)

namespace Run

variable {V R M β : Type}

/-- End with a fault. -/
def fail (fault : Fault) : Run V R M β := throw (.fault fault)

/-- The result of a computation that needs no world. -/
def ofExcept : Except Fault β → Run V R M β
  | .ok result => pure result
  | .error fault => fail fault

/-- Note an event. -/
def record (event : Event V R) : Run V R M Unit :=
  modify fun w => { w with trail := event :: w.trail }

/-- The desk of a composer. -/
def desk (composer : ComposerId) : Run V R M (Desk V R) := return (← get).desk composer

/-- Replace the desk of a composer. -/
def setDesk (composer : ComposerId) (desk : Desk V R) : Run V R M Unit :=
  modify fun w =>
    let others := w.desk
    { w with desk := fun c => if c = composer then desk else others c }

/-- The cache of a composer. -/
def cache (composer : ComposerId) : Run V R M (QueryCache (AnyObject V R)) :=
  return (← desk composer).cache

/-- Replace the cache of a composer. -/
def setCache (composer : ComposerId) (cache : QueryCache (AnyObject V R)) : Run V R M Unit := do
  setDesk composer { ← desk composer with cache }

/-- Clear the cache of a composer. -/
def clear (composer : ComposerId) : Run V R M Unit := do
  setCache composer .empty
  record (.cleared composer)

end Run

/-- Carry out a plan, with `ask` to answer its requests. -/
def Plan.run {V R M β : Type} (ask : Answerer V R M) : Plan V R M β → Run V R M β
  | .give result => pure result
  | .fail fault => Run.fail fault
  | .ask request next => do
    let answer ← ask request
    (next answer).run ask
  | .recollect next => do
    let w ← get
    (next w.memory).run ask
  | .remember update next => do
    modify fun w => { w with memory := update w.memory }
    next.run ask
  | .inspect composer key next => do
    let cache ← Run.cache composer
    (next (cache.state? key) cache.size).run ask
  | .clear composer next => do
    Run.clear composer
    next.run ask

/-- Ask an analysis. -/
def Analysis.consult {V R M : Type} (a : Analysis V R M) (ask : Answerer V R M) (family : Family)
    (q : Inquiry) : Run V R M (Object V R family) := do
  Run.record (.asked a.name family q)
  let answer ← (a.answer family q).run ask
  Run.record (.answered a.name q ⟨family, answer⟩)
  pure answer

end JointAnalysis
