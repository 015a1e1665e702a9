import JointAnalysis.Analyses.Simple
import JointAnalysis.Composition.World
import JointAnalysis.Object.Any

/-!
# Scripted analyses

A scripted analysis follows the first rule that matches what it is asked. The rules are kept in a
notebook, so that they can be replaced between questions. In the notebook the scripted analyses also
note what they are asked and what they see in caches, and the simple analyses how often they are
asked.
-/

namespace JointAnalysis

mutual

/-- How to come to an answer of a family. -/
inductive Action : Family → Type where
  /-- Answer with an object. -/
  | give {family : Family} (object : Object ValueLeaf RegionLeaf family) : Action family
  /-- Ask a composer. What is not given is taken from the question at hand. -/
  | ask {family : Family} (term : Option TermId) (edge : Option EdgeId) (operand : Option TermId)
      (composer : Option ComposerId) (client : Option AnalysisId) : Action family
  /-- Combine several answers. -/
  | join {family : Family} (mode : Mode) (actions : Actions family) : Action family
  /-- Meet the second answer into the first. -/
  | meet {family : Family} (first second : Action family) : Action family
  /-- Take a whole region for a location. -/
  | whole (region : Action .memRegion) : Action .memLoc
  /-- Take a region at an index for a location. -/
  | locate (region : Action .memRegion) (index : Action .value) : Action .memLoc
  /-- Take the size of a region for a value. -/
  | sizeOf (region : Action .memRegion) : Action .value
  /-- Look at the cache of a composer, then go on. -/
  | probe {family : Family} (composer : ComposerId) (key : QueryKey) (next : Action family) :
      Action family
  /-- Clear the cache of a composer, then go on. -/
  | clear {family : Family} (composer : ComposerId) (next : Action family) : Action family

/-- Several actions for answers of one family. -/
inductive Actions : Family → Type where
  | nil {family : Family} : Actions family
  | cons {family : Family} (first : Action family) (rest : Actions family) : Actions family

end

/-- The actions of a list. -/
def Actions.ofList {family : Family} : List (Action family) → Actions family
  | [] => .nil
  | first :: rest => .cons first (ofList rest)

/-- What to do when asked for a family; about a term and at an edge, if they are given. -/
structure Rule where
  family : Family
  term : Option TermId
  edge : Option EdgeId
  action : Action family

/-- What a scripted analysis notes while it works. -/
inductive Note where
  /-- The analysis was asked. -/
  | asked (analysis : String) (family : Family) (inquiry : Inquiry)
  /-- A query was in this state, in a cache with so many entries. -/
  | probed (key : QueryKey) (state : Option QueryState) (size : Nat)

/-- A note in the log, given the words for families, identities and states. -/
def Note.line (familyName : Family → String) (idName : AnalysisId → String)
    (stateText : Option QueryState → String) : Note → String
  | .asked analysis family q =>
    s!"{analysis}: {familyName family} {q.term.text} {q.edge.text} as {idName q.self}"
  | .probed key state size => s!"probe {key.text} = {stateText state} of {size}"

/-- What analyses remember between questions. -/
structure Notebook where
  /-- How often an analysis was asked. -/
  counts : String → Nat
  /-- The rules of an analysis. -/
  rules : String → List Rule
  /-- What the scripted analyses noted, the latest first. -/
  notes : List Note

namespace Notebook

/-- The notebook in which nothing is written. -/
def blank : Notebook := ⟨fun _ => 0, fun _ => [], []⟩

/-- Note that an analysis was asked. -/
def count (analysis : String) (n : Notebook) : Notebook :=
  let counts := n.counts
  { n with counts := fun a => if a = analysis then counts a + 1 else counts a }

/-- Give an analysis new rules. -/
def setRules (analysis : String) (rules : List Rule) (n : Notebook) : Notebook :=
  let others := n.rules
  { n with rules := fun a => if a = analysis then rules else others a }

/-- Add a note. -/
def add (note : Note) (n : Notebook) : Notebook := { n with notes := note :: n.notes }

end Notebook

/-- A computation of a scripted analysis. -/
abbrev ScriptPlan (β : Type) : Type := Plan ValueLeaf RegionLeaf Notebook β

/-- The outcome of comparing or meeting objects on their own, as a plan. -/
def ScriptPlan.ofExcept {β : Type} : Except Fault β → ScriptPlan β
  | .ok result => .give result
  | .error fault => .fail fault

mutual

/-- The plan to carry out an action for the question at hand. -/
def Action.plan (q : Inquiry) : {family : Family} → Action family →
    ScriptPlan (Object ValueLeaf RegionLeaf family)
  | _, .give object => .give object
  | family, .ask term edge operand composer client =>
    .request {
      composer := composer.getD q.composer
      family
      term := term.getD q.term
      edge := edge.getD q.edge
      client := client.getD q.self
      operand }
  | _, .join mode actions => do
    let answers ← actions.plan q
    return .combined mode answers
  | family, .meet first second => do
    let a ← first.plan q
    let b ← second.plan q
    let met ← ScriptPlan.ofExcept
      (Arbiter.silent.meet family (family.comparison .silent q.edge) a b)
    return met.object
  | _, .whole region => do
    let region ← region.plan q
    return .plain (.slot ⟨region, none⟩)
  | _, .locate region index => do
    let region ← region.plan q
    let index ← index.plan q
    return .plain (.slot ⟨region, some index⟩)
  | _, .sizeOf region => do
    let region ← region.plan q
    return MemRegion.size q.edge region
  | _, .probe composer key next => .inspect composer key fun state size =>
    .remember (Notebook.add (.probed key state size)) (next.plan q)
  | _, .clear composer next => .clear composer (next.plan q)

/-- The plan to carry out several actions in turn. -/
def Actions.plan (q : Inquiry) : {family : Family} → Actions family →
    ScriptPlan (List (Object ValueLeaf RegionLeaf family))
  | _, .nil => .give []
  | _, .cons first rest => do
    let answer ← first.plan q
    let others ← rest.plan q
    return answer :: others

end

/-- The action of a rule, if the rule matches the question. -/
def Rule.action? (rule : Rule) (family : Family) (q : Inquiry) : Option (Action family) :=
  if h : rule.family = family then
    if rule.term.getD q.term = q.term ∧ rule.edge.getD q.edge = q.edge then some (h ▸ rule.action)
    else none
  else none

/-- An analysis that follows the rules that the notebook has under its name. It notes first what it
is asked. -/
def Analysis.scripted (name : String) (direction : Direction) (handles : Family → Bool) :
    Analysis ValueLeaf RegionLeaf Notebook where
  name
  direction
  handles
  answer family q :=
    .remember (Notebook.add (.asked name family q)) <| .recollect fun notebook =>
      match (notebook.rules name).findSome? (·.action? family q) with
      | some action => action.plan q
      | none => .unsupported name family

end JointAnalysis
