import JointAnalysis.Composition.Plan
import JointAnalysis.Domain.Regions

/-!
# Simple analyses

Small analyses over the domains of this library. Those that are asked often let the memory know of
it, by the function `tally`.
-/

namespace JointAnalysis.Analysis

variable {M : Type}

/-- The value that a list of assignments gives to a term; a later one overrides an earlier one. -/
def assigned {β : Type} (assignments : List (TermId × β)) (t : TermId) : Option β :=
  (assignments.reverse.find? (·.1 = t)).map (·.2)

/-- Knows the values of some terms and nothing about the others. -/
def constant (name : String) (direction : Direction) (values : TermId → Option Int64)
    (tally : M → M) : Analysis ValueLeaf RegionLeaf M where
  name
  direction
  handles family := family = .value
  answer
    | .value, q => .remember tally <| .give <|
      match values q.term with
      | some n => Value.constant n
      | none => Value.unknown
    | family, _ => .unsupported name family

/-- Answers for a term what the composer says about another term, or about the term itself if it is
not redirected. -/
def echo (name : String) (redirect : TermId → Option TermId) (tally : M → M) :
    Analysis ValueLeaf RegionLeaf M where
  name
  direction := .forward
  handles family := family = .value
  answer
    | .value, q => .remember tally <|
      .request (q.request .value ((redirect q.term).getD q.term))
    | family, _ => .unsupported name family

/-- Places terms in named regions. -/
def regions (name : String) (regions : TermId → Option String) :
    Analysis ValueLeaf RegionLeaf M where
  name
  direction := .forward
  handles family := family = .memRegion || family = .memLoc
  answer
    | .memRegion, q => .give (place q.term)
    | .memLoc, q => .give (.plain (.slot ⟨place q.term, none⟩))
    | family, _ => .unsupported name family
where
  /-- The region of a term. -/
  place (t : TermId) : MemRegion RegionLeaf :=
    match regions t with
    | some region => MemRegion.named region
    | none => MemRegion.anywhere

/-- Handles some families and answers nothing. -/
def mute (name : String) (handles : Family → Bool) : Analysis ValueLeaf RegionLeaf M where
  name
  direction := .forward
  handles
  answer family _ := .unsupported name family

end JointAnalysis.Analysis
