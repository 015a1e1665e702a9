import JointAnalysis.Object.Comparison
import JointAnalysis.Object.Family

/-!
# Places in the code

A missing field of a place matches every part or every term, so a place denotes all pairs of a part
and a term that agree with the fields it has.
-/

namespace JointAnalysis

namespace CodePoint

/-- The place that stands for all parts at which `t` runs. -/
def atTerm (t : TermId) : CodePoint := ⟨none, some t⟩

/-- Whether two fields have a common match. -/
def overlap {β : Type} [DecidableEq β] : Option β → Option β → Bool
  | some x, some y => x = y
  | _, _ => true

/-- Whether the first field matches all that the second matches. -/
def includes {β : Type} [DecidableEq β] : Option β → Option β → Bool
  | none, _ => true
  | some x, some y => x = y
  | some _, none => false

/-- The first field narrowed by the second, or nothing if they have no common match. -/
def common? {β : Type} [DecidableEq β] : Option β → Option β → Option (Met (Option β))
  | x, none => some ⟨x, false⟩
  | none, some y => some ⟨some y, true⟩
  | some x, some y => if x = y then some ⟨some x, false⟩ else none

/-- Two places narrowed to each other; places without a common match become the empty object. -/
def meet (a b : CodePoint) : Met CodeLoc :=
  match common? a.part b.part, common? a.term b.term with
  | some part, some term => ⟨.plain ⟨part.object, term.object⟩, part.changed || term.changed⟩
  | _, _ => ⟨.empty, true⟩

/-- A place in listings, with a star for a missing field. -/
def text (p : CodePoint) : String :=
  (p.part.map PartId.text).getD "*" ++ "@" ++ (p.term.map TermId.text).getD "*"

end CodePoint

namespace CodeLoc

/-- How places compare. -/
def comparison {m : Type → Type} [Monad m] : Comparison m CodePoint where
  mayEqual a b := pure (CodePoint.overlap a.part b.part && CodePoint.overlap a.term b.term)
  mustEqual a b := pure (a.part.isSome && a.term.isSome && a = b)
  equalSet a b := pure (decide (a = b))
  subSet a b := pure (CodePoint.includes b.part a.part && CodePoint.includes b.term a.term)
  meet a b := pure (a.meet b)
  isFull a := pure (a.part.isNone && a.term.isNone)
  isEmpty _ := pure false
  isLive _ := pure true
  meetsPairwise := true

/-- A set of places in listings. -/
def text (c : CodeLoc) : String :=
  AbstractObject.text "FullCodeLoc" "EmptyCodeLoc" CodePoint.text c

end CodeLoc

end JointAnalysis
