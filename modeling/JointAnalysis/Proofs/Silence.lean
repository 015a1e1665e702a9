import JointAnalysis.Object.Any
import JointAnalysis.Proofs.Comparison

/-!
# Questions that are left to the objects

Under the arbiter who answers nothing, the objects answer themselves. What is settled before anyone
is asked makes no difference, except for certain equality of objects that were built from one and
the same term: how function results relate two objects is also what the objects say. See
`AnyObject.relate_silent`.
-/

namespace JointAnalysis

variable {V R : Type}

/-- How function results relate two regions is what the regions say. -/
theorem MemRegion.relate_of_resultRelation [RegionDomain V R] {edge : EdgeId} {a b : MemRegion R}
    {answer : Bool} (relation : Relation) (h : MemRegion.resultRelation edge a b = some answer) :
    a.relate (MemRegion.comparison (m := Except Fault) edge) relation b = .ok answer := by
  cases a with
  | plain x =>
      cases b with
      | plain y =>
          have hxy : x.resultRelation edge y = some answer := h
          cases relation
          · exact congrArg Except.ok (by simp only [Storage.mayEqual, hxy])
          · exact congrArg Except.ok (by simp only [Storage.mustEqual, hxy])
          · exact congrArg Except.ok (by simp only [Storage.equalSet, hxy])
          · exact congrArg Except.ok (by simp only [Storage.subSet, hxy])
      | _ => cases h
  | _ => cases h

variable [ValueDomain V] [RegionDomain V R] {edge : EdgeId} {relation : Relation}

/-- How the plain objects of each family compare if they answer all questions themselves. -/
abbrev Family.own (family : Family) (edge : EdgeId) :
    Comparison (Except Fault) (Plain V R family) :=
  family.comparison .silent edge

omit [ValueDomain V] in
/-- Where function results relate two plain locations, nothing else is asked about them. -/
theorem Cell.relate_of_resultRelation {x y : Cell V R} {answer : Bool}
    {slots : Slot V R → Slot V R → Except Fault Bool}
    (h : x.resultRelation edge y = some answer) : Cell.relate edge slots x y = .ok answer := by
  rw [Cell.relate, h]
  rfl

/-- How function results relate two objects is what the objects say. -/
theorem Family.relate_of_results {family : Family} {a b : Object V R family} {answer : Bool}
    (relation : Relation) (h : family.shortcuts.results edge a b = some answer) :
    a.relate (family.own edge) relation b = .ok answer := by
  cases family with
  | value => cases h
  | codeLoc => cases h
  | memRegion => exact MemRegion.relate_of_resultRelation relation h
  | memLoc =>
      cases a with
      | plain x =>
          cases b with
          | plain y => cases relation <;> exact Cell.relate_of_resultRelation h
          | _ => cases h
      | _ => cases h

omit [ValueDomain V] [RegionDomain V R] in
/-- Objects are built from the same term only if the first is built from one. -/
theorem Shortcuts.sameBase_eq_false {family : Family} {s : Shortcuts V R family}
    {a : Object V R family} (h : s.base a = none) (b : Object V R family) :
    s.sameBase a b = false := by
  rw [sameBase, h]

omit [ValueDomain V] [RegionDomain V R] in
/-- Objects are built from the same term only if the second is built from one. -/
theorem Shortcuts.sameBase_eq_false_right {family : Family} {s : Shortcuts V R family}
    {b : Object V R family} (h : s.base b = none) (a : Object V R family) :
    s.sameBase a b = false := by
  rw [sameBase, h]
  cases s.base a <;> rfl

omit [ValueDomain V] [RegionDomain V R] in
/-- What is settled in advance is what the objects say, unless certain equality is settled by the
terms from which they were built. -/
theorem Shortcuts.relate_silent {family : Family} {s : Shortcuts V R family}
    {c : Comparison (Except Fault) (Plain V R family)} {a b : Object V R family}
    (hrelation : relation = .mustEqual → s.sameBase a b = false)
    (hresults : ∀ {answer}, s.results edge a b = some answer → a.relate c relation b = .ok answer) :
    s.relate .silent edge c relation a b = a.relate c relation b := by
  have hopen : s.provedByBase .silent c relation a b = .ok false := by
    rw [provedByBase, if_neg fun h => absurd h.2 (by rw [hrelation h.1]; simp)]
    rfl
  rw [relate, hopen]
  cases hsettled : s.results edge a b with
  | none => rfl
  | some answer => exact (hresults hsettled).symm

omit [ValueDomain V] [RegionDomain V R] in
/-- An object belongs to its own family. -/
theorem AnyObject.as?_family {family : Family} (o : Object V R family) :
    (⟨family, o⟩ : AnyObject V R).as? family = some o := by
  cases family <;> rfl

/-- Two objects of one family are compared as the shortcuts of the family say. -/
theorem AnyObject.relate_family {family : Family} (a b : Object V R family) :
    AnyObject.relate .silent edge relation ⟨family, a⟩ ⟨family, b⟩ =
      family.shortcuts.relate .silent edge (family.own edge) relation a b := by
  rw [AnyObject.relate, AnyObject.as?_family]

/-- A comparison of two objects of one family is left to them, unless certain equality is settled by
the terms from which they were built. -/
theorem AnyObject.relate_silent {family : Family} {a b : Object V R family}
    (hrelation : relation = .mustEqual → family.shortcuts.sameBase a b = false) :
    AnyObject.relate .silent edge relation ⟨family, a⟩ ⟨family, b⟩ =
      a.relate (family.own edge) relation b := by
  rw [AnyObject.relate_family]
  exact Shortcuts.relate_silent hrelation (Family.relate_of_results relation)

omit [ValueDomain V] [RegionDomain V R] in
/-- The arbiter who answers nothing leaves a meet to the objects. -/
theorem Arbiter.meet_silent {family : Family} (c : Comparison (Except Fault) (Plain V R family))
    (a b : Object V R family) : Arbiter.meet .silent family c a b = a.meet c b := rfl

/-- A meet of two objects of one family is left to them. -/
theorem AnyObject.meet_silent {family : Family} (a b : Object V R family) :
    AnyObject.meet .silent edge ⟨family, a⟩ ⟨family, b⟩ = (do
      let met ← a.meet (family.own edge) b
      pure ⟨⟨family, met.object⟩, met.changed⟩) := by
  rw [AnyObject.meet, AnyObject.expect, AnyObject.as?_family]
  rfl

namespace Slot

omit [ValueDomain V] in
/-- A comparison of the regions of two slots is left to the regions, under the same condition. -/
theorem relateRegions_silent {a b : MemRegion R}
    (hrelation : relation = .mustEqual → MemRegion.shortcuts.sameBase a b = false) :
    relateRegions (.silent : Arbiter (Except Fault) V R) edge relation a b =
      a.relate (MemRegion.comparison edge) relation b :=
  Shortcuts.relate_silent hrelation (MemRegion.relate_of_resultRelation relation)

/-- A comparison of the indexes of two slots is left to the indexes, under the same condition. -/
theorem relateIndexes_silent {a b : Value V}
    (hrelation : relation = .mustEqual → (Value.shortcuts (R := R)).sameBase a b = false) :
    relateIndexes (.silent : Arbiter (Except Fault) V R) edge relation a b =
      a.relate (Value.comparison edge) relation b :=
  Shortcuts.relate_silent hrelation (Family.relate_of_results relation)

end Slot

end JointAnalysis
