import JointAnalysis.Proofs.Interpretation
import JointAnalysis.Proofs.Silence

/-!
# The two ways to write the place of a function's result

The place of a function's result is also the slot without index in the storage for it. The two are
compared with other plain locations by different rules, one by how function results relate them and
one slot by slot, but the rules agree: `Cell.relate_toSlot`. So the two are interchangeable in
comparisons with all locations, and they pass the same tests.
-/

namespace JointAnalysis

variable {α V R : Type}

/-- Two plain objects compare alike with every plain object, on either side, and pass the same
tests. -/
structure Interchangeable (c : Comparison (Except Fault) α) (x y : α) : Prop where
  left : ∀ relation z, AbstractObject.relate c relation (.plain x) (.plain z) =
    AbstractObject.relate c relation (.plain y) (.plain z)
  right : ∀ relation z, AbstractObject.relate c relation (.plain z) (.plain x) =
    AbstractObject.relate c relation (.plain z) (.plain y)
  test : ∀ test, AbstractObject.test c test (.plain x) = AbstractObject.test c test (.plain y)

namespace Interchangeable

open AbstractObject

variable {c : Comparison (Except Fault) α} {x y : α} (h : Interchangeable c x y)

include h

/-- Interchangeable objects may equal the same objects. -/
theorem mayEqualPlain_eq : mayEqualPlain c x = mayEqualPlain c y := by
  have hplain : (c.mayEqual · x) = (c.mayEqual · y) := funext (h.right .mayEqual)
  simp only [mayEqualPlain, hplain]

/-- Interchangeable objects must equal the same objects. -/
theorem mustEqualPlain_eq : mustEqualPlain c x = mustEqualPlain c y := by
  have hplain : (c.mustEqual · x) = (c.mustEqual · y) := funext (h.right .mustEqual)
  simp only [mustEqualPlain, hplain]

/-- Interchangeable objects denote the same sets as other objects. -/
theorem equalSetPlain_eq : equalSetPlain c x = equalSetPlain c y := by
  have hplain : (c.equalSet · x) = (c.equalSet · y) := funext (h.right .equalSet)
  have hfull : c.isFull x = c.isFull y := h.test .isFull
  have hempty : c.isEmpty x = c.isEmpty y := h.test .isEmpty
  simp only [equalSetPlain, hplain, hfull, hempty]

/-- Interchangeable objects have the same parts. -/
theorem subSetPlain_eq : subSetPlain c x = subSetPlain c y := by
  have hplain : (c.subSet · x) = (c.subSet · y) := funext (h.right .subSet)
  have hfull : c.isFull x = c.isFull y := h.test .isFull
  simp only [subSetPlain, hplain, hfull]

/-- Interchangeable objects are parts of the same objects. -/
theorem superSetPlain_eq : superSetPlain c x = superSetPlain c y := by
  have hplain : c.subSet x = c.subSet y := funext (h.left .subSet)
  have hempty : c.isEmpty x = c.isEmpty y := h.test .isEmpty
  simp only [superSetPlain, hplain, hempty]

/-- All objects compare alike with interchangeable ones. -/
theorem relate_right (relation : Relation) (o : AbstractObject α) :
    o.relate c relation (.plain x) = o.relate c relation (.plain y) := by
  cases relation with
  | mayEqual => simp only [relate, mayEqual_plain, h.mayEqualPlain_eq]
  | mustEqual => simp only [relate, mustEqual_plain, h.mustEqualPlain_eq]
  | equalSet => simp only [relate, equalSet_plain, h.equalSetPlain_eq]
  | subSet => simp only [relate, subSet_plain, h.subSetPlain_eq]

/-- Interchangeable objects compare alike with all objects. -/
theorem relate_left (relation : Relation) (o : AbstractObject α) :
    AbstractObject.relate c relation (.plain x) o =
      AbstractObject.relate c relation (.plain y) o := by
  cases o with
  | plain z => exact h.left relation z
  | full =>
      cases relation with
      | equalSet => exact h.test .isFull
      | _ => rfl
  | empty =>
      cases relation with
      | equalSet => exact h.test .isEmpty
      | subSet => exact h.test .isEmpty
      | _ => rfl
  | combined mode children =>
      cases relation with
      | mayEqual => exact congrFun h.mayEqualPlain_eq _
      | mustEqual => exact congrFun h.mustEqualPlain_eq _
      | equalSet => exact congrFun h.equalSetPlain_eq _
      | subSet => exact congrFun h.superSetPlain_eq _

end Interchangeable

section Results

variable [RegionDomain V R] {edge : EdgeId}

/-- How function results relate two plain locations is how they relate their regions. -/
theorem Cell.regions_of_resultRelation {x y : Cell V R} {answer : Bool}
    (h : x.resultRelation edge y = some answer) :
    MemRegion.resultRelation edge x.toSlot.region y.toSlot.region = some answer := by
  cases x with
  | result f =>
      cases y with
      | result g => exact h
      | slot t =>
          obtain ⟨rfl, w, hregion, hapart⟩ := Cell.apart_eq_some h
          simp only [toSlot, hregion]
          exact hapart
  | slot s =>
      cases y with
      | result g =>
          obtain ⟨rfl, v, hregion, hapart⟩ := Cell.apart_eq_some h
          simp only [toSlot, hregion]
          exact (v.resultRelation_comm _).trans hapart
      | slot t => cases h

/-- Regions that are related by function results were not built from one and the same term. -/
theorem MemRegion.sameBase_of_resultRelation {a b : MemRegion R} {answer : Bool}
    (h : MemRegion.resultRelation edge a b = some answer) :
    MemRegion.shortcuts.sameBase a b = false := by
  cases a with
  | plain x =>
      cases b with
      | plain y =>
          cases x with
          | result f => exact Shortcuts.sameBase_eq_false rfl _
          | leaf r =>
              cases y with
              | result g => exact Shortcuts.sameBase_eq_false_right rfl _
              | leaf t => cases h
      | _ => cases h
  | _ => cases h

end Results

variable [ValueDomain V] [RegionDomain V R] {edge : EdgeId} {relation : Relation}

/-- A comparison of two slots that answer all questions themselves. -/
def Slot.relate (edge : EdgeId) (relation : Relation) (s t : Slot V R) : Except Fault Bool :=
  match relation with
  | .mayEqual => s.mayEqual .silent edge t
  | .mustEqual => s.mustEqual .silent edge t
  | .equalSet => s.equalSet .silent edge t
  | .subSet => s.subSet .silent edge t

/-- Slots are denied what is denied to their regions. -/
theorem Slot.relate_of_denied {s t : Slot V R}
    (h : relateRegions (.silent : Arbiter (Except Fault) V R) edge relation s.region t.region =
      .ok false) :
    Slot.relate edge relation s t = .ok false := by
  cases relation <;> simp only [relate, mayEqual, mustEqual, equalSet, subSet, h] <;> rfl

/-- Slots without indexes are granted what is granted to their regions. -/
theorem Slot.relate_of_granted {a b : MemRegion R}
    (h : relateRegions (.silent : Arbiter (Except Fault) V R) edge relation a b = .ok true) :
    Slot.relate (V := V) edge relation ⟨a, none⟩ ⟨b, none⟩ = .ok true := by
  cases relation <;> simp only [relate, mayEqual, mustEqual, equalSet, subSet, h] <;> rfl

namespace Cell

/-- Plain locations compare as their slots do. Where function results relate them, the slots would
give the same answer. -/
theorem relate_toSlot (x y : Cell V R) :
    Cell.relate edge (Slot.relate edge relation) x y =
      Slot.relate edge relation x.toSlot y.toSlot := by
  cases hrelation : x.resultRelation edge y with
  | none => rw [Cell.relate, hrelation]
  | some answer =>
      have hregions := Cell.regions_of_resultRelation hrelation
      have hasked : Slot.relateRegions (.silent : Arbiter (Except Fault) V R) edge relation
          x.toSlot.region y.toSlot.region = .ok answer := by
        rw [Slot.relateRegions_silent fun _ => MemRegion.sameBase_of_resultRelation hregions]
        exact MemRegion.relate_of_resultRelation relation hregions
      rw [Cell.relate_of_resultRelation hrelation]
      cases answer with
      | false => exact (Slot.relate_of_denied hasked).symm
      | true =>
          -- Only one and the same result is related so, and its slot has no index.
          obtain rfl : x = y := Cell.eq_of_resultRelation hrelation
          cases x with
          | result f => exact (Slot.relate_of_granted hasked).symm
          | slot s => cases hrelation

/-- Asked as objects, plain locations compare as their slots do. -/
theorem relate_slots (relation : Relation) (x y : Cell V R) :
    AbstractObject.relate (Family.own .memLoc edge) relation (.plain x) (.plain y) =
      Slot.relate edge relation x.toSlot y.toSlot := by
  rw [← relate_toSlot]
  cases relation <;> rfl

/-- A plain location and its slot are interchangeable. -/
theorem interchangeable_toSlot (x : Cell V R) :
    Interchangeable (Family.own .memLoc edge) x (.slot x.toSlot) where
  left relation z := by
    rw [relate_slots, relate_slots]
    rfl
  right relation z := by
    rw [relate_slots, relate_slots]
    rfl
  test test := by
    cases x with
    | result f => cases test <;> rfl
    | slot s => rfl

end Cell

namespace MemLoc

/-- The place of the result of a function. -/
def resultPlace (V R : Type) (f : FunctionName) : Object V R .memLoc := .plain (.result f)

/-- The whole of the storage for the result of a function. -/
def resultStorage (V R : Type) (f : FunctionName) : Object V R .memLoc :=
  .plain (.slot ⟨.plain (.result f), none⟩)

/-- The place of a function's result and the whole of the storage for it compare alike with every
location, on either side, whether they are asked themselves or through an arbiter who answers
nothing. They pass the same tests and were built from the same term. -/
theorem resultPlace_as_storage (f : FunctionName) (edge : EdgeId) :
    (∀ (relation : Relation) (x : Object V R .memLoc),
      (resultPlace V R f).relate (Family.own .memLoc edge) relation x =
        (resultStorage V R f).relate (Family.own .memLoc edge) relation x ∧
      x.relate (Family.own .memLoc edge) relation (resultPlace V R f) =
        x.relate (Family.own .memLoc edge) relation (resultStorage V R f) ∧
      AnyObject.relate (m := Except Fault) .silent edge relation ⟨.memLoc, resultPlace V R f⟩
          ⟨.memLoc, x⟩ =
        AnyObject.relate .silent edge relation ⟨.memLoc, resultStorage V R f⟩ ⟨.memLoc, x⟩ ∧
      AnyObject.relate (m := Except Fault) .silent edge relation ⟨.memLoc, x⟩
          ⟨.memLoc, resultPlace V R f⟩ =
        AnyObject.relate .silent edge relation ⟨.memLoc, x⟩ ⟨.memLoc, resultStorage V R f⟩) ∧
    (∀ test : Test,
      (resultPlace V R f).test (Family.own .memLoc edge) test =
        (resultStorage V R f).test (Family.own .memLoc edge) test ∧
      AnyObject.test (m := Except Fault) .silent edge test ⟨.memLoc, resultPlace V R f⟩ =
        AnyObject.test .silent edge test ⟨.memLoc, resultStorage V R f⟩) ∧
    MemLoc.base (resultPlace V R f) = MemLoc.base (resultStorage V R f) := by
  have halike : Interchangeable (Family.own .memLoc edge) (.result f : Cell V R)
      (.slot ⟨.plain (.result f), none⟩) :=
    Cell.interchangeable_toSlot (.result f)
  refine ⟨fun relation x => ?_, fun test => ⟨halike.test test, halike.test test⟩, rfl⟩
  have hleft := halike.relate_left relation x
  have hright := halike.relate_right relation x
  refine ⟨hleft, hright, ?_, ?_⟩
  · rw [AnyObject.relate_silent fun _ => Shortcuts.sameBase_eq_false rfl x,
      AnyObject.relate_silent fun _ => Shortcuts.sameBase_eq_false rfl x]
    exact hleft
  · rw [AnyObject.relate_silent fun _ => Shortcuts.sameBase_eq_false_right rfl x,
      AnyObject.relate_silent fun _ => Shortcuts.sameBase_eq_false_right rfl x]
    exact hright

end MemLoc

end JointAnalysis
