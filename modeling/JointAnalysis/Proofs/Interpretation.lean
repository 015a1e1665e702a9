import JointAnalysis.Domain.Regions
import JointAnalysis.Object.Any
import JointAnalysis.Proofs.Denotation
import Mathlib.Data.Set.BooleanAlgebra
import Mathlib.Data.Set.Prod
import Mathlib.Order.CompletePartialOrder

/-!
# What the objects of each family denote

Values denote data and regions denote areas of memory. What the leaves denote is left to an
`Interpretation`; places in the code and locations in memory follow from it. An interpretation is
sound at an edge if the leaves' own answers are right about the sets that it gives them:
`Interpretation.Sound`. The flat lattices of this library have such an interpretation,
`Interpretation.flat`.
-/

namespace JointAnalysis

variable {V R L E : Type}

/-- A set was narrowed by another one: what they have in common is kept, nothing is added, and if no
change is reported there is none. -/
structure Narrows (first second result : Set E) (changed : Bool) : Prop where
  keeps : first ∩ second ⊆ result
  within : result ⊆ first
  unchanged : changed = false → result = first

/-- A set that stays as it is may be said to be narrowed. -/
theorem Narrows.rfl {S T : Set E} {changed : Bool} : Narrows S T S changed :=
  ⟨Set.inter_subset_left, subset_rfl, fun _ => Eq.refl S⟩

/-- A set may be narrowed to nothing by one with which it has nothing in common. -/
theorem Narrows.nothing {S T : Set E} (h : Disjoint S T) : Narrows S T ∅ true :=
  ⟨(Set.disjoint_iff_inter_eq_empty.1 h).subset, Set.empty_subset S, by simp⟩

/-- Everything may be narrowed to any set. -/
theorem Narrows.everything {T : Set E} : Narrows Set.univ T T true :=
  ⟨Set.inter_subset_right, Set.subset_univ T, by simp⟩

/-- A change may always be reported. -/
theorem Narrows.reported {S T U : Set E} {changed : Bool} (h : Narrows S T U changed) :
    Narrows S T U true :=
  ⟨h.keeps, h.within, by simp⟩

/-- What is narrowed by a set is narrowed by every part of it. -/
theorem Narrows.mono {S T T' U : Set E} {changed : Bool} (h : Narrows S T U changed)
    (hpart : T' ⊆ T) : Narrows S T' U changed :=
  ⟨(Set.inter_subset_inter_right S hpart).trans h.keeps, h.within, h.unchanged⟩

/-- Pairs are narrowed where their components are. -/
theorem Narrows.prod {F : Type} {S T U : Set E} {S' T' U' : Set F} {changed changed' : Bool}
    (h : Narrows S T U changed) (h' : Narrows S' T' U' changed') :
    Narrows (S ×ˢ S') (T ×ˢ T') (U ×ˢ U') (changed || changed') := by
  refine ⟨?_, Set.prod_mono h.within h'.within, fun hnone => ?_⟩
  · rw [Set.prod_inter_prod]
    exact Set.prod_mono h.keeps h'.keeps
  · obtain ⟨hfirst, hsecond⟩ := Bool.or_eq_false_iff.1 hnone
    rw [h.unchanged hfirst, h'.unchanged hsecond]

/-- The parts or the terms that a field of a place in the code matches. -/
def CodePoint.matched {β : Type} : Option β → Set β
  | none => Set.univ
  | some b => {b}

/-- The pairs of a part and a term that a place in the code matches. -/
def CodePoint.places (p : CodePoint) : Set (PartId × TermId) := matched p.part ×ˢ matched p.term

/-- What leaves denote. Some of them may be left out, if one relies on the others only. -/
structure Interpretation (V R : Type) where
  Datum : Type
  Area : Type
  value : V → Set Datum
  region : R → Set Area
  /-- The storage for the result of a function. -/
  storage : FunctionName → Set Area
  /-- The leaves of values on whose answers one relies. -/
  trustsValue : V → Prop
  /-- The leaves of regions on whose answers one relies. -/
  trustsRegion : R → Prop

namespace Interpretation

variable (ι : Interpretation V R)

/-- The entities of each family. -/
@[reducible] def Entity : Family → Type
  | .value => ι.Datum
  | .codeLoc => PartId × TermId
  | .memRegion => ι.Area
  | .memLoc => ι.Area × ι.Datum

/-- The areas of a plain region. -/
def areas : Storage R → Set ι.Area
  | .result f => ι.storage f
  | .leaf r => ι.region r

/-- The data that an index stands for; without index, all data. -/
def indexes : Option (Value V) → Set ι.Datum
  | none => Set.univ
  | some i => i.denote ι.value

/-- The locations of a slot: its region at its indexes. -/
def locations (s : Slot V R) : Set (ι.Area × ι.Datum) :=
  s.region.denote ι.areas ×ˢ ι.indexes s.index

/-- What the plain objects of each family denote. -/
def plain : (family : Family) → Plain V R family → Set (ι.Entity family)
  | .value => ι.value
  | .codeLoc => CodePoint.places
  | .memRegion => ι.areas
  | .memLoc => fun cell => ι.locations cell.toSlot

/-- What the objects of each family denote. -/
def denote {family : Family} (o : Object V R family) : Set (ι.Entity family) :=
  AbstractObject.denote (ι.plain family) o

end Interpretation

/-- The answers of leaves are right about the sets that the leaves denote. -/
structure LeafSound (denotes : L → Set E) (trusts : L → Prop) (equalSet subSet : L → L → Bool)
    (meet : L → L → Met L) (isFull isEmpty : L → Bool) : Prop where
  equalSet : ∀ {x y}, trusts x → trusts y → equalSet x y = true → denotes x = denotes y
  subSet : ∀ {x y}, trusts x → trusts y → subSet x y = true → denotes x ⊆ denotes y
  meet : ∀ {x y}, trusts x → trusts y →
    Narrows (denotes x) (denotes y) (denotes (meet x y).object) (meet x y).changed
  isFull : ∀ {x}, trusts x → isFull x = true → denotes x = Set.univ
  isEmpty : ∀ {x}, trusts x → isEmpty x = true → denotes x = ∅

/-- The answers of leaves about parts and bounds are right about the sets that the leaves denote. -/
structure LeafInclusion (denotes : L → Set E) (trusts : L → Prop) (subSet : L → L → Bool)
    (isFull isEmpty : L → Bool) : Prop where
  subSet : ∀ {x y}, trusts x → trusts y → subSet x y = true → denotes x ⊆ denotes y
  isFull : ∀ {x}, trusts x → isFull x = true → denotes x = Set.univ
  isEmpty : ∀ {x}, trusts x → isEmpty x = true → denotes x = ∅

/-- The answers of leaves about bounds are right about the sets that the leaves denote. -/
structure LeafBounds (denotes : L → Set E) (trusts : L → Prop) (isFull isEmpty : L → Bool) :
    Prop where
  isFull : ∀ {x}, trusts x → isFull x = true → denotes x = Set.univ
  isEmpty : ∀ {x}, trusts x → isEmpty x = true → denotes x = ∅

/-- If all answers of leaves are right, those about parts and bounds are. -/
theorem LeafSound.inclusion {denotes : L → Set E} {trusts : L → Prop}
    {equalSet subSet : L → L → Bool} {meet : L → L → Met L} {isFull isEmpty : L → Bool}
    (h : LeafSound denotes trusts equalSet subSet meet isFull isEmpty) :
    LeafInclusion denotes trusts subSet isFull isEmpty :=
  ⟨h.subSet, h.isFull, h.isEmpty⟩

section Results

variable [RegionDomain V R] {edge : EdgeId}

/-- A leaf is related to a function's result by being apart from it, and then it is not full. -/
theorem Storage.apart_eq_some {r : R} {answer : Bool}
    (h : Storage.resultRelation.apart edge r = some answer) :
    answer = false ∧ RegionDomain.isFull edge r = false := by
  rw [resultRelation.apart] at h
  split at h
  · cases h
  · next hneither =>
      cases h
      exact ⟨rfl, by simp_all⟩

/-- How function results relate two plain regions does not depend on their order. -/
theorem Storage.resultRelation_comm (x y : Storage R) :
    x.resultRelation edge y = y.resultRelation edge x := by
  cases x with
  | result f =>
      cases y with
      | result g => simp only [resultRelation, eq_comm]
      | leaf r => rfl
  | leaf r => cases y <;> rfl

/-- A slot is related to the place of a function's result by lying in a plain region that is apart
from it. -/
theorem Cell.apart_eq_some {f : FunctionName} {s : Slot V R} {answer : Bool}
    (h : Cell.resultRelation.apart edge f s = some answer) :
    answer = false ∧
      ∃ y, s.region = .plain y ∧ Storage.resultRelation edge (.result f) y = some false := by
  rw [resultRelation.apart] at h
  split at h
  · next hregion =>
      cases h
      cases hplain : s.region with
      | plain y =>
          rw [hplain] at hregion
          exact ⟨rfl, y, rfl, hregion⟩
      | _ =>
          rw [hplain] at hregion
          cases hregion
  · cases h

/-- Function results say of plain regions that they are the same only if they are. -/
theorem Storage.eq_of_resultRelation {x y : Storage R} (h : x.resultRelation edge y = some true) :
    x = y := by
  cases x with
  | result f =>
      cases y with
      | result g => rw [of_decide_eq_true (Option.some.inj h)]
      | leaf r => exact absurd (Storage.apart_eq_some h).1 (by simp)
  | leaf r =>
      cases y with
      | result g => exact absurd (Storage.apart_eq_some h).1 (by simp)
      | leaf s => cases h

/-- Plain regions that are said to denote the same set are one result, or leaves that say so. -/
theorem Storage.result_or_leaves {x y : Storage R} (h : x.equalSet edge y = true) :
    (∃ f, x = .result f ∧ y = .result f) ∨
      ∃ r s, x = .leaf r ∧ y = .leaf s ∧ RegionDomain.equalSet edge r s = true := by
  cases hrelation : x.resultRelation edge y with
  | some answer =>
      simp only [Storage.equalSet, hrelation] at h
      subst h
      obtain rfl := Storage.eq_of_resultRelation hrelation
      cases x with
      | result f => exact .inl ⟨f, rfl, rfl⟩
      | leaf r => cases hrelation
  | none =>
      cases x with
      | result f => cases y <;> simp only [Storage.equalSet, hrelation] at h <;> cases h
      | leaf r =>
          cases y <;> simp only [Storage.equalSet, hrelation] at h
          · cases h
          · exact .inr ⟨r, _, rfl, rfl, h⟩

/-- Function results say of plain locations that they are the same only if they are. -/
theorem Cell.eq_of_resultRelation {x y : Cell V R} (h : x.resultRelation edge y = some true) :
    x = y := by
  cases x with
  | result f =>
      cases y with
      | result g => rw [of_decide_eq_true (Option.some.inj h)]
      | slot s => exact absurd (Cell.apart_eq_some h).1 (by simp)
  | slot s =>
      cases y with
      | result g => exact absurd (Cell.apart_eq_some h).1 (by simp)
      | slot t => cases h

end Results

namespace Interpretation

variable [RegionDomain V R] {ι : Interpretation V R} {edge : EdgeId}

/-- The results of different functions are stored apart, and a region leaf that is not full has
nothing of the storage for results. -/
structure Apart (ι : Interpretation V R) (edge : EdgeId) : Prop where
  results : ∀ {f g}, f ≠ g → Disjoint (ι.storage f) (ι.storage g)
  leaf : ∀ {r}, ι.trustsRegion r → RegionDomain.isFull edge r = false →
    ∀ f, Disjoint (ι.storage f) (ι.region r)

/-- The leaves' own answers at an edge are right, and the storage for results is kept apart. -/
structure Sound [ValueDomain V] (ι : Interpretation V R) (edge : EdgeId) : Prop where
  value : LeafSound ι.value ι.trustsValue (ValueDomain.equalSet edge) (ValueDomain.subSet edge)
    (ValueDomain.meet edge) (ValueDomain.isFull edge) (ValueDomain.isEmpty edge)
  region : LeafSound ι.region ι.trustsRegion (RegionDomain.equalSet edge)
    (RegionDomain.subSet edge) (RegionDomain.meet edge) (RegionDomain.isFull edge)
    (RegionDomain.isEmpty edge)
  apart : ι.Apart edge

/-- The leaves' own answers about parts and bounds at an edge are right. -/
structure Inclusive [ValueDomain V] (ι : Interpretation V R) (edge : EdgeId) : Prop where
  value : LeafInclusion ι.value ι.trustsValue (ValueDomain.subSet edge) (ValueDomain.isFull edge)
    (ValueDomain.isEmpty edge)
  region : LeafInclusion ι.region ι.trustsRegion (RegionDomain.subSet edge)
    (RegionDomain.isFull edge) (RegionDomain.isEmpty edge)

/-- The leaves' own answers about bounds at an edge are right. -/
structure Bounding [ValueDomain V] (ι : Interpretation V R) (edge : EdgeId) : Prop where
  value : LeafBounds ι.value ι.trustsValue (ValueDomain.isFull edge) (ValueDomain.isEmpty edge)
  region : LeafBounds ι.region ι.trustsRegion (RegionDomain.isFull edge) (RegionDomain.isEmpty edge)

/-- If all answers of the leaves are right, those about parts and bounds are. -/
theorem Sound.inclusive [ValueDomain V] (h : ι.Sound edge) : ι.Inclusive edge :=
  ⟨h.value.inclusion, h.region.inclusion⟩

/-- If the answers of the leaves about parts and bounds are right, those about bounds are. -/
theorem Inclusive.bounding [ValueDomain V] (h : ι.Inclusive edge) : ι.Bounding edge :=
  ⟨⟨h.value.isFull, h.value.isEmpty⟩, ⟨h.region.isFull, h.region.isEmpty⟩⟩

/-- The plain regions on whose answers one relies. -/
def trustsStorage (ι : Interpretation V R) : Storage R → Prop
  | .result _ => True
  | .leaf r => ι.trustsRegion r

namespace Apart

variable (h : ι.Apart edge)

include h

/-- Function results say of plain regions that they are apart only if they are. -/
theorem disjoint_areas {x y : Storage R} (hx : ι.trustsStorage x) (hy : ι.trustsStorage y)
    (hapart : x.resultRelation edge y = some false) : Disjoint (ι.areas x) (ι.areas y) := by
  cases x with
  | result f =>
      cases y with
      | result g => exact h.results (of_decide_eq_false (Option.some.inj hapart))
      | leaf r => exact h.leaf hy (Storage.apart_eq_some hapart).2 f
  | leaf r =>
      cases y with
      | result g => exact (h.leaf hx (Storage.apart_eq_some hapart).2 g).symm
      | leaf s => cases hapart

/-- The place of a function's result is apart from a slot of which function results say so. -/
theorem disjoint_slot {f : FunctionName} {s : Slot V R}
    (hs : ∀ {y}, s.region = .plain y → ι.trustsStorage y)
    (hapart : Cell.resultRelation.apart edge f s = some false) :
    Disjoint (ι.locations ⟨.plain (.result f), none⟩) (ι.locations s) := by
  obtain ⟨-, y, hregion, hy⟩ := Cell.apart_eq_some hapart
  have hareas : Disjoint (ι.areas (.result f)) (ι.areas y) :=
    h.disjoint_areas trivial (hs hregion) hy
  refine Set.disjoint_prod.2 (.inl ?_)
  rw [hregion]
  exact hareas

/-- Function results say of plain locations that they are apart only if they are. -/
theorem disjoint_locations {x y : Cell V R}
    (htrusts : ∀ {v w}, x.toSlot.region = .plain v → y.toSlot.region = .plain w →
      ι.trustsStorage v ∧ ι.trustsStorage w)
    (hapart : x.resultRelation edge y = some false) :
    Disjoint (ι.locations x.toSlot) (ι.locations y.toSlot) := by
  cases x with
  | result f =>
      cases y with
      | result g =>
          have hstorage := h.results (of_decide_eq_false (Option.some.inj hapart))
          exact Set.disjoint_prod.2 (.inl hstorage)
      | slot s => exact h.disjoint_slot (fun hs => (htrusts rfl hs).2) hapart
  | slot s =>
      cases y with
      | result g => exact (h.disjoint_slot (fun hs => (htrusts hs rfl).1) hapart).symm
      | slot t => cases hapart

end Apart

end Interpretation

namespace Flat

variable {α : Type} (embed : α → E)

/-- The entities of an element of a flat lattice. -/
def denote : Flat α → Set E
  | .bottom => ∅
  | .exactly a => {embed a}
  | .top => Set.univ

variable [DecidableEq α]

/-- A part is a part. -/
theorem denote_subset_of_subSet {x y : Flat α} (h : x.subSet y = true) :
    x.denote embed ⊆ y.denote embed := by
  cases x <;> cases y <;> simp_all [subSet, denote]

variable {embed} (hembed : Function.Injective embed)

include hembed

/-- Elements without a common entity denote disjoint sets. -/
theorem disjoint_of_mayEqual {x y : Flat α} (h : x.mayEqual y = false) :
    Disjoint (x.denote embed) (y.denote embed) := by
  cases x <;> cases y <;> simp_all [mayEqual, denote, hembed.eq_iff]

/-- Elements are narrowed to each other. -/
theorem narrows_meet (x y : Flat α) :
    Narrows (x.denote embed) (y.denote embed) ((x.meet y).object.denote embed)
      (x.meet y).changed := by
  cases x with
  | bottom => cases y <;> exact .rfl
  | exactly a =>
      cases y with
      | bottom => exact .nothing (Set.disjoint_empty _)
      | exactly b =>
          by_cases hab : a = b
          · rw [meet, if_pos hab]
            exact .rfl
          · have hdisjoint : Disjoint (denote embed (.exactly a)) (denote embed (.exactly b)) :=
              disjoint_of_mayEqual hembed (by simpa [mayEqual] using hab)
            rw [meet, if_neg hab]
            exact .nothing hdisjoint
      | top => exact .rfl
  | top =>
      cases y with
      | bottom => exact .nothing (Set.disjoint_empty _)
      | exactly b => exact .everything
      | top => exact .rfl

/-- The answers of a flat lattice are right. -/
theorem leafSound :
    LeafSound (denote embed) (fun _ => True) (fun x y => decide (x = y)) subSet meet
      (fun x => decide (x = .top)) (fun x => decide (x = .bottom)) where
  equalSet _ _ h := by rw [of_decide_eq_true h]
  subSet _ _ h := denote_subset_of_subSet embed h
  meet _ _ := narrows_meet hembed _ _
  isFull _ h := by rw [of_decide_eq_true h, denote]
  isEmpty _ h := by rw [of_decide_eq_true h, denote]

end Flat

/-- The flat lattices as sets: constants denote themselves, and placed regions have names beside the
storage for results. One does not rely on other leaves. -/
def Interpretation.flat : Interpretation ValueLeaf RegionLeaf where
  Datum := Int64
  Area := String ⊕ FunctionName
  value
    | .flat x _ => x.denote id
    | _ => Set.univ
  region
    | .placed p _ _ => p.denote Sum.inl
    | _ => Set.univ
  storage f := {.inr f}
  trustsValue
    | .flat _ _ => True
    | _ => False
  trustsRegion
    | .placed _ _ _ => True
    | _ => False

namespace Interpretation

/-- The flat lattice of constants, as leaves of values. -/
theorem flat_value (edge : EdgeId) :
    LeafSound flat.value flat.trustsValue (ValueDomain.equalSet edge) (ValueDomain.subSet edge)
      (ValueDomain.meet edge) (ValueDomain.isFull edge) (ValueDomain.isEmpty edge) := by
  have hsound := Flat.leafSound (α := Int64) Function.injective_id
  constructor
  · rintro ⟨x, _⟩ ⟨y, _⟩ ⟨⟩ ⟨⟩ h
    exact hsound.equalSet trivial trivial h
  · rintro ⟨x, _⟩ ⟨y, _⟩ ⟨⟩ ⟨⟩ h
    exact hsound.subSet trivial trivial h
  · rintro ⟨x, _⟩ ⟨y, _⟩ ⟨⟩ ⟨⟩
    exact hsound.meet trivial trivial
  · rintro ⟨x, _⟩ ⟨⟩ h
    exact hsound.isFull trivial h
  · rintro ⟨x, _⟩ ⟨⟩ h
    exact hsound.isEmpty trivial h

/-- The flat lattice of placed regions, as leaves of regions. -/
theorem flat_region (edge : EdgeId) :
    LeafSound flat.region flat.trustsRegion (RegionDomain.equalSet edge) (RegionDomain.subSet edge)
      (RegionDomain.meet edge) (RegionDomain.isFull edge) (RegionDomain.isEmpty edge) := by
  have hsound := Flat.leafSound (α := String) (E := String ⊕ FunctionName) Sum.inl_injective
  constructor
  · rintro ⟨x, _, _⟩ ⟨y, _, _⟩ ⟨⟩ ⟨⟩ h
    exact hsound.equalSet trivial trivial h
  · rintro ⟨x, _, _⟩ ⟨y, _, _⟩ ⟨⟩ ⟨⟩ h
    exact hsound.subSet trivial trivial h
  · rintro ⟨x, _, _⟩ ⟨y, _, _⟩ ⟨⟩ ⟨⟩
    exact hsound.meet trivial trivial
  · rintro ⟨x, _, _⟩ ⟨⟩ h
    exact hsound.isFull trivial h
  · rintro ⟨x, _, _⟩ ⟨⟩ h
    exact hsound.isEmpty trivial h

/-- Placed regions are apart from the storage for results. -/
theorem flat_apart (edge : EdgeId) : flat.Apart edge where
  results hne := Set.disjoint_singleton.2 (Sum.inr_injective.ne hne)
  leaf := by
    rintro ⟨x, _, _⟩ ⟨⟩ h f
    cases x with
    | bottom => exact Set.disjoint_empty _
    | exactly name => exact Set.disjoint_singleton.2 Sum.inr_ne_inl
    | top => cases h

/-- The flat lattices answer for what they denote, at every edge. -/
theorem flat_sound (edge : EdgeId) : flat.Sound edge where
  value := flat_value edge
  region := flat_region edge
  apart := flat_apart edge

end Interpretation

end JointAnalysis
