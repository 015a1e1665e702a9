import JointAnalysis.Proofs.Conjunction
import JointAnalysis.Proofs.Silence

/-!
# The comparisons as statements about sets

For conjunctions of every family: what is said to denote the same set does, what is said to be a
part is one, and a meet keeps what two objects have in common, adds nothing to the first and changes
nothing if it reports no change. Each family is taken by itself first. Locations come last, since
they are compared by their regions and indexes. For these the bounds are asked through an
arbiter, which has to be `Interpretation.Honest`.
-/

namespace JointAnalysis

variable {V R : Type}

/-- Plain locations for which a comparison is granted are the same, or it is granted for their
slots. -/
theorem Cell.eq_or_of_relate [RegionDomain V R] {edge : EdgeId} {x y : Cell V R}
    {slots : Slot V R → Slot V R → Except Fault Bool}
    (h : Cell.relate edge slots x y = .ok true) : x = y ∨ slots x.toSlot y.toSlot = .ok true := by
  rw [Cell.relate] at h
  split at h
  · next answer hrelation =>
      cases h
      exact .inl (Cell.eq_of_resultRelation hrelation)
  · exact .inr h

namespace CodePoint

variable {β : Type} [DecidableEq β] {x y : Option β}

/-- A field that includes another one matches all that the other one matches. -/
theorem matched_subset (h : includes y x = true) : matched x ⊆ matched y := by
  cases y with
  | none => exact Set.subset_univ _
  | some b =>
      cases x with
      | none => cases h
      | some a => rw [show b = a from of_decide_eq_true h]

/-- A field is narrowed to another one with a common match. -/
theorem narrows_common {met : Met (Option β)} (h : common? x y = some met) :
    Narrows (matched x) (matched y) (matched met.object) met.changed := by
  cases y with
  | none =>
      cases x <;> cases h <;> exact .rfl
  | some b =>
      cases x with
      | none =>
          cases h
          exact .everything
      | some a =>
          simp only [common?] at h
          split at h
          · cases h
            exact .rfl
          · cases h

/-- Fields without a common match match nothing in common. -/
theorem disjoint_of_common (h : common? x y = none) : Disjoint (matched x) (matched y) := by
  cases x with
  | none => cases y <;> cases h
  | some a =>
      cases y with
      | none => cases h
      | some b =>
          simp only [common?, ite_eq_right_iff, reduceCtorEq, imp_false] at h
          exact Set.disjoint_singleton.2 h

/-- A place is narrowed to another one. -/
theorem narrows_meet (a b : CodePoint) :
    Narrows a.places b.places ((a.meet b).object.denote places) (a.meet b).changed := by
  rw [meet]
  split
  · next hpart hterm => exact (narrows_common hpart).prod (narrows_common hterm)
  · next hnone =>
      refine .nothing (Set.disjoint_prod.2 ?_)
      cases hpart : common? a.part b.part with
      | none => exact .inl (disjoint_of_common hpart)
      | some part =>
          cases hterm : common? a.term b.term with
          | none => exact .inr (disjoint_of_common hterm)
          | some term => exact (hnone part term hpart hterm).elim

end CodePoint

/-- What places say about each other is right. -/
theorem CodeLoc.sound :
    (CodeLoc.comparison (m := Except Fault)).Sound CodePoint.places fun _ => True where
  equalSet _ _ h := by rw [of_decide_eq_true (Except.ok.inj h)]
  subSet _ _ h := by
    obtain ⟨hpart, hterm⟩ := Bool.and_eq_true_iff.1 (Except.ok.inj h)
    exact Set.prod_mono (CodePoint.matched_subset hpart) (CodePoint.matched_subset hterm)
  meet _ _ h := by
    cases h
    exact CodePoint.narrows_meet _ _
  isFull {x} _ h := by
    obtain ⟨hpart, hterm⟩ := Bool.and_eq_true_iff.1 (Except.ok.inj h)
    rw [CodePoint.places, Option.isNone_iff_eq_none.1 hpart, Option.isNone_iff_eq_none.1 hterm]
    exact Set.univ_prod_univ
  isEmpty _ h := by cases h

/-- A question that is put before the arbiter is granted by the arbiter or by the object. -/
theorem Arbiter.granted_by {arbiter : Arbiter (Except Fault) V R} {family : Family}
    {o : Object V R family} {c : Comparison (Except Fault) (Plain V R family)} {test : Test}
    (h : arbiter.test family c test o = .ok true) :
    arbiter.consult (.test test ⟨family, o⟩) = .ok (some true) ∨ o.test c test = .ok true := by
  obtain ⟨answer, hconsult, hrest⟩ := bind_eq_ok h
  cases answer with
  | none => exact .inr hrest
  | some granted =>
      cases hrest
      exact .inl hconsult

namespace Interpretation

/-- What an arbiter says about the bounds of an object is right. -/
structure Honest (ι : Interpretation V R) (arbiter : Arbiter (Except Fault) V R) : Prop where
  isFull : ∀ {family : Family} {o : Object V R family},
    arbiter.consult (.test .isFull ⟨family, o⟩) = .ok (some true) → ι.denote o = Set.univ
  isEmpty : ∀ {family : Family} {o : Object V R family},
    arbiter.consult (.test .isEmpty ⟨family, o⟩) = .ok (some true) → ι.denote o = ∅

namespace Honest

variable {ι : Interpretation V R} {arbiter : Arbiter (Except Fault) V R}

/-- Who answers nothing says nothing wrong. -/
theorem silent (ι : Interpretation V R) : ι.Honest .silent :=
  ⟨fun h => absurd (Except.ok.inj h) (by simp), fun h => absurd (Except.ok.inj h) (by simp)⟩

variable (harbiter : ι.Honest arbiter)

include harbiter

/-- An object that is said to be full through the arbiter is, if this is so for the object. -/
theorem denote_of_full (family : Family) {o : Object V R family}
    {c : Comparison (Except Fault) (Plain V R family)}
    (hown : o.isFull c = .ok true → ι.denote o = Set.univ)
    (h : arbiter.test family c .isFull o = .ok true) : ι.denote o = Set.univ :=
  (Arbiter.granted_by h).elim harbiter.isFull hown

/-- An object that is said to be empty through the arbiter is, if this is so for the object. -/
theorem denote_of_empty (family : Family) {o : Object V R family}
    {c : Comparison (Except Fault) (Plain V R family)}
    (hown : o.isEmpty c = .ok true → ι.denote o = ∅)
    (h : arbiter.test family c .isEmpty o = .ok true) : ι.denote o = ∅ :=
  (Arbiter.granted_by h).elim harbiter.isEmpty hown

end Honest

variable [ValueDomain V] [RegionDomain V R] {ι : Interpretation V R} {edge : EdgeId}

/-- What the leaves of values say about each other is right. -/
theorem Sound.values (h : ι.Sound edge) :
    (Value.comparison (m := Except Fault) edge).Sound ι.value ι.trustsValue where
  equalSet hx hy heq := h.value.equalSet hx hy (Except.ok.inj heq)
  subSet hx hy hsub := h.value.subSet hx hy (Except.ok.inj hsub)
  meet hx hy hmeet := by
    cases hmeet
    exact h.value.meet hx hy
  isFull hx hfull := h.value.isFull hx (Except.ok.inj hfull)
  isEmpty hx hempty := h.value.isEmpty hx (Except.ok.inj hempty)

namespace Bounding

variable (h : ι.Bounding edge)

include h

/-- A value that is said to denote everything does. -/
theorem data_full {v : Value V} (hv : v.Consists ι.trustsValue)
    (hfull : v.isFull (Value.comparison (m := Except Fault) edge) = .ok true) :
    v.denote ι.value = Set.univ :=
  AbstractObject.denote_of_isFull (fun hx hx' => h.value.isFull hx (Except.ok.inj hx')) hv hfull

/-- A value that is said to denote nothing does. -/
theorem data_empty {v : Value V} (hv : v.Consists ι.trustsValue)
    (hempty : v.isEmpty (Value.comparison (m := Except Fault) edge) = .ok true) :
    v.denote ι.value = ∅ :=
  AbstractObject.denote_of_isEmpty (fun hx hx' => h.value.isEmpty hx (Except.ok.inj hx')) hv hempty

/-- A plain region that is said to denote everything does. -/
theorem areas_full {x : Storage R} (hx : ι.trustsStorage x) (hfull : x.isFull edge = true) :
    ι.areas x = Set.univ := by
  cases x with
  | result f => cases hfull
  | leaf r => exact h.region.isFull hx hfull

/-- A plain region that is said to denote nothing does. -/
theorem areas_empty {x : Storage R} (hx : ι.trustsStorage x) (hempty : x.isEmpty edge = true) :
    ι.areas x = ∅ := by
  cases x with
  | result f => cases hempty
  | leaf r => exact h.region.isEmpty hx hempty

/-- A region that is said to denote everything does. -/
theorem regions_full {r : MemRegion R} (hr : r.Consists ι.trustsStorage)
    (hfull : r.isFull (MemRegion.comparison (m := Except Fault) edge) = .ok true) :
    r.denote ι.areas = Set.univ :=
  AbstractObject.denote_of_isFull (fun hx hx' => h.areas_full hx (Except.ok.inj hx')) hr hfull

/-- A region that is said to denote nothing does. -/
theorem regions_empty {r : MemRegion R} (hr : r.Consists ι.trustsStorage)
    (hempty : r.isEmpty (MemRegion.comparison (m := Except Fault) edge) = .ok true) :
    r.denote ι.areas = ∅ :=
  AbstractObject.denote_of_isEmpty (fun hx hx' => h.areas_empty hx (Except.ok.inj hx')) hr hempty

variable {arbiter : Arbiter (Except Fault) V R} (harbiter : ι.Honest arbiter) {s : Slot V R}
  (hs : s.Consists ι.trustsStorage ι.trustsValue)

include harbiter hs

/-- A slot that is said to denote everything does. -/
theorem locations_full (hfull : s.isFull arbiter edge = .ok true) : ι.locations s = Set.univ := by
  obtain ⟨hregion, hindex⟩ := both_of_ok hfull
  have hareas : s.region.denote ι.areas = Set.univ :=
    harbiter.denote_of_full .memRegion (h.regions_full hs.region) hregion
  have hdata : ι.indexes s.index = Set.univ := by
    cases hi : s.index with
    | none => rfl
    | some i =>
        rw [hi] at hindex
        exact harbiter.denote_of_full .value (h.data_full (hs.index i hi)) hindex
  rw [locations, hareas, hdata, Set.univ_prod_univ]

/-- A slot that is said to denote nothing does. -/
theorem locations_empty (hempty : s.isEmpty arbiter edge = .ok true) : ι.locations s = ∅ := by
  obtain ⟨answer, hregion, hindex⟩ := bind_eq_ok hempty
  cases answer with
  | true =>
      have hareas : s.region.denote ι.areas = ∅ :=
        harbiter.denote_of_empty .memRegion (h.regions_empty hs.region) hregion
      rw [locations, hareas, Set.empty_prod]
  | false =>
      cases hi : s.index with
      | none =>
          rw [hi] at hindex
          cases hindex
      | some i =>
          rw [hi] at hindex
          have hdata : i.denote ι.value = ∅ :=
            harbiter.denote_of_empty .value (h.data_empty (hs.index i hi)) hindex
          rw [locations, hi, indexes, hdata, Set.prod_empty]

end Bounding

section Inclusion

variable (h : ι.Inclusive edge)

include h

/-- A plain region that is said to be a part of another one is. -/
theorem Inclusive.areas_subset {x y : Storage R} (hx : ι.trustsStorage x) (hy : ι.trustsStorage y)
    (hsub : x.subSet edge y = true) : ι.areas x ⊆ ι.areas y := by
  cases hrelation : x.resultRelation edge y with
  | some answer =>
      simp only [Storage.subSet, hrelation] at hsub
      rw [hsub] at hrelation
      rw [Storage.eq_of_resultRelation hrelation]
  | none =>
      cases x with
      | result f =>
          cases y <;> simp only [Storage.subSet, hrelation] at hsub
          · cases hsub
          · exact (Set.subset_univ _).trans (h.region.isFull hy hsub).ge
      | leaf r =>
          cases y <;> simp only [Storage.subSet, hrelation] at hsub
          · exact (h.region.isEmpty hx hsub).trans_subset (Set.empty_subset _)
          · exact h.region.subSet hx hy hsub

variable {s t : Slot V R}

/-- A slot is a part of another one if it is said to be and this is right about their regions and
indexes. -/
theorem Inclusive.locations_subset (ht : t.Consists ι.trustsStorage ι.trustsValue)
    (hparts : s.Related
      (fun r r' => r.subSet (MemRegion.comparison (m := Except Fault) edge) r' = .ok true →
        r.denote ι.areas ⊆ r'.denote ι.areas)
      (fun i j => i.subSet (Value.comparison (m := Except Fault) edge) j = .ok true →
        i.denote ι.value ⊆ j.denote ι.value) t)
    (hsub : Slot.subSet (m := Except Fault) .silent edge s t = .ok true) :
    ι.locations s ⊆ ι.locations t := by
  obtain ⟨hregion, hindex⟩ := both_of_ok hsub
  rw [Slot.relateRegions_silent (by simp)] at hregion
  refine Set.prod_mono (hparts.region hregion) ?_
  cases hi : s.index <;> cases hj : t.index <;> simp only [hi, hj] at hindex
  · exact Set.subset_univ _
  · next j =>
      exact (h.bounding.data_full (ht.index j hj) hindex).ge
  · exact Set.subset_univ _
  · next i j =>
      rw [Slot.relateIndexes_silent (by simp)] at hindex
      exact hparts.index i j hi hj hindex

end Inclusion

section Storage

variable (h : ι.Sound edge) {x y : Storage R} (hx : ι.trustsStorage x) (hy : ι.trustsStorage y)

include h hx hy

/-- Plain regions that are said to denote the same set do. -/
theorem Sound.areas_eq (heq : x.equalSet edge y = true) : ι.areas x = ι.areas y := by
  rcases Storage.result_or_leaves heq with ⟨f, rfl, rfl⟩ | ⟨r, t, rfl, rfl, hleaves⟩
  · rfl
  · exact h.region.equalSet hx hy hleaves

/-- A plain region is narrowed to another one. -/
theorem Sound.narrows_areas :
    Narrows (ι.areas x) (ι.areas y) ((x.meet edge y).object.denote ι.areas)
      (x.meet edge y).changed := by
  cases hrelation : x.resultRelation edge y with
  | some answer =>
      cases answer <;> simp only [Storage.meet, hrelation]
      · exact .nothing (h.apart.disjoint_areas hx hy hrelation)
      · exact .rfl
  | none =>
      cases x with
      | result f =>
          cases y <;> simp only [Storage.meet, hrelation]
          · exact .rfl
          · next r =>
              split
              · next hempty =>
                  have hnone : ι.areas (.leaf r) = ∅ := h.region.isEmpty hy hempty
                  rw [hnone]
                  exact .nothing (Set.disjoint_empty _)
              · exact .rfl
      | leaf r =>
          cases y <;> simp only [Storage.meet, hrelation]
          · split
            · next hfull =>
                have hall : ι.areas (.leaf r) = Set.univ := h.region.isFull hx hfull
                rw [hall]
                exact .everything
            · exact .rfl
          · exact h.region.meet hx hy

end Storage

/-- What plain regions say about each other is right. -/
theorem Sound.regions (h : ι.Sound edge) :
    (MemRegion.comparison (m := Except Fault) edge).Sound ι.areas ι.trustsStorage where
  equalSet hx hy heq := h.areas_eq hx hy (Except.ok.inj heq)
  subSet hx hy hsub := h.inclusive.areas_subset hx hy (Except.ok.inj hsub)
  meet hx hy hmeet := by
    cases hmeet
    exact h.narrows_areas hx hy
  isFull hx hfull := h.inclusive.bounding.areas_full hx (Except.ok.inj hfull)
  isEmpty hx hempty := h.inclusive.bounding.areas_empty hx (Except.ok.inj hempty)

/-- The region and the index of a slot are conjunctions. -/
structure Conjunctive (ι : Interpretation V R) (s : Slot V R) : Prop where
  region : Conjunction ι.trustsStorage s.region
  index : ∀ i, s.index = some i → Conjunction ι.trustsValue i

omit [ValueDomain V] [RegionDomain V R] in
/-- The plain parts of a slot made of conjunctions are shaped as theirs are. -/
theorem Conjunctive.consists {s : Slot V R} (hs : ι.Conjunctive s) :
    s.Consists ι.trustsStorage ι.trustsValue :=
  ⟨hs.region.consists, fun i hi => (hs.index i hi).consists⟩

section Slots

variable (h : ι.Sound edge) {s t : Slot V R} (hs : ι.Conjunctive s) (ht : ι.Conjunctive t)

include h hs ht

/-- Slots that are said to denote the same set do. -/
theorem Sound.locations_eq (heq : Slot.equalSet (m := Except Fault) .silent edge s t = .ok true) :
    ι.locations s = ι.locations t := by
  obtain ⟨hregion, hindex⟩ := both_of_ok heq
  rw [Slot.relateRegions_silent (by simp)] at hregion
  have hareas := hs.region.denote_of_equalSet h.regions ht.region hregion
  have hdata : ι.indexes s.index = ι.indexes t.index := by
    cases hi : s.index <;> cases hj : t.index <;> simp only [hi, hj] at hindex
    · rfl
    · cases hindex
    · cases hindex
    · next i j =>
        rw [Slot.relateIndexes_silent (by simp)] at hindex
        exact (hs.index i hi).denote_of_equalSet h.values (ht.index j hj) hindex
  rw [locations, locations, hareas, hdata]

/-- A slot that is said to be a part of another one is. -/
theorem Sound.locations_subset
    (hsub : Slot.subSet (m := Except Fault) .silent edge s t = .ok true) :
    ι.locations s ⊆ ι.locations t :=
  h.inclusive.locations_subset ht.consists
    ⟨hs.region.subset_of_subSet h.regions ht.region,
      fun i j hi hj => (hs.index i hi).subset_of_subSet h.values (ht.index j hj)⟩ hsub

/-- A slot is narrowed to another one. -/
theorem Sound.narrows_locations {met : Met (Slot V R)}
    (hmeet : Slot.meet (m := Except Fault) .silent edge s t = .ok met) :
    Narrows (ι.locations s) (ι.locations t) (ι.locations met.object) met.changed := by
  obtain ⟨region, hregion, hindex⟩ := bind_eq_ok hmeet
  have hareas := hs.region.narrows_of_meet h.regions ht.region hregion
  rw [locations, locations]
  cases hj : t.index with
  | none =>
      have hkept : Narrows (ι.indexes s.index) (ι.indexes none) (ι.indexes s.index) false := .rfl
      simp only [hj] at hindex
      cases hindex
      have hboth := hareas.prod hkept
      rw [Bool.or_false] at hboth
      exact hboth
  | some j =>
      cases hi : s.index with
      | none =>
          have htaken : Narrows (ι.indexes none) (ι.indexes (some j)) (ι.indexes (some j)) true :=
            .everything
          simp only [hi, hj] at hindex
          cases hindex
          exact (hareas.prod htaken).reported
      | some i =>
          simp only [hi, hj] at hindex
          obtain ⟨index, hvalue, hpure⟩ := bind_eq_ok hindex
          cases hpure
          have hdata := (hs.index i hi).narrows_of_meet h.values (ht.index j hj) hvalue
          exact hareas.prod hdata

end Slots

omit [ValueDomain V] [RegionDomain V R] in
/-- A slot in a plain region relies on it. -/
theorem Conjunctive.trusts {s : Slot V R} (hs : ι.Conjunctive s) {y : Storage R}
    (hy : s.region = .plain y) : ι.trustsStorage y := by
  have hregion := hs.region
  rw [hy] at hregion
  cases hregion with
  | plain htrusts => exact htrusts

/-- A plain location is narrowed to another one. -/
theorem Sound.narrows_cells (h : ι.Sound edge) {x y : Cell V R} (hx : ι.Conjunctive x.toSlot)
    (hy : ι.Conjunctive y.toSlot) {met : Met (MemLoc V R)}
    (hmeet : Cell.meet (m := Except Fault) .silent edge x y = .ok met) :
    Narrows (ι.locations x.toSlot) (ι.locations y.toSlot)
      (met.object.denote (ι.plain .memLoc)) met.changed := by
  rw [Cell.meet] at hmeet
  split at hmeet
  · cases hmeet
    exact .rfl
  · next hapart =>
      cases hmeet
      refine .nothing (h.apart.disjoint_locations (fun hv hw => ?_) hapart)
      exact ⟨hx.trusts hv, hy.trusts hw⟩
  · obtain ⟨slot, hslot, hpure⟩ := bind_eq_ok hmeet
    have hslots := h.narrows_locations hx hy hslot
    split at hpure
    · cases hpure
      exact .rfl
    · cases hpure
      exact hslots

/-- What plain locations say about each other is right. -/
theorem Sound.locs (h : ι.Sound edge) :
    (MemLoc.comparison (.silent : Arbiter (Except Fault) V R) edge).Sound (ι.plain .memLoc)
      fun cell => ι.Conjunctive cell.toSlot where
  equalSet hx hy heq := by
    obtain rfl | hslots := Cell.eq_or_of_relate heq
    · rfl
    · exact h.locations_eq hx hy hslots
  subSet hx hy hsub := by
    obtain rfl | hslots := Cell.eq_or_of_relate hsub
    · exact subset_rfl
    · exact h.locations_subset hx hy hslots
  meet hx hy hmeet := h.narrows_cells hx hy hmeet
  isFull {x} hx hfull := by
    cases x with
    | result f => cases hfull
    | slot s => exact h.inclusive.bounding.locations_full (.silent ι) hx.consists hfull
  isEmpty {x} hx hempty := by
    cases x with
    | result f => cases hempty
    | slot s => exact h.inclusive.bounding.locations_empty (.silent ι) hx.consists hempty

/-- Plain objects whose parts are conjunctions of leaves on whose answers one relies. -/
def shaped (ι : Interpretation V R) : (family : Family) → Plain V R family → Prop
  | .value => ι.trustsValue
  | .codeLoc => fun _ => True
  | .memRegion => ι.trustsStorage
  | .memLoc => fun cell => ι.Conjunctive cell.toSlot

/-- What the plain objects of each family say about each other is right. -/
theorem Sound.family (h : ι.Sound edge) (family : Family) :
    (family.own edge).Sound (ι.plain family) (ι.shaped family) := by
  cases family with
  | value => exact h.values
  | codeLoc => exact CodeLoc.sound
  | memRegion => exact h.regions
  | memLoc => exact h.locs

/-- Conjunctions of every family compare and meet as the sets that they denote, whether they are
asked themselves or through an arbiter who answers nothing. -/
theorem Sound.conjunctions_compare (h : ι.Sound edge) {family : Family} {a b : Object V R family}
    (ha : Conjunction (ι.shaped family) a) (hb : Conjunction (ι.shaped family) b) :
    (a.equalSet (family.own edge) b = .ok true ∨
        AnyObject.relate (m := Except Fault) .silent edge .equalSet ⟨family, a⟩ ⟨family, b⟩ =
          .ok true →
      ι.denote a = ι.denote b) ∧
    (a.subSet (family.own edge) b = .ok true ∨
        AnyObject.relate (m := Except Fault) .silent edge .subSet ⟨family, a⟩ ⟨family, b⟩ =
          .ok true →
      ι.denote a ⊆ ι.denote b) ∧
    ∀ met, a.meet (family.own edge) b = .ok met ∨
        AnyObject.meet (m := Except Fault) .silent edge ⟨family, a⟩ ⟨family, b⟩ =
          .ok ⟨⟨family, met.object⟩, met.changed⟩ →
      Narrows (ι.denote a) (ι.denote b) (ι.denote met.object) met.changed := by
  have hown := h.family family
  refine ⟨fun heq => ?_, fun hsub => ?_, fun met hmeet => ?_⟩
  · rw [AnyObject.relate_silent (by simp)] at heq
    exact ha.denote_of_equalSet hown hb (or_self_iff.1 heq)
  · rw [AnyObject.relate_silent (by simp)] at hsub
    exact ha.subset_of_subSet hown hb (or_self_iff.1 hsub)
  · obtain ⟨object, changed⟩ := met
    rw [AnyObject.meet_silent] at hmeet
    have htyped : a.meet (family.own edge) b = .ok ⟨object, changed⟩ := by
      rcases hmeet with hmeet | hmeet
      · exact hmeet
      · obtain ⟨⟨_, _⟩, hmet, hpure⟩ := bind_eq_ok hmeet
        cases hpure
        exact hmet
    exact ha.narrows_of_meet hown hb htyped

/-- A location at one index of one placed region, as composers put such locations together. -/
def placed (place : Flat String) (index : Flat Int64) :
    Object ValueLeaf RegionLeaf .memLoc :=
  .combined .intersect
    [.full, .plain (.slot ⟨.combined .intersect [.plain (.leaf (.placed place true none))],
      some (.combined .intersect [.plain (.flat index none)])⟩)]

/-- Such a location is a conjunction. -/
theorem placed_conjunction (place : Flat String) (index : Flat Int64) :
    Conjunction (flat.shaped .memLoc) (placed place index) := by
  have hslot : flat.Conjunctive ⟨.combined .intersect [.plain (.leaf (.placed place true none))],
      some (.combined .intersect [.plain (.flat index none)])⟩ := by
    refine ⟨.intersect (by simp) ?_, ?_⟩
    · simpa using Conjunction.plain trivial
    · rintro _ ⟨⟩
      exact .intersect (by simp) (by simpa using Conjunction.plain trivial)
  refine .intersect (by simp) ?_
  simpa using ⟨Conjunction.full, Conjunction.plain hslot⟩

/-- A slot of the heap is a part of the whole heap, and the heap is narrowed to the slot. -/
theorem slot_of_heap :
    flat.denote (placed (.exactly "heap") (.exactly 3)) ⊆
        flat.denote (placed (.exactly "heap") .top) ∧
    ∃ met : Met (Object ValueLeaf RegionLeaf .memLoc),
      (placed (.exactly "heap") .top).meet (Family.own .memLoc ⟨0⟩)
        (placed (.exactly "heap") (.exactly 3)) = .ok met ∧ met.changed = true ∧
      Narrows (flat.denote (placed (.exactly "heap") .top))
        (flat.denote (placed (.exactly "heap") (.exactly 3))) (flat.denote met.object)
        met.changed := by
  have hslot := placed_conjunction (.exactly "heap") (.exactly 3)
  have hheap := placed_conjunction (.exactly "heap") .top
  exact ⟨((flat_sound ⟨0⟩).conjunctions_compare hslot hheap).2.1 (.inl rfl), _, rfl, rfl,
    ((flat_sound ⟨0⟩).conjunctions_compare hheap hslot).2.2 _ (.inl rfl)⟩

end Interpretation

end JointAnalysis
