import JointAnalysis.Proofs.Overlap
import JointAnalysis.Proofs.SetSemantics

/-!
# When an inclusion is granted

A union is said to be a part of another object as soon as one of its children is. Whether an
inclusion may be granted on such grounds depends on the modes and on the number of children: read
`Includable` first. Where all combinations that are granted an inclusion are includable, what is
said to be a part is one, in every family; so all children of a union are parts of what the union is
said to be a part of. Where they are not, an inclusion of everything in nothing can be granted.
-/

namespace JointAnalysis

variable {α E V R : Type}

/-- The modes and numbers of children for which the children that decide an inclusion decide it
rightly. One child of a union says nothing about the others, and an intersection of nothing denotes
everything, which no children have to be parts of. The second mode is that of the other combination;
a plain object counts as a union. -/
def Includable : Mode → Nat → Mode → Prop
  | .union, n, _ => n ≤ 1
  | .intersect, n, .union => n ≠ 0
  | .intersect, _, .intersect => True

/-- Wherever a combination is granted to be a part when two objects are compared, it is includable,
and the plain objects that are granted to be parts fit. -/
inductive Nested (c : Comparison (Except Fault) α) (fit : α → α → Prop) :
    AbstractObject α → AbstractObject α → Prop where
  | denied {a b : AbstractObject α} (h : a.subSet c b ≠ .ok true) : Nested c fit a b
  | empty_left {b : AbstractObject α} : Nested c fit .empty b
  | empty_right {a : AbstractObject α} : Nested c fit a .empty
  | full_left {b : AbstractObject α} : Nested c fit .full b
  | full_right {a : AbstractObject α} : Nested c fit a .full
  | plain {x y : α} (h : fit x y) : Nested c fit (.plain x) (.plain y)
  | combined_plain {mode : Mode} {children : List (AbstractObject α)} {y : α}
      (shape : Includable mode children.length .union)
      (each : ∀ o ∈ children, Nested c fit o (.plain y)) :
      Nested c fit (.combined mode children) (.plain y)
  | plain_combined {mode : Mode} {children : List (AbstractObject α)} {x : α}
      (each : ∀ o ∈ children, Nested c fit (.plain x) o) :
      Nested c fit (.plain x) (.combined mode children)
  | combined {mode mode' : Mode} {as bs : List (AbstractObject α)}
      (shape : Includable mode as.length mode') (pairs : ∀ p ∈ as.zip bs, Nested c fit p.1 p.2) :
      Nested c fit (.combined mode as) (.combined mode' bs)

/-- What a family says about parts and bounds of plain objects is right about the sets that they
denote. -/
structure Comparison.Inclusive (c : Comparison (Except Fault) α) (plain : α → Set E) (P : α → Prop)
    (fit : α → α → Prop) : Prop where
  subSet : ∀ {x y}, fit x y → P x → P y → c.subSet x y = .ok true → plain x ⊆ plain y
  isFull : ∀ {x}, P x → c.isFull x = .ok true → plain x = Set.univ
  isEmpty : ∀ {x}, P x → c.isEmpty x = .ok true → plain x = ∅

namespace Nested

open AbstractObject

variable {c : Comparison (Except Fault) α} {fit : α → α → Prop} {plain : α → Set E} {P : α → Prop}

/-- If the children that are granted to be parts of something are, so is an includable combination
that is granted it on their account. -/
theorem subset_of_firstHit {mode : Mode} {children : List (AbstractObject α)} {S : Set E}
    {ask : AbstractObject α → Except Fault Bool} (hshape : Includable mode children.length .union)
    (heach : ∀ o ∈ children, ask o = .ok true → o.denote plain ⊆ S)
    (h : firstHit mode.isUnion (children.map ask) = .ok true) :
    denote plain (.combined mode children) ⊆ S := by
  cases mode with
  | union =>
      obtain ⟨o, ho, hask⟩ := List.mem_map.1 (exists_of_firstHit h)
      exact (denote_combined_subset plain ho fun _ => hshape).trans (heach o ho hask)
  | intersect =>
      obtain ⟨o, ho⟩ := List.exists_mem_of_length_pos (Nat.pos_of_ne_zero hshape)
      have hask : ask o = .ok true := forall_of_firstHit h _ (List.mem_map_of_mem ho)
      exact (denote_intersect_subset plain ho).trans (heach o ho hask)

/-- If something is a part of the children of which this is granted, it is a part of a combination
of which this is granted on their account. -/
theorem superset_of_firstHit {mode : Mode} {children : List (AbstractObject α)} {S : Set E}
    {ask : AbstractObject α → Except Fault Bool}
    (heach : ∀ o ∈ children, ask o = .ok true → S ⊆ o.denote plain)
    (h : firstHit mode.isUnion (children.map ask) = .ok true) :
    S ⊆ denote plain (.combined mode children) := by
  cases mode with
  | union =>
      obtain ⟨o, ho, hask⟩ := List.mem_map.1 (exists_of_firstHit h)
      exact (heach o ho hask).trans (subset_denote_combined plain ho (by simp))
  | intersect =>
      refine subset_denote_intersect plain fun o ho => heach o ho ?_
      exact forall_of_firstHit h _ (List.mem_map_of_mem ho)

/-- An includable combination that is granted to be a part of another one is, if this is so for the
children at each position. -/
theorem subset_combined {mode mode' : Mode} {as bs : List (AbstractObject α)}
    (hshape : Includable mode as.length mode')
    (hpairs : ∀ p ∈ as.zip bs, p.1.subSet c p.2 = .ok true → p.1.denote plain ⊆ p.2.denote plain)
    (h : subSet c (.combined mode as) (.combined mode' bs) = .ok true) :
    denote plain (.combined mode as) ⊆ denote plain (.combined mode' bs) := by
  rw [subSet, subSetPairs_eq] at h
  split at h
  · next hlength =>
      cases mode with
      | union =>
          obtain ⟨p, hp, hgranted⟩ := exists_pair_of_firstHit h
          obtain ⟨hfirst, hsecond⟩ := List.of_mem_zip hp
          have hsingle : as.length ≤ 1 := hshape
          calc denote plain (.combined .union as)
              ⊆ p.1.denote plain := denote_combined_subset plain hfirst fun _ => hsingle
            _ ⊆ p.2.denote plain := hpairs p hp hgranted
            _ ⊆ denote plain (.combined mode' bs) :=
                subset_denote_combined plain hsecond fun _ => hlength ▸ hsingle
      | intersect =>
          have hgranted : ∀ p ∈ as.zip bs, p.1.denote plain ⊆ p.2.denote plain := fun p hp =>
            hpairs p hp (forall_pair_of_firstHit h p hp)
          cases mode' with
          | union =>
              have hsome : 0 < (as.zip bs).length := by
                have hne : as.length ≠ 0 := hshape
                rw [List.length_zip]
                omega
              obtain ⟨p, hp⟩ := List.exists_mem_of_length_pos hsome
              obtain ⟨hfirst, hsecond⟩ := List.of_mem_zip hp
              calc denote plain (.combined .intersect as)
                  ⊆ p.1.denote plain := denote_intersect_subset plain hfirst
                _ ⊆ p.2.denote plain := hgranted p hp
                _ ⊆ denote plain (.combined .union bs) :=
                    subset_denote_combined plain hsecond (by simp)
          | intersect =>
              rw [(denote_intersect_zip plain hlength).1, (denote_intersect_zip plain hlength).2]
              exact common_mono hgranted
  · cases h

/-- What is said to be a part is one, for nested objects, if this is so for the plain objects that
fit. -/
theorem subset_of_subSet {a b : AbstractObject α} (hc : c.Inclusive plain P fit)
    (hab : Nested c fit a b) (ha : a.Consists P) (hb : b.Consists P)
    (h : a.subSet c b = .ok true) : a.denote plain ⊆ b.denote plain := by
  induction hab with
  | denied hdenied => exact absurd h hdenied
  | empty_left => exact Set.empty_subset _
  | empty_right =>
      rw [subSet_empty_right] at h
      exact (denote_of_isEmpty hc.isEmpty ha h).le
  | full_left =>
      rw [subSet_full_left] at h
      exact (denote_of_isFull hc.isFull hb h).ge
  | full_right => exact Set.subset_univ _
  | plain hfit => exact hc.subSet hfit (consists_plain.1 ha) (consists_plain.1 hb) h
  | combined_plain hshape _ ih =>
      rw [subSet_plain, subSetPlain, fold_combined] at h
      refine subset_of_firstHit hshape (fun o ho hgranted => ?_) h
      refine ih o ho (consists_combined.1 ha o ho) hb ?_
      rw [subSet_plain]
      exact hgranted
  | plain_combined _ ih =>
      rw [subSet_of_plain, superSetPlain, fold_combined] at h
      refine superset_of_firstHit (fun o ho hgranted => ?_) h
      refine ih o ho ha (consists_combined.1 hb o ho) ?_
      rw [subSet_of_plain]
      exact hgranted
  | combined hshape _ ih =>
      refine subset_combined hshape (fun p hp => ?_) h
      obtain ⟨hfirst, hsecond⟩ := List.of_mem_zip hp
      exact ih p hp (consists_combined.1 ha _ hfirst) (consists_combined.1 hb _ hsecond)

variable (c plain) in
/-- Every shape that is not includable is that of combinations of which one denotes everything and
is granted to be a part of the other one, which denotes nothing, and of every plain object. -/
theorem exists_granted {mode mode' : Mode} {n : Nat} (h : ¬Includable mode n mode') :
    ∃ as bs : List (AbstractObject α), as.length = n ∧ bs.length = n ∧
      denote plain (.combined mode as) = Set.univ ∧ denote plain (.combined mode' bs) = ∅ ∧
      subSet c (.combined mode as) (.combined mode' bs) = .ok true ∧
      ∀ y, subSet c (.combined mode as) (.plain y) = .ok true := by
  cases mode with
  | union =>
      have hmany : 1 < n := not_le.1 h
      obtain ⟨k, rfl⟩ : ∃ k, n = k + 2 := ⟨n - 2, by omega⟩
      -- The first child is empty and decides alone.
      refine ⟨.empty :: .replicate (k + 1) .full, .empty :: .replicate (k + 1) .empty, by simp,
        by simp, denote_union_of_full (by simp), ?_, ?_, fun y => rfl⟩
      · refine Set.subset_empty_iff.1 ?_
        cases mode' with
        | union =>
            intro e he
            obtain ⟨o, ho, hmem⟩ := (mem_denote_union plain).1 he
            rwa [List.eq_of_mem_replicate (n := k + 2) ho] at hmem
        | intersect => exact denote_intersect_subset plain List.mem_cons_self
      · rw [AbstractObject.subSet, if_pos (by simp)]
        rfl
  | intersect =>
      cases mode' with
      | union =>
          obtain rfl : n = 0 := not_not.1 h
          exact ⟨[], [], rfl, rfl, denote_intersect_nil _, denote_union_nil, rfl, fun y => rfl⟩
      | intersect => exact absurd trivial h

end Nested

/-- The regions and the indexes in two plain objects are nested at an edge. -/
def Family.NestedParts [ValueDomain V] [RegionDomain V R] (edge : EdgeId) (family : Family) :
    Plain V R family → Plain V R family → Prop :=
  Plain.Related (Nested (MemRegion.comparison edge) fun _ _ => True)
    (Nested (Value.comparison edge) fun _ _ => True) family

namespace Interpretation

variable [ValueDomain V] [RegionDomain V R] {ι : Interpretation V R} {edge : EdgeId}

/-- The plain objects of each family on whose leaves one relies. -/
def relies (ι : Interpretation V R) (family : Family) : Plain V R family → Prop :=
  Plain.Consists ι.trustsStorage ι.trustsValue family

namespace Inclusive

variable (h : ι.Inclusive edge)

include h

/-- What the leaves of values say about parts and bounds is right. -/
theorem values :
    (Value.comparison (m := Except Fault) edge).Inclusive ι.value ι.trustsValue
      fun _ _ => True where
  subSet _ hx hy hsub := h.value.subSet hx hy (Except.ok.inj hsub)
  isFull hx hfull := h.value.isFull hx (Except.ok.inj hfull)
  isEmpty hx hempty := h.value.isEmpty hx (Except.ok.inj hempty)

/-- What plain regions say about parts and bounds is right. -/
theorem regions :
    (MemRegion.comparison (m := Except Fault) edge).Inclusive ι.areas ι.trustsStorage
      fun _ _ => True where
  subSet _ hx hy hsub := h.areas_subset hx hy (Except.ok.inj hsub)
  isFull hx hfull := h.bounding.areas_full hx (Except.ok.inj hfull)
  isEmpty hx hempty := h.bounding.areas_empty hx (Except.ok.inj hempty)

/-- What plain locations say about parts and bounds is right, if their parts are nested. -/
theorem locs :
    (MemLoc.comparison (.silent : Arbiter (Except Fault) V R) edge).Inclusive (ι.plain .memLoc)
      (ι.relies .memLoc) (Family.NestedParts edge .memLoc) where
  subSet {x y} hxy hx hy hsub := by
    obtain rfl | hslots := Cell.eq_or_of_relate hsub
    · exact subset_rfl
    · refine h.locations_subset hy ⟨fun hregion => ?_, fun i j hi hj hindex => ?_⟩ hslots
      · exact hxy.region.subset_of_subSet h.regions hx.region hy.region hregion
      · exact (hxy.index i j hi hj).subset_of_subSet h.values (hx.index i hi) (hy.index j hj) hindex
  isFull {x} hx hfull := by
    cases x with
    | result f => cases hfull
    | slot s => exact h.bounding.locations_full (.silent ι) hx hfull
  isEmpty {x} hx hempty := by
    cases x with
    | result f => cases hempty
    | slot s => exact h.bounding.locations_empty (.silent ι) hx hempty

/-- What the plain objects of each family say about parts and bounds is right. -/
theorem family (family : Family) :
    (family.own edge).Inclusive (ι.plain family) (ι.relies family) (family.NestedParts edge) := by
  cases family with
  | value => exact h.values
  | codeLoc =>
      exact ⟨fun _ => CodeLoc.sound.subSet, CodeLoc.sound.isFull, CodeLoc.sound.isEmpty⟩
  | memRegion => exact h.regions
  | memLoc => exact h.locs

/-- All children of a union of any family are parts of what the union is said to be a part of, if
the two are nested, whether they are asked themselves or through an arbiter who answers nothing.
Nothing follows for combinations that are not includable: for each such shape there is one that
denotes everything and is granted to be a part of a combination that denotes nothing, and of every
plain object. -/
theorem union_within (family : Family) :
    (∀ {us : List (Object V R family)} {x : Object V R family},
      AbstractObject.Consists (ι.relies family) (.combined .union us) →
      x.Consists (ι.relies family) →
      Nested (family.own edge) (family.NestedParts edge) (.combined .union us) x →
      AbstractObject.subSet (family.own edge) (.combined .union us) x = .ok true ∨
        AnyObject.relate (m := Except Fault) .silent edge .subSet ⟨family, .combined .union us⟩
          ⟨family, x⟩ = .ok true →
      ∀ child ∈ us, ι.denote child ⊆ ι.denote x) ∧
    ∀ {mode mode' : Mode} {n : Nat}, ¬Includable mode n mode' →
      ∃ as bs : List (Object V R family), as.length = n ∧ bs.length = n ∧
        ι.denote (.combined mode as : Object V R family) = Set.univ ∧
        ι.denote (.combined mode' bs : Object V R family) = ∅ ∧
        AbstractObject.subSet (family.own edge) (.combined mode as) (.combined mode' bs) =
          .ok true ∧
        ∀ y, AbstractObject.subSet (family.own edge) (.combined mode as) (.plain y) = .ok true := by
  refine ⟨fun {us x} hus hx hnested hsub child hchild => ?_, fun hshape => ?_⟩
  · rw [AnyObject.relate_silent (by simp)] at hsub
    exact (AbstractObject.subset_denote_combined _ hchild (by simp)).trans
      (hnested.subset_of_subSet (h.family family) hus hx (or_self_iff.1 hsub))
  · exact Nested.exists_granted _ _ hshape

end Inclusive

/-- A union of two constants is said to be a part of the first. -/
example : (constants .union [1, 2]).subSet (Family.own .value ⟨0⟩) (Value.constant 1) = .ok true :=
  rfl

/-- Locations of one placed region at different indexes are nested. -/
theorem placed_nested (place : Flat String) (i j : Flat Int64) :
    Nested (Family.own .memLoc ⟨0⟩) (Family.NestedParts ⟨0⟩ .memLoc) (placed place i)
      (placed place j) := by
  have hsingle : ∀ {α : Type} {c : Comparison (Except Fault) α} {x y : α},
      Nested c (fun _ _ => True) (.combined .intersect [.plain x])
        (.combined .intersect [.plain y]) :=
    .combined trivial (List.forall_mem_singleton.2 (.plain trivial))
  refine .combined trivial (List.forall_mem_cons.2 ⟨.full_left, List.forall_mem_singleton.2 ?_⟩)
  refine .plain ⟨hsingle, ?_⟩
  rintro _ _ ⟨⟩ ⟨⟩
  exact hsingle

/-- A union of one slot of the heap is within the whole heap. -/
theorem heap_slot_within :
    AbstractObject.subSet (Family.own .memLoc ⟨0⟩)
        (.combined .union [placed (.exactly "heap") (.exactly 3)])
        (.combined .intersect [placed (.exactly "heap") .top]) = .ok true ∧
      ∀ child ∈ [placed (.exactly "heap") (.exactly 3)],
        flat.denote child ⊆ flat.denote
          (.combined .intersect [placed (.exactly "heap") .top] :
            Object ValueLeaf RegionLeaf .memLoc) := by
  have hrelies : ∀ index, (placed (.exactly "heap") index).Consists (flat.relies .memLoc) :=
    fun index => (placed_conjunction _ index).consists.imp fun _ hslot => hslot.consists
  refine ⟨rfl, ((flat_sound ⟨0⟩).inclusive.union_within .memLoc).1 ?_ ?_ ?_ (.inl rfl)⟩
  · exact .combined (List.forall_mem_singleton.2 (hrelies _))
  · exact .combined (List.forall_mem_singleton.2 (hrelies _))
  · exact .combined Nat.le.refl (List.forall_mem_singleton.2 (placed_nested _ _ _))

end Interpretation

end JointAnalysis
