import JointAnalysis.Proofs.Inclusion

/-!
# What is said to be full or empty

An object that is said to be full denotes everything, and one that is said to be empty denotes
nothing, if this is so for the leaves of which it is made. It holds in every family and for
combinations of either mode with any number of children; an intersection of nothing is full and a
union of nothing is empty. Locations ask for the bounds of their regions and indexes through an
arbiter, whose own answers have to be right too.

The size of a region denotes the size of every area that the region denotes, if this is so for its
leaves.
-/

namespace JointAnalysis

variable {V R : Type}

namespace Interpretation

variable {ι : Interpretation V R}

/-- Every family has entities if there are data and areas. -/
theorem nonempty_entity [Nonempty ι.Datum] [Nonempty ι.Area] (family : Family) :
    Nonempty (ι.Entity family) := by
  cases family with
  | value => exact inferInstanceAs (Nonempty ι.Datum)
  | codeLoc => exact ⟨⟨0⟩, ⟨0⟩⟩
  | memRegion => exact inferInstanceAs (Nonempty ι.Area)
  | memLoc => exact inferInstanceAs (Nonempty (ι.Area × ι.Datum))

variable [RegionDomain V R] {edge : EdgeId}

/-- The size that a leaf gives for itself denotes the size of every area that the leaf denotes. -/
def Measures (ι : Interpretation V R) (edge : EdgeId) (measure : ι.Area → ι.Datum) :
    Storage R → Prop
  | .result _ => True
  | .leaf r => ∀ a ∈ ι.region r, measure a ∈ (RegionDomain.size edge r).denote ι.value

/-- The size of a region denotes the size of every area that the region denotes, if this is so for
its leaves. -/
theorem measure_mem_size {measure : ι.Area → ι.Datum} {region : MemRegion R}
    (hregion : region.Consists (ι.Measures edge measure)) {a : ι.Area}
    (ha : a ∈ region.denote ι.areas) :
    measure a ∈ (MemRegion.size edge region).denote ι.value := by
  induction hregion with
  | full => exact Set.mem_univ _
  | empty => cases ha
  | @plain x hx =>
      cases x with
      | result f => exact Set.mem_univ _
      | leaf r => exact hx a ha
  | @combined mode children _ ih =>
      rw [MemRegion.size, AbstractObject.fold_combined]
      cases mode with
      | union =>
          obtain ⟨o, ho, hmem⟩ := (AbstractObject.mem_denote_union _).1 ha
          exact (AbstractObject.mem_denote_union _).2 ⟨_, List.mem_map_of_mem ho, ih o ho hmem⟩
      | intersect =>
          refine (AbstractObject.mem_denote_intersect _).2 (List.forall_mem_map.2 fun o ho => ?_)
          exact ih o ho ((AbstractObject.mem_denote_intersect _).1 ha o ho)

variable [ValueDomain V]

/-- A question about an object is granted, by the object itself or through the arbiter. -/
def Granted (arbiter : Arbiter (Except Fault) V R) (edge : EdgeId) (test : Test) {family : Family}
    (o : Object V R family) : Prop :=
  o.test (family.comparison arbiter edge) test = .ok true ∨
    AnyObject.test arbiter edge test ⟨family, o⟩ = .ok true

namespace Bounding

variable {arbiter : Arbiter (Except Fault) V R} (h : ι.Bounding edge) (harbiter : ι.Honest arbiter)

include h harbiter

/-- A plain object that is said to denote everything does. -/
theorem plain_full (family : Family) {x : Plain V R family} (hx : ι.relies family x)
    (hfull : (family.comparison arbiter edge).isFull x = .ok true) :
    ι.plain family x = Set.univ := by
  cases family with
  | value => exact h.value.isFull hx (Except.ok.inj hfull)
  | codeLoc => exact CodeLoc.sound.isFull trivial hfull
  | memRegion => exact h.areas_full hx (Except.ok.inj hfull)
  | memLoc =>
      cases x with
      | result f => cases hfull
      | slot s => exact h.locations_full harbiter hx hfull

/-- A plain object that is said to denote nothing does. -/
theorem plain_empty (family : Family) {x : Plain V R family} (hx : ι.relies family x)
    (hempty : (family.comparison arbiter edge).isEmpty x = .ok true) :
    ι.plain family x = ∅ := by
  cases family with
  | value => exact h.value.isEmpty hx (Except.ok.inj hempty)
  | codeLoc => cases hempty
  | memRegion => exact h.areas_empty hx (Except.ok.inj hempty)
  | memLoc =>
      cases x with
      | result f => cases hempty
      | slot s => exact h.locations_empty harbiter hx hempty

variable {family : Family} {o : Object V R family} (ho : o.Consists (ι.relies family))

include ho

/-- An object that is granted to be full denotes everything. -/
theorem denote_of_granted_full (hfull : Granted arbiter edge .isFull o) :
    ι.denote o = Set.univ := by
  have hown : o.isFull (family.comparison arbiter edge) = .ok true → ι.denote o = Set.univ :=
    AbstractObject.denote_of_isFull (h.plain_full harbiter family) ho
  exact hfull.elim hown (harbiter.denote_of_full family hown)

/-- An object that is granted to be empty denotes nothing. -/
theorem denote_of_granted_empty (hempty : Granted arbiter edge .isEmpty o) : ι.denote o = ∅ := by
  have hown : o.isEmpty (family.comparison arbiter edge) = .ok true → ι.denote o = ∅ :=
    AbstractObject.denote_of_isEmpty (h.plain_empty harbiter family) ho
  exact hempty.elim hown (harbiter.denote_of_empty family hown)

end Bounding

/-- What is granted to be full denotes everything and what is granted to be empty denotes nothing,
so no object is granted both. The size of a region denotes the size of every area that the region
denotes. One relies on the leaves for their own bounds and sizes, and on the arbiter for what it
answers itself. -/
theorem Bounding.bounds_hold [Nonempty ι.Datum] [Nonempty ι.Area] (h : ι.Bounding edge)
    {arbiter : Arbiter (Except Fault) V R} (harbiter : ι.Honest arbiter) :
    (∀ (family : Family) (o : Object V R family), o.Consists (ι.relies family) →
      (Granted arbiter edge .isFull o → ι.denote o = Set.univ) ∧
      (Granted arbiter edge .isEmpty o → ι.denote o = ∅) ∧
      ¬ (Granted arbiter edge .isFull o ∧ Granted arbiter edge .isEmpty o)) ∧
    ∀ (measure : ι.Area → ι.Datum) (region : MemRegion R),
      region.Consists (ι.Measures edge measure) →
      ∀ a ∈ region.denote ι.areas, measure a ∈ (MemRegion.size edge region).denote ι.value := by
  refine ⟨fun family o ho => ?_, fun measure region hregion a ha => measure_mem_size hregion ha⟩
  refine ⟨h.denote_of_granted_full harbiter ho, h.denote_of_granted_empty harbiter ho, ?_⟩
  rintro ⟨hfull, hempty⟩
  have hboth : (∅ : Set (ι.Entity family)) = Set.univ :=
    (h.denote_of_granted_empty harbiter ho hempty).symm.trans
      (h.denote_of_granted_full harbiter ho hfull)
  have hentity : Nonempty (ι.Entity family) := nonempty_entity family
  exact Set.empty_ne_univ hboth

/-- The place of a result, or any index in what an intersection of nothing denotes. -/
def everyLocation : Object ValueLeaf RegionLeaf .memLoc :=
  .combined .union [.plain (.result ⟨"main"⟩),
    .plain (.slot ⟨.combined .intersect [], some (.combined .union [Value.constant 3, .full])⟩)]

/-- The storage for a result at an index that cannot be. -/
def noLocation : Object ValueLeaf RegionLeaf .memLoc :=
  .combined .intersect [.full,
    .plain (.slot ⟨.plain (.result ⟨"main"⟩), some (.combined .union [Value.impossible])⟩)]

/-- What the heap and everything have in common, or the storage for a result. -/
def heapOrResult : MemRegion RegionLeaf :=
  .combined .union [.combined .intersect [MemRegion.named "heap", .full], .plain (.result ⟨"main"⟩)]

/-- The first location is granted to be full and the second one to be empty, and so they are. Where
all sizes are eight, so is one that is given for the heap. -/
theorem everyLocation_noLocation :
    (Granted .silent ⟨0⟩ .isFull everyLocation ∧ flat.denote everyLocation = Set.univ) ∧
    (Granted .silent ⟨0⟩ .isEmpty noLocation ∧ flat.denote noLocation = ∅) ∧
    .inl "heap" ∈ heapOrResult.denote flat.areas ∧
      (8 : Int64) ∈ (MemRegion.size ⟨0⟩ heapOrResult).denote flat.value := by
  have hdatum : Nonempty flat.Datum := ⟨(0 : Int64)⟩
  have harea : Nonempty flat.Area := ⟨.inl "heap"⟩
  obtain ⟨hbounds, hsizes⟩ :=
    Bounding.bounds_hold (flat_sound ⟨0⟩).inclusive.bounding (Honest.silent flat)
  have hevery : Granted .silent ⟨0⟩ .isFull everyLocation := .inl rfl
  have hno : Granted .silent ⟨0⟩ .isEmpty noLocation := .inl rfl
  have hheap : .inl "heap" ∈ heapOrResult.denote flat.areas := by
    refine (AbstractObject.mem_denote_union _).2 ⟨_, List.mem_cons_self, ?_⟩
    exact (AbstractObject.mem_denote_intersect _).2
      (List.forall_mem_cons.2 ⟨rfl, List.forall_mem_singleton.2 trivial⟩)
  refine ⟨⟨hevery, (hbounds _ _ ?_).1 hevery⟩, ⟨hno, (hbounds _ _ ?_).2.1 hno⟩, hheap,
    hsizes (fun _ => (8 : Int64)) heapOrResult ?_ _ hheap⟩
  · refine .combined (List.forall_mem_cons.2
      ⟨.plain ⟨.plain trivial, nofun⟩, List.forall_mem_singleton.2 (.plain ⟨.combined nofun, ?_⟩)⟩)
    rintro _ ⟨⟩
    exact .combined (List.forall_mem_cons.2 ⟨.plain trivial, List.forall_mem_singleton.2 .full⟩)
  · refine .combined (List.forall_mem_cons.2
      ⟨.full, List.forall_mem_singleton.2 (.plain ⟨.plain trivial, ?_⟩)⟩)
    rintro _ ⟨⟩
    exact .combined (List.forall_mem_singleton.2 (.plain trivial))
  · refine .combined (List.forall_mem_cons.2
      ⟨.combined (List.forall_mem_cons.2 ⟨.plain ?_, List.forall_mem_singleton.2 .full⟩),
        List.forall_mem_singleton.2 (.plain trivial)⟩)
    intro a _
    rfl

end Interpretation

end JointAnalysis
