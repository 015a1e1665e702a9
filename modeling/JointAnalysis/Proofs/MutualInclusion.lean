import JointAnalysis.Proofs.Symmetry

/-!
# Objects that denote the same set are parts of each other

Equality asks all pairs of children and does not look at the modes. Inclusion is settled by one
child of a union and by all children of an intersection. So equality is the stronger of the two, as
long as there is a child to ask: a union without children is no part of another. If it is the
stronger for leaves (`ConsistentLeaves`), it is for the objects of every family.
-/

namespace JointAnalysis

variable {α σ V R : Type}

/-- Combinations of at least one child, of either mode. -/
def HasChildren : Mode → Nat → Prop := fun _ count => count ≠ 0

/-- If two things are said to denote the same set, each is said to be a part of the other. -/
def Coherent (ask : Relation → σ → σ → Except Fault Bool) (a b : σ) : Prop :=
  ask .equalSet a b = .ok true → ask .subSet a b = .ok true ∧ ask .subSet b a = .ok true

/-- What all of at least one child grant is granted, whichever answer decides. -/
theorem firstHit_of_granted {hit : Bool} {l : List σ} {ask : σ → Except Fault Bool}
    (hsome : l.length ≠ 0) (h : ∀ i ∈ l, ask i = .ok true) :
    firstHit hit (l.map ask) = .ok true := by
  cases hit with
  | false =>
      refine firstHit_of_forall fun answer hanswer => ?_
      obtain ⟨i, hi, rfl⟩ := List.mem_map.1 hanswer
      exact h i hi
  | true =>
      cases l with
      | nil => exact absurd rfl hsome
      | cons first rest =>
          rw [List.map_cons, h first List.mem_cons_self]
          rfl

/-- Plain objects with a property that are said to denote the same set are parts of each other. -/
def Comparison.Consistent (c : Comparison (Except Fault) α) (P : α → Prop) : Prop :=
  ∀ x y, P x → P y → Coherent (AbstractObject.relate c) (.plain x) (.plain y)

namespace Comparison.Consistent

open AbstractObject

variable {c : Comparison (Except Fault) α} {P : α → Prop} (hc : c.Consistent P)

include hc

/-- An object and a plain one that are said to denote the same set are parts of each other. -/
theorem coherent_plain {o : AbstractObject α} {y : α} (ho : o.Built HasChildren P) (hy : P y) :
    Coherent (relate c) o (.plain y) := by
  intro h
  induction ho with
  | full => exact ⟨h, rfl⟩
  | empty => exact ⟨rfl, h⟩
  | plain hx => exact hc _ _ hx hy h
  | @combined mode children hsome _ ih =>
      rw [relate, equalSet_plain, equalSetPlain, fold_combined] at h
      have heach : ∀ o ∈ children,
          o.subSetPlain c y = .ok true ∧ o.superSetPlain c y = .ok true := by
        intro o ho
        have hchild : o.equalSetPlain c y = .ok true :=
          forall_of_firstHit h _ (List.mem_map_of_mem ho)
        rw [← equalSet_plain] at hchild
        rw [← subSet_plain, ← subSet_of_plain]
        exact ih o ho hchild
      rw [relate, relate, subSet_plain, subSet_of_plain, subSetPlain, superSetPlain, fold_combined,
        fold_combined]
      exact ⟨firstHit_of_granted hsome fun o ho => (heach o ho).1,
        firstHit_of_granted hsome fun o ho => (heach o ho).2⟩

/-- Two objects that are said to denote the same set are parts of each other. -/
theorem coherent {a b : AbstractObject α} (ha : a.Built HasChildren P)
    (hb : b.Built HasChildren P) : Coherent (relate c) a b := by
  intro h
  induction ha generalizing b with
  | full => exact ⟨(subSet_full_left c b).trans h, by cases b <;> rfl⟩
  | empty =>
      cases hb with
      | full => cases h
      | empty => exact ⟨rfl, rfl⟩
      | plain hy => exact ⟨rfl, h⟩
      | combined hsome heach => exact ⟨rfl, h⟩
  | plain hx =>
      cases hb with
      | full => exact ⟨rfl, h⟩
      | empty => exact ⟨h, rfl⟩
      | plain hy => exact hc _ _ hx hy h
      | combined hsome heach =>
          -- The combination is asked about the plain object in either order.
          exact (hc.coherent_plain (.combined hsome heach) hx h).symm
  | @combined mode as hsome heach ih =>
      cases hb with
      | full => exact ⟨rfl, h⟩
      | empty => exact ⟨h, rfl⟩
      | plain hy => exact hc.coherent_plain (.combined hsome heach) hy h
      | @combined mode' bs hsome' heach' =>
          rw [relate, equalSet_combined] at h
          split at h
          case isFalse => cases h
          case isTrue hlength =>
            have hpairs : ∀ p ∈ as.zip bs,
                p.1.subSet c p.2 = .ok true ∧ p.2.subSet c p.1 = .ok true := by
              intro p hp
              obtain ⟨hfirst, hsecond⟩ := List.of_mem_zip hp
              exact ih p.1 hfirst (heach' p.2 hsecond)
                (forall_of_firstHit h _ (List.mem_map_of_mem hp))
            have hsomePair : (as.zip bs).length ≠ 0 := by
              rw [List.length_zip, hlength, Nat.min_self]
              exact hsome'
            rw [relate, relate, subSet_combined, subSet_combined, if_pos hlength,
              if_pos hlength.symm, ← List.zip_swap as bs, List.map_map]
            exact ⟨firstHit_of_granted hsomePair fun p hp => (hpairs p hp).1,
              firstHit_of_granted hsomePair fun p hp => (hpairs p hp).2⟩

end Comparison.Consistent

variable [ValueDomain V] [RegionDomain V R] {edge : EdgeId} {family : Family}

/-- The leaves of values and of regions that denote the same set at an edge are parts of each
other. -/
structure ConsistentLeaves (V R : Type) [ValueDomain V] [RegionDomain V R] (edge : EdgeId) :
    Prop where
  value : ∀ {x y : V}, ValueDomain.equalSet edge x y = true →
    ValueDomain.subSet edge x y = true ∧ ValueDomain.subSet edge y x = true
  region : ∀ {r s : R}, RegionDomain.equalSet edge r s = true →
    RegionDomain.subSet edge r s = true ∧ RegionDomain.subSet edge s r = true

/-- Places that denote the same set are parts of each other. -/
theorem CodeLoc.consistent : (CodeLoc.comparison (m := Except Fault)).Consistent fun _ => True := by
  intro x y _ _ h
  obtain rfl : x = y := of_decide_eq_true (Except.ok.inj h)
  have hself : ∀ {β : Type} [DecidableEq β] (field : Option β),
      CodePoint.includes field field = true := by
    intro β _ field
    cases field <;> simp [CodePoint.includes]
  have hpart : AbstractObject.relate (CodeLoc.comparison (m := Except Fault)) .subSet (.plain x)
      (.plain x) = .ok true :=
    congrArg Except.ok (Bool.and_eq_true_iff.2 ⟨hself x.part, hself x.term⟩)
  exact ⟨hpart, hpart⟩

namespace ConsistentLeaves

variable (h : ConsistentLeaves V R edge)

include h

/-- The leaves of values that denote the same set are parts of each other. -/
theorem values : (Value.comparison (m := Except Fault) (V := V) edge).Consistent fun _ => True := by
  intro x y _ _ heq
  obtain ⟨hsub, hsuper⟩ := h.value (Except.ok.inj heq)
  exact ⟨congrArg Except.ok hsub, congrArg Except.ok hsuper⟩

/-- Plain regions that denote the same set are parts of each other. -/
theorem regions :
    (MemRegion.comparison (m := Except Fault) (R := R) edge).Consistent fun _ => True := by
  intro x y _ _ heq
  rcases Storage.result_or_leaves (Except.ok.inj heq) with ⟨f, rfl, rfl⟩ | ⟨r, s, rfl, rfl, hleaves⟩
  · have hpart : Storage.subSet edge (.result f : Storage R) (.result f) = true := by
      simp [Storage.subSet, Storage.resultRelation]
    exact ⟨congrArg Except.ok hpart, congrArg Except.ok hpart⟩
  · obtain ⟨hsub, hsuper⟩ := h.region hleaves
    exact ⟨congrArg Except.ok hsub, congrArg Except.ok hsuper⟩

/-- Slots that denote the same set are parts of each other. -/
theorem slots {s t : Slot V R} (hs : s.Built HasChildren) (ht : t.Built HasChildren) :
    Coherent (Slot.relate edge) s t := by
  intro heq
  obtain ⟨hregions, hindexes⟩ := both_of_ok heq
  rw [Slot.relateRegions_silent (by simp)] at hregions
  obtain ⟨hsub, hsuper⟩ := h.regions.coherent hs.region ht.region hregions
  rw [← Slot.relateRegions_silent (V := V) (by simp)] at hsub hsuper
  simp only [Slot.relate, Slot.subSet, hsub, hsuper]
  cases hi : s.index with
  | none =>
      cases hj : t.index with
      | none => exact ⟨rfl, rfl⟩
      | some j =>
          rw [hi, hj] at hindexes
          cases hindexes
  | some i =>
      cases hj : t.index with
      | none =>
          rw [hi, hj] at hindexes
          cases hindexes
      | some j =>
          rw [hi, hj] at hindexes
          have hequal := (Slot.relateIndexes_silent (R := R) (by simp)).symm.trans hindexes
          obtain ⟨hsub', hsuper'⟩ := h.values.coherent (hs.index i hi) (ht.index j hj) hequal
          exact ⟨(Slot.relateIndexes_silent (R := R) (by simp)).trans hsub',
            (Slot.relateIndexes_silent (R := R) (by simp)).trans hsuper'⟩

/-- Plain locations that denote the same set are parts of each other. -/
theorem locs : (MemLoc.comparison (.silent : Arbiter (Except Fault) V R) edge).Consistent
    (Plain.Built HasChildren .memLoc) := by
  intro x y hx hy heq
  have hslots := h.slots hx hy ((Cell.relate_slots .equalSet x y).symm.trans heq)
  rw [← Cell.relate_slots, ← Cell.relate_slots] at hslots
  exact hslots

/-- The plain objects of every family that denote the same set are parts of each other. -/
theorem plain (family : Family) :
    (Family.own (V := V) (R := R) family edge).Consistent (Plain.Built HasChildren family) := by
  cases family with
  | value => exact h.values
  | codeLoc => exact CodeLoc.consistent
  | memRegion => exact h.regions
  | memLoc => exact h.locs

end ConsistentLeaves

/-- If leaves that denote the same set are parts of each other, so are two objects of one family in
which all combinations have a child, whether they are asked themselves or through an arbiter who
answers nothing. -/
theorem ConsistentLeaves.equal_sets_include (h : ConsistentLeaves V R edge)
    {a b : Object V R family} (ha : family.Built HasChildren a) (hb : family.Built HasChildren b) :
    Coherent (AbstractObject.relate (family.own edge)) a b ∧
      Coherent (fun relation a b => AnyObject.relate .silent edge relation ⟨family, a⟩ ⟨family, b⟩)
        a b := by
  have hown : Coherent (AbstractObject.relate (family.own edge)) a b :=
    (h.plain family).coherent ha hb
  refine ⟨hown, fun hrouted => ?_⟩
  obtain ⟨hsub, hsuper⟩ := hown ((AnyObject.relate_silent (by simp)).symm.trans hrouted)
  exact ⟨(AnyObject.relate_silent (by simp)).trans hsub,
    (AnyObject.relate_silent (by simp)).trans hsuper⟩

section Leaves

/-- An element of a flat lattice is a part of itself. -/
theorem Flat.subSet_self [DecidableEq α] (x : Flat α) : x.subSet x = true := by
  cases x <;> simp [subSet]

/-- The leaves of this library that denote the same set are parts of each other, at every edge. -/
theorem leaves_consistent (edge : EdgeId) : ConsistentLeaves ValueLeaf RegionLeaf edge where
  value {x y} heq := by
    cases x <;> cases y
    case flat.flat x _ y _ =>
      obtain rfl : x = y := of_decide_eq_true heq
      exact ⟨x.subSet_self, x.subSet_self⟩
    case literals.literals s _ t _ => exact Bool.and_eq_true_iff.1 heq
    case symbol.symbol a b => exact ⟨heq, decide_eq_true (of_decide_eq_true heq).symm⟩
    all_goals cases heq
  region {r s} heq := by
    cases r <;> cases s
    case placed.placed x _ _ y _ _ =>
      obtain rfl : x = y := of_decide_eq_true heq
      exact ⟨Flat.subSet_self x, Flat.subSet_self x⟩
    case sites.sites s _ t _ => exact Bool.and_eq_true_iff.1 heq
    case block.block a b => exact ⟨heq, decide_eq_true (of_decide_eq_true heq).symm⟩
    all_goals cases heq

/-- A slot of the heap or the result of a function. -/
def slotOrResult : Object ValueLeaf RegionLeaf .memLoc :=
  .combined .union [.plain (.slot ⟨MemRegion.named "heap", some (Value.constant 3)⟩),
    .combined .intersect [.plain (.result ⟨"main"⟩)]]

/-- What the slot and the storage for the result have in common, with the region of the slot as a
union. -/
def slotAndStorage : Object ValueLeaf RegionLeaf .memLoc :=
  .combined .intersect [
    .plain (.slot ⟨.combined .union [MemRegion.named "heap"], some (Value.constant 3)⟩),
    .plain (.slot ⟨.plain (.result ⟨"main"⟩), none⟩)]

/-- The two are said to denote the same set, and so to be parts of each other. -/
theorem slotOrResult_slotAndStorage :
    slotOrResult.equalSet (Family.own .memLoc ⟨0⟩) slotAndStorage = .ok true ∧
      slotOrResult.subSet (Family.own .memLoc ⟨0⟩) slotAndStorage = .ok true ∧
      slotAndStorage.subSet (Family.own .memLoc ⟨0⟩) slotOrResult = .ok true := by
  have hfirst : Family.Built .memLoc HasChildren slotOrResult := by
    refine .combined (Nat.succ_ne_zero _) (List.forall_mem_cons.2 ⟨.plain ⟨.plain trivial, ?_⟩,
      List.forall_mem_singleton.2 (.combined (Nat.succ_ne_zero _)
        (List.forall_mem_singleton.2 (.plain ⟨.plain trivial, ?_⟩)))⟩)
    · rintro _ ⟨⟩
      exact .plain trivial
    · rintro _ ⟨⟩
  have hsecond : Family.Built .memLoc HasChildren slotAndStorage := by
    refine .combined (Nat.succ_ne_zero _) (List.forall_mem_cons.2
      ⟨.plain ⟨.combined (Nat.succ_ne_zero _) (List.forall_mem_singleton.2 (.plain trivial)), ?_⟩,
        List.forall_mem_singleton.2 (.plain ⟨.plain trivial, ?_⟩)⟩)
    · rintro _ ⟨⟩
      exact .plain trivial
    · rintro _ ⟨⟩
  have hequal : slotOrResult.equalSet (Family.own .memLoc ⟨0⟩) slotAndStorage = .ok true := rfl
  exact ⟨hequal, ((leaves_consistent ⟨0⟩).equal_sets_include hfirst hsecond).1 hequal⟩

/-- A union without children is said to denote the same set as itself, but to be no part of
itself. -/
example :
    AbstractObject.equalSet (m := Except Fault) (Value.comparison ⟨0⟩)
        (.combined .union [] : Value ValueLeaf) (.combined .union []) = .ok true ∧
      AbstractObject.subSet (m := Except Fault) (Value.comparison ⟨0⟩)
        (.combined .union [] : Value ValueLeaf) (.combined .union []) = .ok false :=
  ⟨rfl, rfl⟩

end Leaves

end JointAnalysis
