import JointAnalysis.Proofs.Interpretation
import JointAnalysis.Proofs.Silence

/-!
# When an overlap is denied

Two combinations are compared position by position, which says little about children at different
positions. Whether an overlap may be denied on these grounds depends on the modes and on the numbers
of children: read `Pairable` first. Where all combinations that are denied an overlap are pairable,
objects that are denied one are disjoint, in every family. Where they are not, an overlap can be
denied to two objects that denote everything.
-/

namespace JointAnalysis

variable {α E V R : Type}

/-- The modes and numbers of children for which going through two combinations position by position
finds every overlap. Unions of equally many children may overlap across positions. Intersections of
different lengths are denied an overlap unseen, and one position of an intersection says nothing
about the others of a union. -/
def Pairable : Mode → Nat → Mode → Nat → Prop
  | .union, n, .union, k => n = k → n ≤ 1
  | .union, _, .intersect, _ => True
  | .intersect, n, .intersect, k => n = k
  | .intersect, n, .union, k => k = 0 ∨ n = 1 ∧ k = 1

/-- Wherever two combinations are denied an overlap when two objects are compared, they are
pairable, and the plain objects that are denied one fit. -/
inductive Aligned (c : Comparison (Except Fault) α) (fit : α → α → Prop) :
    AbstractObject α → AbstractObject α → Prop where
  | granted {a b : AbstractObject α} (h : a.mayEqual c b ≠ .ok false) : Aligned c fit a b
  | empty_left {b : AbstractObject α} : Aligned c fit .empty b
  | empty_right {a : AbstractObject α} : Aligned c fit a .empty
  | plain {x y : α} (h : fit x y) : Aligned c fit (.plain x) (.plain y)
  | combined_plain {mode : Mode} {children : List (AbstractObject α)} {y : α}
      (each : ∀ o ∈ children, Aligned c fit o (.plain y)) :
      Aligned c fit (.combined mode children) (.plain y)
  | plain_combined {mode : Mode} {children : List (AbstractObject α)} {x : α}
      (each : ∀ o ∈ children, Aligned c fit o (.plain x)) :
      Aligned c fit (.plain x) (.combined mode children)
  | combined {mode mode' : Mode} {as bs : List (AbstractObject α)}
      (shapes : Pairable mode as.length mode' bs.length)
      (pairs : ∀ p ∈ as.zip bs, Aligned c fit p.1 p.2) :
      Aligned c fit (.combined mode as) (.combined mode' bs)

namespace AbstractObject

variable {plain : α → Set E} {children : List (AbstractObject α)} {S : Set E}

/-- A union has nothing in common with what all its children have nothing in common with. -/
theorem disjoint_union (h : ∀ o ∈ children, Disjoint (o.denote plain) S) :
    Disjoint (denote plain (.combined .union children)) S := by
  refine Set.disjoint_left.2 fun e he => ?_
  obtain ⟨o, ho, hmem⟩ := (mem_denote_union plain).1 he
  exact Set.disjoint_left.1 (h o ho) hmem

/-- A combination has nothing in common with what one of its children has nothing in common with, if
it is an intersection or has no other child. -/
theorem disjoint_of_child {mode : Mode} {o : AbstractObject α} (ho : o ∈ children)
    (honly : mode = .union → children.length ≤ 1) (h : Disjoint (o.denote plain) S) :
    Disjoint (denote plain (.combined mode children)) S :=
  h.mono_left (denote_combined_subset plain ho honly)

/-- If the children that are denied an overlap are disjoint from something, so is a combination that
is denied one on their account. -/
theorem disjoint_of_firstHit {mode : Mode} {ask : AbstractObject α → Except Fault Bool}
    (h : firstHit mode.isUnion (children.map ask) = .ok false)
    (heach : ∀ o ∈ children, ask o = .ok false → Disjoint (o.denote plain) S) :
    Disjoint (denote plain (.combined mode children)) S := by
  cases mode with
  | union =>
      refine disjoint_union fun o ho => heach o ho ?_
      exact forall_of_firstHit h _ (List.mem_map_of_mem ho)
  | intersect =>
      obtain ⟨o, ho, hask⟩ := List.mem_map.1 (exists_of_firstHit h)
      exact disjoint_of_child ho (by simp) (heach o ho hask)

/-- A union of nothing denotes nothing. -/
theorem denote_union_nil : denote plain (.combined .union []) = ∅ := by
  refine Set.eq_empty_of_forall_notMem fun e he => ?_
  obtain ⟨o, ho, _⟩ := (mem_denote_union plain).1 he
  cases ho

/-- A union with a full child denotes everything. -/
theorem denote_union_of_full (h : .full ∈ children) :
    denote plain (.combined .union children) = Set.univ :=
  Set.eq_univ_of_forall fun _ => (mem_denote_union plain).2 ⟨.full, h, Set.mem_univ _⟩

/-- An intersection of full children denotes everything. -/
theorem denote_intersect_replicate (n : Nat) :
    denote plain (.combined .intersect (.replicate n .full)) = Set.univ := by
  refine Set.eq_univ_of_forall fun e => (mem_denote_intersect plain).2 fun o ho => ?_
  rw [List.eq_of_mem_replicate ho]
  exact Set.mem_univ e

variable (c : Comparison (Except Fault) α)

/-- An intersection is denied an overlap with combinations of other lengths. -/
theorem mayEqual_of_length_ne {mode : Mode} {as bs : List (AbstractObject α)}
    (h : as.length ≠ bs.length) :
    mayEqual c (.combined .intersect as) (.combined mode bs) = .ok false := by
  rw [mayEqual, if_neg h]
  rfl

/-- Unions are denied an overlap if every position has an empty child on one side. -/
theorem mayEqual_crossed (n : Nat) :
    mayEqual c (.combined .union (.full :: .replicate n .empty))
      (.combined .union (.empty :: .replicate n .full)) = .ok false := by
  rw [mayEqual, mayEqualPairs_eq, if_pos (by simp)]
  refine firstHit_of_forall fun ask hask => ?_
  rw [List.zipWith_cons_cons, List.zipWith_replicate'] at hask
  obtain rfl | hask := List.mem_cons.1 hask
  · rfl
  · rw [List.eq_of_mem_replicate hask]
    rfl

end AbstractObject

namespace Aligned

open AbstractObject

variable {fit : α → α → Prop} {plain : α → Set E} {c : Comparison (Except Fault) α}

/-- Pairable combinations that are denied an overlap are disjoint, if this is so for the children at
each position. -/
theorem disjoint_combined {mode mode' : Mode} {as bs : List (AbstractObject α)}
    (hshapes : Pairable mode as.length mode' bs.length)
    (hpairs : ∀ p ∈ as.zip bs, p.1.mayEqual c p.2 = .ok false →
      Disjoint (p.1.denote plain) (p.2.denote plain))
    (h : AbstractObject.mayEqual c (.combined mode as) (.combined mode' bs) = .ok false) :
    Disjoint (denote plain (.combined mode as)) (denote plain (.combined mode' bs)) := by
  rw [AbstractObject.mayEqual, mayEqualPairs_eq] at h
  by_cases hlength : as.length = bs.length
  · rw [if_pos hlength] at h
    cases mode with
    | union =>
        -- Every position is denied an overlap: it is enough to look beside the child in question.
        refine disjoint_union fun a ha => ?_
        rw [← List.map_fst_zip hlength.le] at ha
        obtain ⟨p, hp, rfl⟩ := List.mem_map.1 ha
        refine (disjoint_of_child (List.of_mem_zip hp).2 (fun hunion => ?_)
          (hpairs p hp (forall_pair_of_firstHit h p hp)).symm).symm
        subst hunion
        exact hlength ▸ hshapes hlength
    | intersect =>
        obtain ⟨p, hp, hdenied⟩ := exists_pair_of_firstHit h
        obtain ⟨hfirst, hsecond⟩ := List.of_mem_zip hp
        refine disjoint_of_child hfirst (by simp) (disjoint_of_child hsecond (fun hunion => ?_)
          (hpairs p hp hdenied).symm).symm
        subst hunion
        have hshapes : bs.length = 0 ∨ as.length = 1 ∧ bs.length = 1 := hshapes
        omega
  · rw [if_neg hlength] at h
    cases mode with
    | union => cases h
    | intersect =>
        cases mode' with
        | union =>
            have hshapes : bs.length = 0 ∨ as.length = 1 ∧ bs.length = 1 := hshapes
            have hnone : bs = [] := List.length_eq_zero_iff.1 (by omega)
            rw [hnone, denote_union_nil]
            exact Set.disjoint_empty _
        | intersect => exact absurd hshapes hlength

variable (hc : ∀ {x y}, fit x y → c.mayEqual x y = .ok false → Disjoint (plain x) (plain y))

include hc

/-- Aligned objects that are denied an overlap are disjoint, if this is so for the plain objects
that fit. -/
theorem disjoint_of_mayEqual {a b : AbstractObject α} (hab : Aligned c fit a b)
    (h : a.mayEqual c b = .ok false) : Disjoint (a.denote plain) (b.denote plain) := by
  induction hab with
  | granted hgranted => exact absurd h hgranted
  | empty_left => exact Set.empty_disjoint _
  | empty_right => exact Set.disjoint_empty _
  | plain hfit => exact hc hfit h
  | combined_plain _ ih =>
      rw [mayEqual_plain, mayEqualPlain, fold_combined] at h
      refine disjoint_of_firstHit h fun o ho hdenied => ih o ho ?_
      rw [mayEqual_plain]
      exact hdenied
  | plain_combined _ ih =>
      simp only [AbstractObject.mayEqual, mayEqualPlain, fold_combined] at h
      refine (disjoint_of_firstHit h fun o ho hdenied => ih o ho ?_).symm
      rw [mayEqual_plain]
      exact hdenied
  | combined hshapes _ ih => exact disjoint_combined hshapes ih h

omit hc in
variable (c plain) in
/-- Every pair of shapes that is not pairable is that of two combinations that denote everything and
are denied an overlap. -/
theorem exists_denied {mode mode' : Mode} {n k : Nat} (h : ¬Pairable mode n mode' k) :
    ∃ as bs : List (AbstractObject α), as.length = n ∧ bs.length = k ∧
      AbstractObject.mayEqual c (.combined mode as) (.combined mode' bs) = .ok false ∧
      denote plain (.combined mode as) = Set.univ ∧
      denote plain (.combined mode' bs) = Set.univ := by
  cases mode with
  | union =>
      cases mode' with
      | union =>
          have hequal : n = k ∧ 1 < n := by
            have hshapes : ¬(n = k → n ≤ 1) := h
            omega
          obtain ⟨m, rfl⟩ : ∃ m, n = m + 2 := ⟨n - 2, by omega⟩
          exact ⟨.full :: .replicate (m + 1) .empty, .empty :: .replicate (m + 1) .full, by simp,
            by simpa using hequal.1, mayEqual_crossed c (m + 1), denote_union_of_full (by simp),
            denote_union_of_full (by simp)⟩
      | intersect => exact absurd trivial h
  | intersect =>
      cases mode' with
      | union =>
          have hshapes : ¬(k = 0 ∨ n = 1 ∧ k = 1) := h
          obtain ⟨m, rfl⟩ : ∃ m, k = m + 1 := ⟨k - 1, by omega⟩
          by_cases hequal : n = m + 1
          · obtain ⟨l, rfl⟩ : ∃ l, m = l + 1 := ⟨m - 1, by omega⟩
            refine ⟨.replicate n .full, .empty :: .replicate (l + 1) .full, by simp, by simp, ?_,
              denote_intersect_replicate n, denote_union_of_full (by simp)⟩
            rw [hequal, AbstractObject.mayEqual, mayEqualPairs_eq, if_pos (by simp)]
            rfl
          · exact ⟨.replicate n .full, .replicate (m + 1) .full, by simp, by simp,
              mayEqual_of_length_ne c (by simpa using hequal), denote_intersect_replicate n,
              denote_union_of_full (by simp)⟩
      | intersect =>
          have hshapes : n ≠ k := h
          exact ⟨.replicate n .full, .replicate k .full, by simp, by simp,
            mayEqual_of_length_ne c (by simpa using hshapes), denote_intersect_replicate n,
            denote_intersect_replicate k⟩

end Aligned

/-- Places that do not overlap are disjoint. -/
theorem CodePoint.disjoint_places {a b : CodePoint}
    (h : (overlap a.part b.part && overlap a.term b.term) = false) :
    Disjoint a.places b.places := by
  have hfield : ∀ {β : Type} [DecidableEq β] {x y : Option β}, overlap x y = false →
      Disjoint (matched x) (matched y) := by
    intro β _ x y hxy
    cases x with
    | none => cases hxy
    | some x =>
        cases y with
        | none => cases hxy
        | some y => exact Set.disjoint_singleton.2 (of_decide_eq_false hxy)
  rw [places, places, Set.disjoint_prod]
  rcases Bool.and_eq_false_iff.1 h with hpart | hterm
  · exact .inl (hfield hpart)
  · exact .inr (hfield hterm)

namespace Interpretation

variable [ValueDomain V] [RegionDomain V R] {ι : Interpretation V R} {edge : EdgeId}

/-- The leaves that are denied an overlap at an edge are disjoint, regions that are said to be empty
are, and the storage for results is kept apart. -/
structure Discerns (ι : Interpretation V R) (edge : EdgeId) : Prop where
  value : ∀ {x y}, ι.trustsValue x → ι.trustsValue y → ValueDomain.mayEqual edge x y = false →
    Disjoint (ι.value x) (ι.value y)
  region : ∀ {x y}, ι.trustsRegion x → ι.trustsRegion y → RegionDomain.mayEqual edge x y = false →
    Disjoint (ι.region x) (ι.region y)
  isEmpty : ∀ {r}, ι.trustsRegion r → RegionDomain.isEmpty edge r = true → ι.region r = ∅
  apart : ι.Apart edge

/-- The regions of two slots are aligned at an edge, and so are their indexes if both have one. -/
structure AlignedSlots (ι : Interpretation V R) (edge : EdgeId) (s t : Slot V R) : Prop where
  region : Aligned (MemRegion.comparison edge) (fun x y => ι.trustsStorage x ∧ ι.trustsStorage y)
    s.region t.region
  index : ∀ i j, s.index = some i → t.index = some j →
    Aligned (Value.comparison edge) (fun x y => ι.trustsValue x ∧ ι.trustsValue y) i j
  trusts : ∀ {v w}, s.region = .plain v → t.region = .plain w →
    ι.trustsStorage v ∧ ι.trustsStorage w

/-- Plain objects that may be denied an overlap at an edge: one relies on the answers of their
leaves, and their parts are aligned. -/
def fits (ι : Interpretation V R) (edge : EdgeId) :
    (family : Family) → Plain V R family → Plain V R family → Prop
  | .value => fun x y => ι.trustsValue x ∧ ι.trustsValue y
  | .codeLoc => fun _ _ => True
  | .memRegion => fun x y => ι.trustsStorage x ∧ ι.trustsStorage y
  | .memLoc => fun x y => ι.AlignedSlots edge x.toSlot y.toSlot

section Discerning

variable (h : ι.Discerns edge)

include h

/-- Plain regions that are denied an overlap are disjoint. -/
theorem Discerns.areas {x y : Storage R} (hx : ι.trustsStorage x) (hy : ι.trustsStorage y)
    (hmay : x.mayEqual edge y = false) : Disjoint (ι.areas x) (ι.areas y) := by
  cases hrelation : x.resultRelation edge y with
  | some answer =>
      simp only [Storage.mayEqual, hrelation] at hmay
      rw [hmay] at hrelation
      exact h.apart.disjoint_areas hx hy hrelation
  | none =>
      cases x with
      | result f =>
          cases y <;> simp only [Storage.mayEqual, hrelation] at hmay
          · cases hmay
          · next r =>
              have hnone : ι.areas (.leaf r) = ∅ := h.isEmpty hy (by simpa using hmay)
              rw [hnone]
              exact Set.disjoint_empty _
      | leaf r =>
          cases y <;> simp only [Storage.mayEqual, hrelation] at hmay
          · have hnone : ι.areas (.leaf r) = ∅ := h.isEmpty hx (by simpa using hmay)
            rw [hnone]
            exact Set.empty_disjoint _
          · exact h.region hx hy hmay

/-- Aligned slots that are denied an overlap are disjoint. -/
theorem Discerns.slots {s t : Slot V R} (hst : ι.AlignedSlots edge s t)
    (hmay : Slot.mayEqual (m := Except Fault) .silent edge s t = .ok false) :
    Disjoint (ι.locations s) (ι.locations t) := by
  rw [locations, locations, Set.disjoint_prod]
  obtain ⟨answer, hregion, hindex⟩ := bind_eq_ok hmay
  rw [Slot.relateRegions_silent (by simp)] at hregion
  cases answer with
  | false =>
      refine .inl (hst.region.disjoint_of_mayEqual (fun hfit hxy => ?_) hregion)
      exact h.areas hfit.1 hfit.2 (Except.ok.inj hxy)
  | true =>
      cases hi : s.index with
      | none =>
          simp only [hi] at hindex
          cases hindex
      | some i =>
          cases hj : t.index with
          | none =>
              simp only [hi, hj] at hindex
              cases hindex
          | some j =>
              simp only [hi, hj, if_true] at hindex
              rw [Slot.relateIndexes_silent (by simp)] at hindex
              refine .inr ((hst.index i j hi hj).disjoint_of_mayEqual (fun hfit hxy => ?_) hindex)
              exact h.value hfit.1 hfit.2 (Except.ok.inj hxy)

/-- Plain locations that are denied an overlap are disjoint, if their slots are aligned. -/
theorem Discerns.cells {x y : Cell V R} (hxy : ι.AlignedSlots edge x.toSlot y.toSlot)
    (hmay : Cell.relate edge (Slot.mayEqual (m := Except Fault) .silent edge) x y = .ok false) :
    Disjoint (ι.locations x.toSlot) (ι.locations y.toSlot) := by
  rw [Cell.relate] at hmay
  split at hmay
  · next answer hrelation =>
      cases hmay
      exact h.apart.disjoint_locations hxy.trusts hrelation
  · exact h.slots hxy hmay

/-- Plain objects of every family that are denied an overlap are disjoint, if they fit. -/
theorem Discerns.plain {family : Family} {x y : Plain V R family} (hfit : ι.fits edge family x y)
    (hmay : (family.own edge).mayEqual x y = .ok false) :
    Disjoint (ι.plain family x) (ι.plain family y) := by
  cases family with
  | value => exact h.value hfit.1 hfit.2 (Except.ok.inj hmay)
  | codeLoc => exact CodePoint.disjoint_places (Except.ok.inj hmay)
  | memRegion => exact h.areas hfit.1 hfit.2 (Except.ok.inj hmay)
  | memLoc => exact h.cells hfit hmay

/-- Aligned objects of every family that are denied an overlap are disjoint, whether they are asked
themselves or through an arbiter who answers nothing. Nothing follows for combinations that are not
pairable: for each such pair of shapes there are two that denote everything and are denied an
overlap. -/
theorem Discerns.denied_overlap (family : Family) :
    (∀ {a b : Object V R family}, Aligned (family.own edge) (ι.fits edge family) a b →
      a.mayEqual (family.own edge) b = .ok false ∨
        AnyObject.relate (m := Except Fault) .silent edge .mayEqual ⟨family, a⟩ ⟨family, b⟩ =
          .ok false →
      Disjoint (ι.denote a) (ι.denote b)) ∧
    ∀ {mode mode' : Mode} {n k : Nat}, ¬Pairable mode n mode' k →
      ∃ as bs : List (Object V R family), as.length = n ∧ bs.length = k ∧
        AbstractObject.mayEqual (family.own edge) (.combined mode as) (.combined mode' bs) =
          .ok false ∧
        ι.denote (.combined mode as : Object V R family) = Set.univ ∧
        ι.denote (.combined mode' bs : Object V R family) = Set.univ := by
  refine ⟨fun {a b} hab hmay => ?_, fun hshapes => Aligned.exists_denied _ _ hshapes⟩
  rw [AnyObject.relate_silent (by simp)] at hmay
  exact hab.disjoint_of_mayEqual h.plain (or_self_iff.1 hmay)

end Discerning

/-- The flat lattices deny an overlap only with right. -/
theorem flat_discerns (edge : EdgeId) : flat.Discerns edge where
  value := by
    rintro ⟨x, _⟩ ⟨y, _⟩ ⟨⟩ ⟨⟩ h
    exact Flat.disjoint_of_mayEqual Function.injective_id h
  region := by
    rintro ⟨x, _, _⟩ ⟨y, _, _⟩ ⟨⟩ ⟨⟩ h
    exact Flat.disjoint_of_mayEqual Sum.inl_injective h
  isEmpty hr h := (flat_region edge).isEmpty hr h
  apart := flat_apart edge

/-- A combination of constants. -/
def constants (mode : Mode) (ns : List Int64) : Object ValueLeaf RegionLeaf .value :=
  .combined mode (ns.map Value.constant)

/-- A union of constants denotes each of them. -/
theorem mem_constants_union {n : Int64} {ns : List Int64} (h : n ∈ ns) :
    n ∈ flat.denote (constants .union ns) :=
  (AbstractObject.mem_denote_union _).2 ⟨Value.constant n, List.mem_map_of_mem h, rfl⟩

/-- An intersection of one and the same constant denotes it. -/
theorem mem_constants_intersect {n : Int64} {ns : List Int64} (h : ∀ k ∈ ns, k = n) :
    n ∈ flat.denote (constants .intersect ns) := by
  refine (AbstractObject.mem_denote_intersect _).2 fun o ho => ?_
  obtain ⟨k, hk, rfl⟩ := List.mem_map.1 ho
  rw [h k hk]
  rfl

/-- Two unions of the same constants in different orders, two intersections of different lengths,
and an intersection and a union: an overlap is denied each time, but there is one. -/
theorem common_constant_denied :
    flat.Discerns ⟨0⟩ ∧
    ∀ p ∈ [(constants .union [1, 2], constants .union [2, 1]),
        (constants .intersect [1], constants .intersect [1, 1]),
        (constants .intersect [1, 1], constants .union [2, 1])],
      p.1.mayEqual (Family.own .value ⟨0⟩) p.2 = .ok false ∧
        ¬Disjoint (flat.denote p.1) (flat.denote p.2) := by
  refine ⟨flat_discerns ⟨0⟩, List.forall_mem_cons.2 ⟨⟨rfl, ?_⟩,
    List.forall_mem_cons.2 ⟨⟨rfl, ?_⟩, List.forall_mem_cons.2 ⟨⟨rfl, ?_⟩, by simp⟩⟩⟩⟩
  · exact Set.not_disjoint_iff.2
      ⟨(1 : Int64), mem_constants_union (by simp), mem_constants_union (by simp)⟩
  · exact Set.not_disjoint_iff.2
      ⟨(1 : Int64), mem_constants_intersect (by simp), mem_constants_intersect (by simp)⟩
  · exact Set.not_disjoint_iff.2
      ⟨(1 : Int64), mem_constants_intersect (by simp), mem_constants_union (by simp)⟩

/-- One position of two intersections of equal length is enough to deny an overlap. -/
theorem three_apart :
    Disjoint
      (flat.denote (.combined .intersect [constants .union [1, 2], .full] :
        Object ValueLeaf RegionLeaf .value))
      (flat.denote (.combined .intersect [Value.constant 3, .full] :
        Object ValueLeaf RegionLeaf .value)) := by
  refine ((flat_discerns ⟨0⟩).denied_overlap .value).1 (.combined rfl ?_) (.inl rfl)
  simp only [List.zip_cons_cons, List.zip_nil_right, List.forall_mem_cons]
  refine ⟨.combined_plain fun o ho => ?_, .granted (by rintro ⟨⟩), by simp⟩
  obtain ⟨n, _, rfl⟩ := List.mem_map.1 ho
  exact .plain ⟨trivial, trivial⟩

end Interpretation

end JointAnalysis
