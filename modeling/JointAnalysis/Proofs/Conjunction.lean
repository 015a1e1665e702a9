import JointAnalysis.Proofs.Comparison
import JointAnalysis.Proofs.Interpretation

/-!
# Comparing conjunctions

The answers of tight composers are conjunctions: all combinations in them are intersections, of at
least one object. For conjunctions the comparisons are right. Read `Comparison.Sound` first: if they
are right for the plain objects of a family, they are for all its conjunctions, since a conjunction
is compared child by child.
-/

namespace JointAnalysis

variable {α E V R : Type}

/-- All combinations in an object are intersections of at least one child, and its plain parts have
the given shape. -/
inductive Conjunction (shaped : α → Prop) : AbstractObject α → Prop where
  | full : Conjunction shaped .full
  | empty : Conjunction shaped .empty
  | plain {x : α} (h : shaped x) : Conjunction shaped (.plain x)
  | intersect {children : List (AbstractObject α)} (some : children ≠ [])
      (each : ∀ o ∈ children, Conjunction shaped o) :
      Conjunction shaped (.combined .intersect children)

/-- What a family says about its plain objects is right about the sets that they denote. -/
structure Comparison.Sound (c : Comparison (Except Fault) α) (plain : α → Set E)
    (shaped : α → Prop) : Prop where
  equalSet : ∀ {x y}, shaped x → shaped y → c.equalSet x y = .ok true → plain x = plain y
  subSet : ∀ {x y}, shaped x → shaped y → c.subSet x y = .ok true → plain x ⊆ plain y
  meet : ∀ {x y met}, shaped x → shaped y → c.meet x y = .ok met →
    Narrows (plain x) (plain y) (met.object.denote plain) met.changed
  isFull : ∀ {x}, shaped x → c.isFull x = .ok true → plain x = Set.univ
  isEmpty : ∀ {x}, shaped x → c.isEmpty x = .ok true → plain x = ∅

/-- The entities that belong to all sets of a list. -/
def common {σ : Type} (sets : σ → Set E) (l : List σ) : Set E := {x | ∀ i ∈ l, x ∈ sets i}

section Common

variable {σ τ : Type} {plain : α → Set E}

/-- A list of sets may be given by another list. -/
theorem common_map (sets : σ → Set E) (f : τ → σ) (l : List τ) :
    common sets (l.map f) = common (sets ∘ f) l := by
  simp [common]

/-- Smaller sets have less in common. -/
theorem common_mono {sets sets' : σ → Set E} {l : List σ} (h : ∀ i ∈ l, sets i ⊆ sets' i) :
    common sets l ⊆ common sets' l :=
  fun _ hx i hi => h i hi (hx i hi)

/-- The same set several times has itself in common. -/
theorem common_const {S : Set E} {l : List σ} (h : l ≠ []) : common (fun _ => S) l = S := by
  obtain ⟨i, hi⟩ := List.exists_mem_of_ne_nil l h
  exact Set.Subset.antisymm (fun _ hx => hx i hi) fun _ hx _ _ => hx

/-- An intersection denotes what its children have in common. -/
theorem denote_intersect (children : List (AbstractObject α)) :
    AbstractObject.denote plain (.combined .intersect children) =
      common (AbstractObject.denote plain) children :=
  Set.ext fun _ => AbstractObject.mem_denote_intersect plain

variable (plain) in
/-- Intersections of equally many children, taken by pairs of children. -/
theorem denote_intersect_zip {as bs : List (AbstractObject α)} (h : as.length = bs.length) :
    AbstractObject.denote plain (.combined .intersect as) =
        common (AbstractObject.denote plain ∘ Prod.fst) (as.zip bs) ∧
      AbstractObject.denote plain (.combined .intersect bs) =
        common (AbstractObject.denote plain ∘ Prod.snd) (as.zip bs) := by
  rw [denote_intersect, denote_intersect, ← common_map, ← common_map, List.map_fst_zip h.le,
    List.map_snd_zip h.ge]
  exact ⟨rfl, rfl⟩

/-- Where each of some objects narrows a set, their intersection narrows what the sets have in
common. -/
theorem narrows_collect {l : List σ} {first second : σ → Set E}
    {meet : σ → Except Fault (Met (AbstractObject α))} {met : Met (List (AbstractObject α))}
    (h : Met.collect (l.map meet) = .ok met)
    (hnarrows : ∀ i ∈ l, ∀ {m}, meet i = .ok m →
      Narrows (first i) (second i) (m.object.denote plain) m.changed) :
    Narrows (common first l) (common second l)
      (AbstractObject.denote plain (.combined .intersect met.object)) met.changed := by
  obtain ⟨mets, hmade, hmakes, rfl⟩ := Met.collect_eq_ok h
  rw [denote_intersect, common_map]
  have hwithin : common (AbstractObject.denote plain ∘ Met.object) mets ⊆ common first l := by
    intro x hx i hi
    obtain ⟨m, hm, hmeet⟩ := hmakes i hi
    exact (hnarrows i hi hmeet).within (hx m hm)
  refine ⟨?_, hwithin, fun hnone => hwithin.antisymm ?_⟩
  · intro x hx m hm
    obtain ⟨i, hi, hmeet⟩ := hmade m hm
    exact (hnarrows i hi hmeet).keeps ⟨hx.1 i hi, hx.2 i hi⟩
  · intro x hx m hm
    obtain ⟨i, hi, hmeet⟩ := hmade m hm
    have hsame := (hnarrows i hi hmeet).unchanged (by simpa using List.any_eq_false.1 hnone m hm)
    exact hsame.ge (hx i hi)

end Common

namespace AbstractObject

variable {plain : α → Set E} {P : α → Prop} {c : Comparison (Except Fault) α}

/-- An object that is said to be full is, if this is so for its plain parts. -/
theorem denote_of_isFull {o : AbstractObject α}
    (hc : ∀ {x}, P x → c.isFull x = .ok true → plain x = Set.univ) (ho : o.Consists P)
    (h : o.isFull c = .ok true) : o.denote plain = Set.univ := by
  induction ho with
  | full => rfl
  | empty => cases h
  | plain hx => exact hc hx h
  | @combined mode children _ ih =>
      rw [isFull, fold_combined] at h
      cases mode with
      | union =>
          obtain ⟨o, ho, hfull⟩ := List.mem_map.1 (exists_of_firstHit h)
          exact Set.eq_univ_of_forall fun e =>
            (mem_denote_union plain).2 ⟨o, ho, (ih o ho hfull).ge (Set.mem_univ e)⟩
      | intersect =>
          refine Set.univ_subset_iff.1 (subset_denote_intersect plain fun o ho => ?_)
          exact (ih o ho (forall_of_firstHit h _ (List.mem_map_of_mem ho))).ge

/-- An object that is said to be empty is, if this is so for its plain parts. -/
theorem denote_of_isEmpty {o : AbstractObject α}
    (hc : ∀ {x}, P x → c.isEmpty x = .ok true → plain x = ∅) (ho : o.Consists P)
    (h : o.isEmpty c = .ok true) : o.denote plain = ∅ := by
  induction ho with
  | full => cases h
  | empty => rfl
  | plain hx => exact hc hx h
  | @combined mode children _ ih =>
      rw [isEmpty, fold_combined] at h
      cases mode with
      | union =>
          refine Set.eq_empty_of_forall_notMem fun e he => ?_
          obtain ⟨o, ho, hmem⟩ := (mem_denote_union plain).1 he
          rw [ih o ho (forall_of_firstHit h _ (List.mem_map_of_mem ho))] at hmem
          exact hmem
      | intersect =>
          obtain ⟨o, ho, hempty⟩ := List.mem_map.1 (exists_of_firstHit h)
          have hpart := denote_intersect_subset plain ho
          rw [ih o ho hempty] at hpart
          exact Set.subset_empty_iff.1 hpart

end AbstractObject

namespace Conjunction

open AbstractObject

variable {shaped : α → Prop} {plain : α → Set E} {a b o : AbstractObject α}

/-- The plain parts of a conjunction have its shape. -/
theorem consists (ho : Conjunction shaped o) : o.Consists shaped := by
  induction ho with
  | full => exact .full
  | empty => exact .empty
  | plain hx => exact .plain hx
  | intersect _ _ ih => exact .combined ih

/-- What a fold that asks all children says of a conjunction is what it says of the plain parts. -/
theorem of_fold {f : ObjectFold α (Except Fault Bool)} {P : AbstractObject α → Prop}
    (hf : f.combined .intersect = firstHit false) (ho : Conjunction shaped o)
    (hfull : f.full = .ok true → P .full) (hempty : f.empty = .ok true → P .empty)
    (hplain : ∀ x, shaped x → f.plain x = .ok true → P (.plain x))
    (hall : ∀ children, children ≠ [] → (∀ o ∈ children, P o) →
      P (.combined .intersect children))
    (h : o.fold f = .ok true) : P o := by
  induction ho with
  | full => exact hfull h
  | empty => exact hempty h
  | plain hx => exact hplain _ hx h
  | @intersect children hsome _ ih =>
      rw [fold_combined, hf] at h
      refine hall children hsome fun o ho => ih o ho ?_
      exact forall_of_firstHit h _ (List.mem_map_of_mem ho)

/-- The children in a pair are conjunctions. -/
theorem of_mem_zip {as bs : List (AbstractObject α)} (has : ∀ o ∈ as, Conjunction shaped o)
    (hbs : ∀ o ∈ bs, Conjunction shaped o) {p : AbstractObject α × AbstractObject α}
    (hp : p ∈ as.zip bs) : p.1 ∈ as ∧ Conjunction shaped p.1 ∧ Conjunction shaped p.2 := by
  obtain ⟨hfirst, hsecond⟩ := List.of_mem_zip hp
  exact ⟨hfirst, has _ hfirst, hbs _ hsecond⟩

variable {c : Comparison (Except Fault) α} (hc : c.Sound plain shaped)

/-- An intersection of at least one child is a part of what all of them are parts of. -/
theorem denote_subset {children : List (AbstractObject α)} (hsome : children ≠ []) {S : Set E}
    (h : ∀ o ∈ children, o.denote plain ⊆ S) :
    AbstractObject.denote plain (.combined .intersect children) ⊆ S := by
  obtain ⟨o, ho⟩ := List.exists_mem_of_ne_nil children hsome
  exact (denote_intersect_subset plain ho).trans (h o ho)

include hc

/-- A conjunction that is said to be full is. -/
theorem denote_of_isFull (ho : Conjunction shaped o) (h : o.isFull c = .ok true) :
    o.denote plain = Set.univ :=
  AbstractObject.denote_of_isFull hc.isFull ho.consists h

/-- A conjunction that is said to be empty is. -/
theorem denote_of_isEmpty (ho : Conjunction shaped o) (h : o.isEmpty c = .ok true) :
    o.denote plain = ∅ :=
  AbstractObject.denote_of_isEmpty hc.isEmpty ho.consists h

/-- A conjunction that is said to denote the same as a plain object does. -/
theorem denote_of_equalSetPlain (ho : Conjunction shaped o) {y : α} (hy : shaped y)
    (h : o.equalSetPlain c y = .ok true) : o.denote plain = plain y := by
  refine of_fold (P := fun o => o.denote plain = plain y) rfl ho
    (fun hfull => (hc.isFull hy hfull).symm) (fun hempty => (hc.isEmpty hy hempty).symm)
    (fun x hx => hc.equalSet hx hy) ?_ h
  intro children hsome hall
  exact (denote_subset hsome fun o ho => (hall o ho).subset).antisymm
    (subset_denote_intersect plain fun o ho => (hall o ho).ge)

/-- A conjunction that is said to be a part of a plain object is. -/
theorem subset_of_subSetPlain (ho : Conjunction shaped o) {y : α} (hy : shaped y)
    (h : o.subSetPlain c y = .ok true) : o.denote plain ⊆ plain y := by
  refine of_fold (P := fun o => o.denote plain ⊆ plain y) rfl ho
    (fun hfull => (hc.isFull hy hfull).ge) (fun _ => Set.empty_subset _)
    (fun x hx => hc.subSet hx hy) ?_ h
  exact fun children hsome hall => denote_subset hsome hall

/-- A conjunction of which a plain object is said to be a part has it for a part. -/
theorem subset_of_superSetPlain (ho : Conjunction shaped o) {x : α} (hx : shaped x)
    (h : o.superSetPlain c x = .ok true) : plain x ⊆ o.denote plain := by
  refine of_fold (P := fun o => plain x ⊆ o.denote plain) rfl ho (fun _ => Set.subset_univ _)
    (fun hempty => (hc.isEmpty hx hempty).subset) (fun y hy => hc.subSet hx hy) ?_ h
  exact fun children _ hall => subset_denote_intersect plain hall

/-- Conjunctions that are said to denote the same do. -/
theorem denote_of_equalSet (ha : Conjunction shaped a) (hb : Conjunction shaped b)
    (h : a.equalSet c b = .ok true) : a.denote plain = b.denote plain := by
  induction ha generalizing b with
  | full =>
      rw [equalSet] at h
      exact (denote_of_isFull hc hb h).symm
  | empty =>
      cases hb <;> simp only [equalSet] at h
      · exact denote_of_isFull hc .empty h
      · rfl
      · next hy => exact (denote_of_isEmpty hc (.plain hy) h).symm
      · next hsome heach => exact (denote_of_isEmpty hc (.intersect hsome heach) h).symm
  | plain hx =>
      cases hb <;> simp only [equalSet] at h
      · exact denote_of_isFull hc (.plain hx) h
      · exact denote_of_isEmpty hc (.plain hx) h
      · next hy => exact hc.equalSet hx hy h
      · next hsome heach => exact (denote_of_equalSetPlain hc (.intersect hsome heach) hx h).symm
  | @intersect as hsome heach ih =>
      have ha := Conjunction.intersect hsome heach
      cases hb with
      | full =>
          simp only [equalSet] at h
          exact denote_of_isFull hc ha h
      | empty =>
          simp only [equalSet] at h
          exact denote_of_isEmpty hc ha h
      | plain hy =>
          simp only [equalSet] at h
          exact denote_of_equalSetPlain hc ha hy h
      | @intersect bs hsome' heach' =>
          simp only [equalSet] at h
          split at h
          · next hlength =>
              rw [equalSetPairs_eq] at h
              have hpairs : ∀ p ∈ as.zip bs, p.1.denote plain = p.2.denote plain := by
                intro p hp
                obtain ⟨hmem, _, hsecond⟩ := of_mem_zip heach heach' hp
                exact ih p.1 hmem hsecond (forall_pair_of_firstHit h p hp)
              rw [(denote_intersect_zip plain hlength).1, (denote_intersect_zip plain hlength).2]
              exact (common_mono fun p hp => (hpairs p hp).le).antisymm
                (common_mono fun p hp => (hpairs p hp).ge)
          · cases h

/-- A conjunction that is said to be a part of another one is. -/
theorem subset_of_subSet (ha : Conjunction shaped a) (hb : Conjunction shaped b)
    (h : a.subSet c b = .ok true) : a.denote plain ⊆ b.denote plain := by
  induction ha generalizing b with
  | full =>
      cases hb <;> simp only [subSet] at h
      · exact subset_rfl
      · exact (denote_of_isFull hc .empty h).ge
      · next hy => exact (denote_of_isFull hc (.plain hy) h).ge
      · next hsome heach => exact (denote_of_isFull hc (.intersect hsome heach) h).ge
  | empty => exact Set.empty_subset _
  | plain hx =>
      cases hb <;> simp only [subSet] at h
      · exact Set.subset_univ _
      · exact (denote_of_isEmpty hc (.plain hx) h).le
      · next hy => exact hc.subSet hx hy h
      · next hsome heach => exact subset_of_superSetPlain hc (.intersect hsome heach) hx h
  | @intersect as hsome heach ih =>
      have ha := Conjunction.intersect hsome heach
      cases hb with
      | full => exact Set.subset_univ _
      | empty =>
          simp only [subSet] at h
          exact (denote_of_isEmpty hc ha h).le
      | plain hy =>
          simp only [subSet] at h
          exact subset_of_subSetPlain hc ha hy h
      | @intersect bs hsome' heach' =>
          simp only [subSet] at h
          split at h
          · next hlength =>
              rw [subSetPairs_eq] at h
              rw [(denote_intersect_zip plain hlength).1, (denote_intersect_zip plain hlength).2]
              refine common_mono fun p hp => ?_
              obtain ⟨hmem, _, hsecond⟩ := of_mem_zip heach heach' hp
              exact ih p.1 hmem hsecond (forall_pair_of_firstHit h p hp)
          · cases h

/-- A plain object is narrowed to a conjunction. -/
theorem narrows_of_meetIntoPlain (hb : Conjunction shaped b) {x : α} (hx : shaped x)
    {met : Met (AbstractObject α)} (h : b.meetIntoPlain c x = .ok met) :
    Narrows (plain x) (b.denote plain) (met.object.denote plain) met.changed := by
  induction hb generalizing met with
  | full =>
      cases h
      exact .rfl
  | empty =>
      cases h
      exact .nothing (Set.disjoint_empty _)
  | plain hy => exact hc.meet hx hy h
  | @intersect children hsome heach ih =>
      rw [meetIntoPlain, fold_combined] at h
      obtain ⟨collected, hcollect, h⟩ := bind_eq_ok h
      cases h
      have hnarrows : Narrows (common (fun _ => plain x) children)
          (common (denote plain) children) _ collected.changed :=
        narrows_collect hcollect fun child hchild _ hmeet => ih child hchild hmeet
      rw [common_const hsome, ← denote_intersect] at hnarrows
      exact hnarrows.reported

omit hc in
variable (plain) in
/-- The children of a conjunction are met with conjunctions that denote at least what the other one
denotes. -/
theorem of_peers (hb : Conjunction shaped b) {count : Nat} {others : List (AbstractObject α)}
    (h : peers c count b = .ok others) :
    count = others.length ∧
      ∀ o ∈ others, Conjunction shaped o ∧ b.denote plain ⊆ o.denote plain := by
  unfold peers at h
  split at h
  · split at h
    · next hlength =>
        cases h
        cases hb with
        | intersect _ heach =>
            exact ⟨hlength, fun o ho => ⟨heach o ho, denote_intersect_subset plain ho⟩⟩
    · cases h
  · cases h
    refine ⟨List.length_replicate.symm, fun o ho => ?_⟩
    rw [List.eq_of_mem_replicate ho]
    exact ⟨hb, subset_rfl⟩

omit hc in
/-- Where every child is narrowed to the other object or to its peer in it, the intersection is
narrowed to the other object. -/
theorem narrows_of_peers {as : List (AbstractObject α)} (heach : ∀ o ∈ as, Conjunction shaped o)
    (hb : Conjunction shaped b) {met : Met (AbstractObject α)}
    (hchild : ∀ o ∈ as, ∀ {b}, Conjunction shaped b → ∀ {met}, o.meet c b = .ok met →
      Narrows (o.denote plain) (b.denote plain) (met.object.denote plain) met.changed)
    (h : (do
      let others ← peers c as.length b
      let met ← Met.collect (meetPairs c as others)
      pure ⟨.combined .intersect met.object, met.changed⟩) = Except.ok met) :
    Narrows (denote plain (.combined .intersect as)) (b.denote plain) (met.object.denote plain)
      met.changed := by
  obtain ⟨others, hpeers, h⟩ := bind_eq_ok h
  obtain ⟨collected, hcollect, h⟩ := bind_eq_ok h
  cases h
  obtain ⟨hlength, hothers⟩ := of_peers plain hb hpeers
  rw [meetPairs_eq, ← List.map_uncurry_zip_eq_zipWith] at hcollect
  have hnarrows : Narrows (common (denote plain ∘ Prod.fst) (as.zip others))
      (common (denote plain ∘ Prod.snd) (as.zip others))
      (denote plain (.combined .intersect collected.object)) collected.changed := by
    refine narrows_collect hcollect fun p hp _ hmeet => ?_
    obtain ⟨hmem, _, hpeer⟩ := of_mem_zip heach (fun o ho => (hothers o ho).1) hp
    exact hchild p.1 hmem hpeer hmeet
  rw [← (denote_intersect_zip plain hlength).1, ← (denote_intersect_zip plain hlength).2]
    at hnarrows
  exact hnarrows.mono (subset_denote_intersect plain fun o ho => (hothers o ho).2)

/-- A conjunction is narrowed to another one. -/
theorem narrows_of_meet (ha : Conjunction shaped a) (hb : Conjunction shaped b)
    {met : Met (AbstractObject α)} (h : a.meet c b = .ok met) :
    Narrows (a.denote plain) (b.denote plain) (met.object.denote plain) met.changed := by
  induction ha generalizing b met with
  | full =>
      rw [meet_full_left] at h
      obtain ⟨whole, hwhole, h⟩ := bind_eq_ok h
      cases h
      cases whole with
      | false => exact .everything
      | true =>
          rw [denote_of_isFull hc hb hwhole]
          exact .rfl
  | empty =>
      simp only [meet] at h
      cases h
      exact .rfl
  | plain hx =>
      cases hb <;> simp only [meet] at h
      · cases h
        exact .rfl
      · cases h
        exact .nothing (Set.disjoint_empty _)
      · next hy => exact hc.meet hx hy h
      · next hsome heach => exact narrows_of_meetIntoPlain hc (.intersect hsome heach) hx h
  | @intersect as hsome heach ih =>
      cases hb <;> simp only [meet] at h
      · cases h
        exact .rfl
      · cases h
        exact .nothing (Set.disjoint_empty _)
      · next hy => exact narrows_of_peers heach (.plain hy) ih h
      · next hsome' heach' => exact narrows_of_peers heach (.intersect hsome' heach') ih h

end Conjunction

end JointAnalysis
