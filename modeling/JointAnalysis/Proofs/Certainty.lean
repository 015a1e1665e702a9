import JointAnalysis.Proofs.Overlap
import JointAnalysis.Proofs.SetSemantics

/-!
# Certain equality and possible equality

What is certainly equal may be equal. For plain objects this is so. For combinations it depends on
the mode and on the number of children, since certain equality is settled by the children in the
opposite way: read `Mode.Binds` first. Where all combinations that are found certainly equal bind,
objects of every family that are certainly equal may be equal. For every other mode and number of
children there are combinations that are certainly equal and are said to have nothing in common.
-/

namespace JointAnalysis

variable {α β σ V R : Type}

/-- The modes and numbers of children for which certain equality is about all children. All children
of a union have to be certainly equal, and there may be none. One child of an intersection is
enough, and there may be others. -/
def Mode.Binds : Mode → Nat → Prop
  | .union, n => n ≠ 0
  | .intersect, n => n ≤ 1

instance : (mode : Mode) → (n : Nat) → Decidable (mode.Binds n)
  | .union, n => inferInstanceAs (Decidable (n ≠ 0))
  | .intersect, n => inferInstanceAs (Decidable (n ≤ 1))

/-- Wherever two objects are found certainly equal when two objects are compared, the combinations
bind, and the plain objects fit. -/
inductive Firm (c : Comparison (Except Fault) α) (fit : α → α → Prop) :
    AbstractObject α → AbstractObject α → Prop where
  | denied {a b : AbstractObject α} (h : a.mustEqual c b ≠ .ok true) : Firm c fit a b
  | plain {x y : α} (h : fit x y) : Firm c fit (.plain x) (.plain y)
  | combined_plain {mode : Mode} {children : List (AbstractObject α)} {y : α}
      (binds : mode.Binds children.length) (each : ∀ o ∈ children, Firm c fit o (.plain y)) :
      Firm c fit (.combined mode children) (.plain y)
  | plain_combined {mode : Mode} {children : List (AbstractObject α)} {x : α}
      (binds : mode.Binds children.length) (each : ∀ o ∈ children, Firm c fit o (.plain x)) :
      Firm c fit (.plain x) (.combined mode children)
  | combined {mode mode' : Mode} {as bs : List (AbstractObject α)} (binds : mode.Binds as.length)
      (pairs : ∀ p ∈ as.zip bs, Firm c fit p.1 p.2) :
      Firm c fit (.combined mode as) (.combined mode' bs)

/-- If what is certain is possible for each of some children that bind, it is for all of them
together. -/
theorem firstHit_of_binds {mode : Mode} {l : List σ} {certain possible : σ → Except Fault Bool}
    (hbinds : mode.Binds l.length) (heach : ∀ i ∈ l, certain i = .ok true → possible i = .ok true)
    (h : firstHit (!mode.isUnion) (l.map certain) = .ok true) :
    firstHit mode.isUnion (l.map possible) = .ok true := by
  cases mode with
  | union =>
      have hall : ∀ i ∈ l, possible i = .ok true := fun i hi =>
        heach i hi (forall_of_firstHit h _ (List.mem_map_of_mem hi))
      cases l with
      | nil => exact absurd rfl hbinds
      | cons first rest =>
          rw [List.map_cons, hall first List.mem_cons_self]
          rfl
  | intersect =>
      obtain ⟨i, hi, hcertain⟩ := List.mem_map.1 (exists_of_firstHit h)
      have honly : l = [i] := by
        have hlength : l.length = 1 := Nat.le_antisymm hbinds (List.length_pos_of_mem hi)
        obtain ⟨j, rfl⟩ := List.length_eq_one_iff.1 hlength
        rw [List.mem_singleton.1 hi]
      rw [honly, List.map_singleton, heach i hi hcertain]
      rfl

namespace AbstractObject

/-- An object whose plain parts were not built from a term was not built from one. -/
theorem base_eq_none [DecidableEq β] {plain : α → Option β} {o : AbstractObject α}
    (h : o.Consists (plain · = none)) : o.base plain = none := by
  induction h with
  | full => rfl
  | empty => rfl
  | plain hx => exact hx
  | @combined mode children _ ih =>
      rw [base, fold_combined]
      cases children with
      | nil => rfl
      | cons first rest =>
          have hfirst : fold _ first = none := ih first List.mem_cons_self
          simp only [List.map_cons, common?]
          split
          · exact hfirst
          · rfl

end AbstractObject

/-- Two objects are found certainly equal and are said to have nothing in common. -/
structure Clash (c : Comparison (Except Fault) α) (a b : AbstractObject α) : Prop where
  certain : a.mustEqual c b = .ok true
  impossible : a.mayEqual c b = .ok false

namespace Firm

open AbstractObject

variable {c : Comparison (Except Fault) α} {fit : α → α → Prop} {P : α → Prop}

/-- Firm objects that are certainly equal may be equal, if this is so for the plain objects that
fit. -/
theorem mayEqual_of_mustEqual {a b : AbstractObject α}
    (hc : ∀ {x y}, fit x y → P x → P y → c.mustEqual x y = .ok true → c.mayEqual x y = .ok true)
    (hab : Firm c fit a b) (ha : a.Consists P) (hb : b.Consists P)
    (h : a.mustEqual c b = .ok true) : a.mayEqual c b = .ok true := by
  induction hab with
  | denied hdenied => exact absurd h hdenied
  | plain hfit => exact hc hfit (consists_plain.1 ha) (consists_plain.1 hb) h
  | combined_plain hbinds _ ih =>
      have heach := consists_combined.1 ha
      rw [mustEqual_plain, mustEqualPlain, fold_combined] at h
      rw [mayEqual_plain, mayEqualPlain, fold_combined]
      refine firstHit_of_binds hbinds (fun o ho hmust => ?_) h
      rw [← mayEqualPlain, ← mayEqual_plain]
      exact ih o ho (heach o ho) hb (by rwa [mustEqual_plain])
  | plain_combined hbinds _ ih =>
      have heach := consists_combined.1 hb
      simp only [AbstractObject.mustEqual, mustEqualPlain, fold_combined] at h
      simp only [AbstractObject.mayEqual, mayEqualPlain, fold_combined]
      refine firstHit_of_binds hbinds (fun o ho hmust => ?_) h
      rw [← mayEqualPlain, ← mayEqual_plain]
      exact ih o ho (heach o ho) ha (by rwa [mustEqual_plain])
  | @combined _ _ as bs hbinds _ ih =>
      rw [mustEqual_combined] at h
      split at h
      · next hlength =>
          rw [mayEqual_combined c hlength]
          refine firstHit_of_binds ?_ (fun p hp => ?_) h
          · rwa [List.length_zip, ← hlength, Nat.min_self]
          · obtain ⟨hfirst, hsecond⟩ := List.of_mem_zip hp
            exact ih p hp (consists_combined.1 ha _ hfirst) (consists_combined.1 hb _ hsecond)
      · cases h

variable (c) in
/-- Where a mode does not bind some number of children, there are as many children whose combination
clashes with the combinations of the same children and with a plain object. -/
theorem exists_clash {x : α} (hcertain : c.mustEqual x x = .ok true)
    (hpossible : c.mayEqual x x = .ok true) (hx : P x) {mode : Mode} {n : Nat}
    (h : ¬mode.Binds n) :
    ∃ children : List (AbstractObject α), children.length = n ∧
      Consists P (.combined mode children) ∧
      (∀ mode', Clash c (.combined mode children) (.combined mode' children)) ∧
      Clash c (.combined mode children) (.plain x) ∧
      Clash c (.plain x) (.combined mode children) := by
  cases mode with
  | union =>
      have hnone : n = 0 := not_not.1 h
      exact ⟨[], hnone.symm, .combined (by simp), fun _ => ⟨rfl, rfl⟩, ⟨rfl, rfl⟩, ⟨rfl, rfl⟩⟩
  | intersect =>
      have hmany : 1 < n := not_le.1 h
      obtain ⟨k, rfl⟩ : ∃ k, n = k + 2 := ⟨n - 2, by omega⟩
      -- The first child is certain, and the second one denies that anything is possible.
      have hmust (rest) : firstHit true (c.mustEqual x x :: rest) = .ok true := by
        rw [hcertain]
        rfl
      have hmay (rest) : firstHit false (c.mayEqual x x :: .ok false :: rest) = .ok false := by
        rw [hpossible]
        rfl
      refine ⟨.plain x :: .empty :: .replicate k .empty, by simp, .combined ?_,
        fun mode' => ⟨?_, ?_⟩, ⟨?_, ?_⟩, ⟨?_, ?_⟩⟩
      · simp [hx, Consists.empty]
      · rw [mustEqual_combined, if_pos rfl]
        exact hmust _
      · rw [mayEqual_combined c rfl]
        exact hmay _
      · exact hmust _
      · exact hmay _
      · exact hmust _
      · exact hmay _

end Firm

/-- Sets that hold one and the same literal have it in common. -/
theorem LiteralSet.mayEqual_of_mustEqual {s t : LiteralSet} (h : s.mustEqual t = true) :
    s.mayEqual t = true := by
  obtain ⟨⟨hs, ht⟩, hall⟩ : (s.literals ≠ [] ∧ t.literals ≠ []) ∧
      ∀ l ∈ s.literals, ∀ k ∈ t.literals, l.agrees k = true := by
    simpa [mustEqual] using h
  obtain ⟨l, hl⟩ := List.exists_mem_of_ne_nil _ hs
  obtain ⟨k, hk⟩ := List.exists_mem_of_ne_nil _ ht
  exact List.any_eq_true.2 ⟨l, hl, List.any_eq_true.2 ⟨k, hk, hall l hl k hk⟩⟩

/-- Sets that hold the same single site have it in common. -/
theorem SiteSet.mayEqual_of_mustEqual {s t : SiteSet} (h : s.mustEqual t = true) :
    s.mayEqual t = true := by
  obtain ⟨hone, hnames⟩ : s.names.length = 1 ∧ s.names = t.names := by
    simpa [mustEqual] using h
  obtain ⟨name, hname⟩ := List.length_eq_one_iff.1 hone
  simp [mayEqual, ← hnames, hname]

/-- Elements of a flat lattice that are one and the same entity have it in common. -/
theorem Flat.mayEqual_of_mustEqual [DecidableEq α] {x y : Flat α} (h : x.mustEqual y = true) :
    x.mayEqual y = true := by
  cases x with
  | exactly a =>
      cases y with
      | exactly b => exact h
      | _ => cases h
  | _ => cases h

/-- The leaves of values that are certainly equal may be. -/
theorem ValueLeaf.mayEqual_of_mustEqual {x y : ValueLeaf} (h : x.mustEqual y = true) :
    x.mayEqual y = true := by
  cases x with
  | flat a _ =>
      cases y with
      | flat b _ => exact Flat.mayEqual_of_mustEqual (x := a) h
      | _ => cases h
  | literals s _ =>
      cases y with
      | literals t _ => exact LiteralSet.mayEqual_of_mustEqual (s := s) h
      | _ => cases h
  | symbol a => cases y <;> cases h

/-- The leaves of regions that are certainly equal may be. -/
theorem RegionLeaf.mayEqual_of_mustEqual {x y : RegionLeaf} (h : x.mustEqual y = true) :
    x.mayEqual y = true := by
  cases x with
  | placed a _ _ =>
      cases y with
      | placed b _ _ => exact Flat.mayEqual_of_mustEqual (x := a) h
      | _ => cases h
  | sites s _ =>
      cases y with
      | sites t _ => exact SiteSet.mayEqual_of_mustEqual (s := s) h
      | _ => cases h
  | block a =>
      cases y with
      | block b => exact h
      | _ => cases h

/-- Plain regions that are certainly equal may be. -/
theorem Storage.mayEqual_of_mustEqual {edge : EdgeId} {x y : Storage RegionLeaf}
    (h : x.mustEqual edge y = true) : x.mayEqual edge y = true := by
  cases hrelation : x.resultRelation edge y with
  | some answer =>
      simp only [mustEqual, hrelation] at h
      simpa only [mayEqual, hrelation] using h
  | none =>
      cases x with
      | result f => cases y <;> simp only [mustEqual, hrelation] at h <;> cases h
      | leaf r =>
          cases y with
          | result g =>
              simp only [mustEqual, hrelation] at h
              cases h
          | leaf s => exact RegionLeaf.mayEqual_of_mustEqual (x := r) h

section Families

variable [ValueDomain V] [RegionDomain V R] {edge : EdgeId} {family : Family}

/-- No part of a plain object was built from a term. -/
def Family.Unnamed (family : Family) : Plain V R family → Prop :=
  Plain.Consists (Storage.base · = none) (ValueDomain.base · = none) family

/-- A plain location no part of which was built from a term was not built from one. -/
theorem Cell.base_eq_none {x : Cell V R} (h : Family.Unnamed .memLoc x) : x.base = none := by
  cases x with
  | result f => rfl
  | slot s =>
      obtain ⟨region, index⟩ := s
      cases index with
      | none => exact AbstractObject.base_eq_none h.region
      | some i => rfl

/-- An object no part of which was built from a term was not built from one. -/
theorem Family.base_eq_none {o : Object V R family} (h : o.Consists family.Unnamed) :
    family.shortcuts.base o = none := by
  cases family with
  | value => exact AbstractObject.base_eq_none h
  | codeLoc => rfl
  | memRegion => exact AbstractObject.base_eq_none h
  | memLoc => exact AbstractObject.base_eq_none (h.imp fun _ => Cell.base_eq_none)

/-- Comparisons of objects no part of which was built from a term are left to them. -/
theorem AnyObject.relate_unnamed {a : Object V R family} (ha : a.Consists family.Unnamed)
    (relation : Relation) (b : Object V R family) :
    AnyObject.relate .silent edge relation ⟨family, a⟩ ⟨family, b⟩ =
      a.relate (family.own edge) relation b :=
  AnyObject.relate_silent fun _ => Shortcuts.sameBase_eq_false (Family.base_eq_none ha) b

/-- The regions and the indexes in two plain objects are firm at an edge. -/
def Family.FirmParts (edge : EdgeId) (family : Family) :
    Plain V R family → Plain V R family → Prop :=
  Plain.Related (Firm (MemRegion.comparison edge) fun _ _ => True)
    (Firm (Value.comparison edge) fun _ _ => True) family

/-- Slots may be equal if their regions may be and, where both have one, their indexes. -/
theorem Slot.mayEqual_of_parts {s t : Slot V R}
    (hregion : s.region.mayEqual (MemRegion.comparison (m := Except Fault) edge) t.region =
      .ok true)
    (hindex : ∀ i j, s.index = some i → t.index = some j →
      i.mayEqual (Value.comparison (m := Except Fault) edge) j = .ok true) :
    Slot.mayEqual (m := Except Fault) .silent edge s t = .ok true := by
  rw [Slot.mayEqual, Slot.relateRegions_silent (by simp), AbstractObject.relate, hregion]
  cases hi : s.index with
  | none => rfl
  | some i =>
      cases hj : t.index with
      | none => rfl
      | some j =>
          change Slot.relateIndexes (m := Except Fault) (R := R) .silent edge .mayEqual i j = _
          rw [Slot.relateIndexes_silent (by simp)]
          exact hindex i j hi hj

end Families

section Leaves

variable {edge : EdgeId} {family : Family}

/-- Slots with firm parts that are certainly equal may be. -/
theorem Slot.mayEqual_of_mustEqual {s t : Slot ValueLeaf RegionLeaf}
    (hst : s.Related (Firm (MemRegion.comparison edge) fun _ _ => True)
      (Firm (Value.comparison edge) fun _ _ => True) t)
    (hs : s.Consists (Storage.base · = none) (ValueDomain.base · = none))
    (ht : t.Consists (Storage.base · = none) (ValueDomain.base · = none))
    (h : Slot.mustEqual (m := Except Fault) .silent edge s t = .ok true) :
    Slot.mayEqual (m := Except Fault) .silent edge s t = .ok true := by
  obtain ⟨hregion, hindex⟩ := both_of_ok h
  refine Slot.mayEqual_of_parts ?_ fun i j hi hj => ?_
  · rw [Slot.relateRegions_silent fun _ =>
      Shortcuts.sameBase_eq_false (AbstractObject.base_eq_none hs.region) _] at hregion
    exact hst.region.mayEqual_of_mustEqual
      (fun _ _ _ hxy => congrArg Except.ok (Storage.mayEqual_of_mustEqual (Except.ok.inj hxy)))
      hs.region ht.region hregion
  · simp only [hi, hj] at hindex
    rw [Slot.relateIndexes_silent fun _ =>
      Shortcuts.sameBase_eq_false (AbstractObject.base_eq_none (hs.index i hi)) _] at hindex
    exact (hst.index i j hi hj).mayEqual_of_mustEqual
      (fun _ _ _ hxy => congrArg Except.ok (ValueLeaf.mayEqual_of_mustEqual (Except.ok.inj hxy)))
      (hs.index i hi) (ht.index j hj) hindex

/-- Plain locations with firm parts that are certainly equal may be. -/
theorem Cell.mayEqual_of_mustEqual {x y : Cell ValueLeaf RegionLeaf}
    (hxy : Family.FirmParts edge .memLoc x y) (hx : Family.Unnamed .memLoc x)
    (hy : Family.Unnamed .memLoc y)
    (h : Cell.relate edge (Slot.mustEqual (m := Except Fault) .silent edge) x y = .ok true) :
    Cell.relate edge (Slot.mayEqual (m := Except Fault) .silent edge) x y = .ok true := by
  rw [Cell.relate] at h ⊢
  split at h
  · exact h
  · exact Slot.mayEqual_of_mustEqual hxy hx hy h

/-- Plain objects of every family that are certainly equal may be. -/
theorem Family.mayEqual_of_mustEqual {x y : Plain ValueLeaf RegionLeaf family}
    (hxy : family.FirmParts edge x y) (hx : family.Unnamed x) (hy : family.Unnamed y)
    (h : (family.own edge).mustEqual x y = .ok true) :
    (family.own edge).mayEqual x y = .ok true := by
  cases family with
  | value => exact congrArg Except.ok (ValueLeaf.mayEqual_of_mustEqual (Except.ok.inj h))
  | codeLoc =>
      obtain ⟨-, hsame⟩ := Bool.and_eq_true_iff.1 (Except.ok.inj h)
      obtain rfl : x = y := of_decide_eq_true hsame
      have hself : ∀ {β : Type} [DecidableEq β] (field : Option β),
          CodePoint.overlap field field = true := by
        intro β _ field
        cases field <;> simp [CodePoint.overlap]
      exact congrArg Except.ok (Bool.and_eq_true_iff.2 ⟨hself x.part, hself x.term⟩)
  | memRegion => exact congrArg Except.ok (Storage.mayEqual_of_mustEqual (Except.ok.inj h))
  | memLoc => exact Cell.mayEqual_of_mustEqual hxy hx hy h

/-- Every family has a plain object that is certainly equal to itself. -/
theorem Family.exists_certain (edge : EdgeId) (family : Family) :
    ∃ x : Plain ValueLeaf RegionLeaf family, family.Unnamed x ∧
      (family.own edge).mustEqual x x = .ok true ∧ (family.own edge).mayEqual x x = .ok true := by
  cases family with
  | value => exact ⟨.flat (.exactly 0) none, rfl, rfl, rfl⟩
  | codeLoc => exact ⟨⟨some ⟨0⟩, some ⟨0⟩⟩, trivial, rfl, rfl⟩
  | memRegion => exact ⟨.leaf (.placed (.exactly "heap") true none), rfl, rfl, rfl⟩
  | memLoc =>
      exact ⟨.slot ⟨MemRegion.named "heap", none⟩, ⟨.plain rfl, by rintro _ ⟨⟩⟩, rfl, rfl⟩

/-- Objects of every family no part of which was built from a term may be equal if they are
certainly equal and firm, whether they are asked themselves or through an arbiter who answers
nothing. Nothing follows for combinations that do not bind: for each such mode and number of
children some of them clash with combinations of either mode and with a plain object. -/
theorem Family.certain_is_possible (edge : EdgeId) (family : Family) :
    (∀ {a b : Object ValueLeaf RegionLeaf family}, a.Consists family.Unnamed →
      b.Consists family.Unnamed → Firm (family.own edge) (family.FirmParts edge) a b →
      (a.mustEqual (family.own edge) b = .ok true → a.mayEqual (family.own edge) b = .ok true) ∧
      (AnyObject.relate (m := Except Fault) .silent edge .mustEqual ⟨family, a⟩ ⟨family, b⟩ =
          .ok true →
        AnyObject.relate (m := Except Fault) .silent edge .mayEqual ⟨family, a⟩ ⟨family, b⟩ =
          .ok true)) ∧
    ∀ {mode : Mode} {n : Nat}, ¬mode.Binds n →
      ∃ (x : Plain ValueLeaf RegionLeaf family)
          (children : List (Object ValueLeaf RegionLeaf family)),
        children.length = n ∧ family.Unnamed x ∧
        AbstractObject.Consists family.Unnamed (.combined mode children) ∧
        (∀ mode', Clash (family.own edge) (.combined mode children) (.combined mode' children)) ∧
        Clash (family.own edge) (.combined mode children) (.plain x) ∧
        Clash (family.own edge) (.plain x) (.combined mode children) := by
  refine ⟨fun {a b} ha hb hab => ?_, fun hbinds => ?_⟩
  · have hpossible := hab.mayEqual_of_mustEqual Family.mayEqual_of_mustEqual ha hb
    rw [AnyObject.relate_unnamed ha, AnyObject.relate_unnamed ha]
    exact ⟨hpossible, hpossible⟩
  · obtain ⟨x, hx, hcertain, hpossible⟩ := Family.exists_certain edge family
    obtain ⟨children, hlength, hclash⟩ :=
      Firm.exists_clash (family.own edge) hcertain hpossible hx hbinds
    exact ⟨x, children, hlength, hx, hclash⟩

/-- An intersection is certainly equal to one of two constants and has nothing in common with it. -/
example : Clash (Family.own .value ⟨0⟩) (Interpretation.constants .intersect [1, 2])
    (Value.constant 1) := ⟨rfl, rfl⟩

/-- A slot of the heap or else the result of a function. -/
def heapOrResult : Object ValueLeaf RegionLeaf .memLoc :=
  .combined .union [.plain (.slot ⟨MemRegion.named "heap", some (Value.constant 3)⟩),
    .combined .intersect [.plain (.result ⟨"main"⟩)]]

/-- This location is certainly equal to itself, and so it may be. -/
theorem heapOrResult_possible :
    heapOrResult.mustEqual (Family.own .memLoc ⟨0⟩) heapOrResult = .ok true ∧
      heapOrResult.mayEqual (Family.own .memLoc ⟨0⟩) heapOrResult = .ok true := by
  have hunnamed : heapOrResult.Consists (Family.Unnamed .memLoc) := by
    refine .combined (List.forall_mem_cons.2 ⟨.plain ⟨.plain rfl, ?_⟩, List.forall_mem_singleton.2
      (.combined (List.forall_mem_singleton.2 (.plain ⟨.plain rfl, ?_⟩)))⟩)
    · rintro _ ⟨⟩
      exact .plain rfl
    · rintro _ ⟨⟩
  have hslot : Family.FirmParts (V := ValueLeaf) ⟨0⟩ .memLoc
      (.slot ⟨MemRegion.named "heap", some (Value.constant 3)⟩)
      (.slot ⟨MemRegion.named "heap", some (Value.constant 3)⟩) := by
    refine ⟨.plain trivial, ?_⟩
    rintro _ _ ⟨⟩ ⟨⟩
    exact .plain trivial
  have hresult : Family.FirmParts (V := ValueLeaf) (R := RegionLeaf) ⟨0⟩ .memLoc (.result ⟨"main"⟩)
      (.result ⟨"main"⟩) :=
    ⟨.plain trivial, by rintro _ _ ⟨⟩⟩
  have hfirm : Firm (Family.own .memLoc ⟨0⟩) (Family.FirmParts ⟨0⟩ .memLoc) heapOrResult
      heapOrResult :=
    .combined (by decide) (List.forall_mem_cons.2 ⟨.plain hslot, List.forall_mem_singleton.2
      (.combined (by decide) (List.forall_mem_singleton.2 (.plain hresult)))⟩)
  exact ⟨rfl, ((Family.certain_is_possible ⟨0⟩ .memLoc).1 hunnamed hunnamed hfirm).1 rfl⟩

end Leaves

end JointAnalysis
