import JointAnalysis.Proofs.Literal
import JointAnalysis.Proofs.ResultPlace
import JointAnalysis.Proofs.Routing
import Mathlib.Data.List.Zip

/-!
# The order of two objects

Comparisons ought not to depend on which of two objects is asked about the other. If they do not
for leaves (`SymmetricLeaves`), then whether two objects of a family denote the same set does not,
faults included. Whether they may be or certainly are equal is settled by the mode of the object
that is asked, so the order makes no difference where all combinations have one mode. Both follow
from one induction over pairs of objects: `AbstractObject.comm_of_shapes`.
-/

namespace JointAnalysis

variable {α β σ V R L : Type}

/-- Combinations of one mode, with any number of children. -/
def Mode.Only (mode : Mode) : Mode → Nat → Prop := fun mode' _ => mode' = mode

section Answers

variable {hit : Bool} {x x' y y' : Except Fault Bool}

/-- Two questions have the same answer or end in a fault each. -/
theorem eq_or_errors (h : x.toOption = x'.toOption) :
    x = x' ∨ ∃ fault fault', x = .error fault ∧ x' = .error fault' := by
  cases x with
  | error fault =>
      cases x' with
      | error fault' => exact .inr ⟨fault, fault', rfl, rfl⟩
      | ok answer' => cases h
  | ok answer =>
      cases x' with
      | error fault' => cases h
      | ok answer' => exact .inl (congrArg Except.ok (Option.some.inj h))

/-- Whom one asks in turn makes no difference if their answers are the same up to faults. -/
theorem toOption_firstHit {l : List σ} {ask ask' : σ → Except Fault Bool}
    (h : ∀ i ∈ l, (ask i).toOption = (ask' i).toOption) :
    (firstHit hit (l.map ask)).toOption = (firstHit hit (l.map ask')).toOption := by
  induction l with
  | nil => rfl
  | cons i rest ih =>
      obtain ⟨hfirst, hrest⟩ := List.forall_mem_cons.1 h
      rw [List.map_cons, List.map_cons, firstHit, firstHit]
      rcases eq_or_errors hfirst with hsame | ⟨_, _, hfault, hfault'⟩
      · rw [hsame]
        cases ask' i with
        | error fault => rfl
        | ok answer =>
            by_cases hanswer : answer = hit
            · simp [hanswer, bind, Except.bind]
            · simpa [hanswer, bind, Except.bind] using ih hrest
      · rw [hfault, hfault']
        rfl

/-- A question that is asked only after another one was granted has the same answer up to faults if
both have. -/
theorem toOption_both (hx : x.toOption = x'.toOption) (hy : y.toOption = y'.toOption) :
    Except.toOption (do if ← x then y else pure false) =
      Except.toOption (do if ← x' then y' else pure false) := by
  rcases eq_or_errors hx with rfl | ⟨_, _, rfl, rfl⟩
  · cases x with
    | error fault => rfl
    | ok answer =>
        cases answer with
        | false => rfl
        | true => exact hy
  · rfl

/-- What is made of the pairs of two lists does not depend on the order of the lists if it does not
for each pair. -/
theorem map_zip_comm {f : α → α → β} {as bs : List α} (h : ∀ p ∈ as.zip bs, f p.1 p.2 = f p.2 p.1) :
    ((as.zip bs).map fun p => f p.1 p.2) = (bs.zip as).map fun p => f p.1 p.2 := by
  rw [← List.zip_swap as bs, List.map_map]
  exact List.map_congr_left h

end Answers

namespace AbstractObject

variable {kind : Mode → Nat → Prop} {P : α → Prop}

/-- What is made of two objects does not depend on their order if it does not for the two built-in
objects and for plain objects, and for combinations as soon as it does not for the pairs of their
children. -/
theorem comm_of_shapes {f : AbstractObject α → AbstractObject α → β}
    (hfull : ∀ o, f .full o = f o .full) (hempty : ∀ o, f .empty o = f o .empty)
    (hplain : ∀ {x y}, P x → P y → f (.plain x) (.plain y) = f (.plain y) (.plain x))
    (hchildren : ∀ x mode children,
      f (.plain x) (.combined mode children) = f (.combined mode children) (.plain x))
    (hpairs : ∀ {mode mode' as bs}, kind mode as.length → kind mode' bs.length →
      (∀ p ∈ as.zip bs, f p.1 p.2 = f p.2 p.1) →
      f (.combined mode as) (.combined mode' bs) = f (.combined mode' bs) (.combined mode as))
    {a b : AbstractObject α} (ha : a.Built kind P) (hb : b.Built kind P) : f a b = f b a := by
  induction ha generalizing b with
  | full => exact hfull b
  | empty => exact hempty b
  | plain hx =>
      cases hb with
      | full => exact (hfull _).symm
      | empty => exact (hempty _).symm
      | plain hy => exact hplain hx hy
      | combined _ _ => exact hchildren _ _ _
  | combined hkind _ ih =>
      cases hb with
      | full => exact (hfull _).symm
      | empty => exact (hempty _).symm
      | plain _ => exact (hchildren _ _ _).symm
      | combined hkind' heach =>
          refine hpairs hkind hkind' fun p hp => ?_
          obtain ⟨hfirst, hsecond⟩ := List.of_mem_zip hp
          exact ih p.1 hfirst (heach p.2 hsecond)

end AbstractObject

/-- Plain objects with a property compare alike in either order. Whether they denote the same set
may end in a fault, and then it does so in either order. -/
structure Comparison.Symmetric (c : Comparison (Except Fault) α) (P : α → Prop) : Prop where
  mayEqual : ∀ {x y}, P x → P y → c.mayEqual x y = c.mayEqual y x
  mustEqual : ∀ {x y}, P x → P y → c.mustEqual x y = c.mustEqual y x
  equalSet : ∀ x y, (c.equalSet x y).toOption = (c.equalSet y x).toOption

namespace Comparison.Symmetric

open AbstractObject

variable {c : Comparison (Except Fault) α} {P : α → Prop} (hc : c.Symmetric P)

include hc

/-- Whether two objects denote the same set does not depend on their order. -/
theorem equalSet_comm (a b : AbstractObject α) :
    (a.equalSet c b).toOption = (b.equalSet c a).toOption := by
  have hany : ∀ o : AbstractObject α, o.Built (fun _ _ => True) fun _ => True :=
    .of_all (fun _ _ => trivial) fun _ => trivial
  refine comm_of_shapes (f := fun a b => (a.equalSet c b).toOption) ?_ ?_
    (fun _ _ => hc.equalSet _ _) (fun _ _ _ => rfl) ?_ (hany a) (hany b)
  · intro o
    cases o <;> rfl
  · intro o
    cases o <;> rfl
  · intro mode mode' as bs _ _ hpairs
    rw [equalSet_combined, equalSet_combined]
    by_cases hlength : as.length = bs.length
    · rw [if_pos hlength, if_pos hlength.symm, ← List.zip_swap as bs, List.map_map]
      exact toOption_firstHit hpairs
    · rw [if_neg hlength, if_neg (Ne.symm hlength)]
      rfl

variable {mode : Mode} {a b : AbstractObject α} (ha : a.Built mode.Only P)
  (hb : b.Built mode.Only P)

include ha hb

/-- Whether two objects may be equal does not depend on their order if all combinations in them have
one mode. -/
theorem mayEqual_comm : a.mayEqual c b = b.mayEqual c a := by
  refine comm_of_shapes ?_ ?_ hc.mayEqual (fun _ _ _ => rfl) ?_ ha hb
  · intro o
    cases o <;> rfl
  · intro o
    cases o <;> rfl
  · rintro _ _ as bs rfl rfl hpairs
    by_cases hlength : as.length = bs.length
    · rw [mayEqual_combined c hlength, mayEqual_combined c hlength.symm, map_zip_comm hpairs]
    · rw [AbstractObject.mayEqual, if_neg hlength, AbstractObject.mayEqual,
        if_neg (Ne.symm hlength)]

/-- Whether two objects certainly are equal does not depend on their order if all combinations in
them have one mode. -/
theorem mustEqual_comm : a.mustEqual c b = b.mustEqual c a := by
  refine comm_of_shapes ?_ ?_ hc.mustEqual (fun _ _ _ => rfl) ?_ ha hb
  · intro o
    cases o <;> rfl
  · intro o
    cases o <;> rfl
  · rintro _ _ as bs rfl rfl hpairs
    rw [mustEqual_combined, mustEqual_combined]
    by_cases hlength : as.length = bs.length
    · rw [if_pos hlength, if_pos hlength.symm, map_zip_comm hpairs]
    · rw [if_neg hlength, if_neg (Ne.symm hlength)]

end Comparison.Symmetric

/-- An object denotes the same set as itself if plain objects do. -/
theorem AbstractObject.equalSet_self {c : Comparison (Except Fault) α}
    (hc : ∀ x, c.equalSet x x = .ok true) (o : AbstractObject α) : o.equalSet c o = .ok true := by
  induction o using byChildren with
  | full => rfl
  | empty => rfl
  | plain x => exact hc x
  | combined mode children ih =>
      rw [equalSet_combined, if_pos rfl]
      refine firstHit_of_forall fun ask hask => ?_
      obtain ⟨p, hp, rfl⟩ := List.mem_map.1 hask
      rw [List.zip, List.zipWith_self] at hp
      obtain ⟨o, ho, rfl⟩ := List.mem_map.1 hp
      exact ih o ho

/-- Leaves compare alike in either order. -/
structure LeafSymmetry (mayEqual mustEqual equalSet : L → L → Bool) : Prop where
  mayEqual : ∀ x y, mayEqual x y = mayEqual y x
  mustEqual : ∀ x y, mustEqual x y = mustEqual y x
  equalSet : ∀ x y, equalSet x y = equalSet y x

/-- The leaves of values and of regions compare alike in either order at an edge. -/
structure SymmetricLeaves (V R : Type) [ValueDomain V] [RegionDomain V R] (edge : EdgeId) :
    Prop where
  value : LeafSymmetry (ValueDomain.mayEqual (V := V) edge) (ValueDomain.mustEqual edge)
    (ValueDomain.equalSet edge)
  region : LeafSymmetry (RegionDomain.mayEqual (R := R) edge) (RegionDomain.mustEqual edge)
    (RegionDomain.equalSet edge)

/-- The leaves of values and of regions denote the same sets as themselves at an edge. -/
structure ReflexiveLeaves (V R : Type) [ValueDomain V] [RegionDomain V R] (edge : EdgeId) :
    Prop where
  value : ∀ x : V, ValueDomain.equalSet edge x x = true
  region : ∀ r : R, RegionDomain.equalSet edge r r = true

/-- Places compare alike in either order. -/
theorem CodeLoc.symmetric : (CodeLoc.comparison (m := Except Fault)).Symmetric fun _ => True := by
  have hfield : ∀ {β : Type} [DecidableEq β] (x y : Option β),
      CodePoint.overlap x y = CodePoint.overlap y x := by
    intro β _ x y
    cases x <;> cases y <;> simp [CodePoint.overlap, eq_comm]
  refine ⟨fun {x y} _ _ => ?_, fun {x y} _ _ => ?_, fun x y => ?_⟩
  · exact congrArg Except.ok (congrArg₂ and (hfield x.part y.part) (hfield x.term y.term))
  · refine congrArg Except.ok ?_
    by_cases hsame : x = y
    · rw [hsame]
    · simp [hsame, Ne.symm hsame]
  · exact congrArg some (decide_eq_decide.2 eq_comm)

/-- Plain regions are compared alike in either order if leaves are, and if a result and a leaf are
where function results leave it open how they relate. -/
theorem Storage.comm_of_leaves [RegionDomain V R] (edge : EdgeId)
    {ask : Storage R → Storage R → Bool}
    (hrelated : ∀ {x y answer}, x.resultRelation edge y = some answer → ask x y = answer)
    (hopen : ∀ f r, resultRelation edge (.result f) (.leaf r) = none →
      resultRelation edge (.leaf r) (.result f) = none →
      ask (.result f) (.leaf r) = ask (.leaf r) (.result f))
    (hleaf : ∀ r s, ask (.leaf r) (.leaf s) = ask (.leaf s) (.leaf r)) (x y : Storage R) :
    ask x y = ask y x := by
  have hcomm : x.resultRelation edge y = y.resultRelation edge x := x.resultRelation_comm y
  cases hrelation : x.resultRelation edge y with
  | some answer => rw [hrelated hrelation, hrelated (hcomm.symm.trans hrelation)]
  | none =>
      cases x with
      | result f =>
          cases y with
          | result g => cases hrelation
          | leaf r => exact hopen f r hrelation (hcomm.symm.trans hrelation)
      | leaf r =>
          cases y with
          | result g => exact (hopen g r (hcomm.symm.trans hrelation) hrelation).symm
          | leaf s => exact hleaf r s

variable [ValueDomain V] [RegionDomain V R] {edge : EdgeId} {family : Family}

/-- Certain equality that is asked through the arbiter does not depend on the order of two objects
if it does not when they are asked themselves. -/
theorem Family.routed_comm (family : Family) {a b : Object V R family}
    (hab : a.mustEqual (family.own edge) b = b.mustEqual (family.own edge) a) :
    family.shortcuts.relate .silent edge (family.own edge) .mustEqual a b =
      family.shortcuts.relate .silent edge (family.own edge) .mustEqual b a := by
  obtain ⟨certain, h⟩ := (Family.settled edge family).mustEqual_ok a b
  obtain ⟨empty, ha⟩ := (Family.settled edge family).isEmpty_ok a
  obtain ⟨empty', hb⟩ := (Family.settled edge family).isEmpty_ok b
  rw [Family.mustEqual_silent h ha hb, Family.mustEqual_silent (hab.symm.trans h) hb ha,
    Shortcuts.sameBase_comm, Bool.and_right_comm]

/-- Whether two slots may be or certainly are equal does not depend on their order if it does not
for their regions and their indexes. -/
theorem Slot.relate_comm {relation : Relation} {s t : Slot V R}
    (hrelation : relation = .mayEqual ∨ relation = .mustEqual)
    (hregions : relateRegions (.silent : Arbiter (Except Fault) V R) edge relation s.region
      t.region = relateRegions .silent edge relation t.region s.region)
    (hindexes : ∀ i j, s.index = some i → t.index = some j →
      relateIndexes (.silent : Arbiter (Except Fault) V R) edge relation i j =
        relateIndexes (.silent : Arbiter (Except Fault) V R) edge relation j i) :
    Slot.relate edge relation s t = Slot.relate edge relation t s := by
  obtain ⟨region, index⟩ := s
  obtain ⟨region', index'⟩ := t
  rcases hrelation with rfl | rfl
  · simp only [Slot.relate, Slot.mayEqual, hregions]
    cases index with
    | none => cases index' <;> rfl
    | some i =>
        cases index' with
        | none => rfl
        | some j => simp only [hindexes i j rfl rfl]
  · simp only [Slot.relate, Slot.mustEqual, hregions]
    cases index with
    | none => cases index' <;> rfl
    | some i =>
        cases index' with
        | none => rfl
        | some j => simp only [hindexes i j rfl rfl]

namespace SymmetricLeaves

variable (h : SymmetricLeaves V R edge)

include h

/-- The leaves of values compare alike in either order. -/
theorem values : (Value.comparison (m := Except Fault) (V := V) edge).Symmetric fun _ => True where
  mayEqual _ _ := congrArg Except.ok (h.value.mayEqual _ _)
  mustEqual _ _ := congrArg Except.ok (h.value.mustEqual _ _)
  equalSet _ _ := congrArg some (h.value.equalSet _ _)

/-- Plain regions compare alike in either order. -/
theorem regions :
    (MemRegion.comparison (m := Except Fault) (R := R) edge).Symmetric fun _ => True where
  mayEqual _ _ := by
    refine congrArg Except.ok (Storage.comm_of_leaves edge ?_ ?_ h.region.mayEqual _ _)
    · exact fun hrelation => by simp only [Storage.mayEqual, hrelation]
    · exact fun f r hopen hopen' => by simp only [Storage.mayEqual, hopen, hopen']
  mustEqual _ _ := by
    refine congrArg Except.ok (Storage.comm_of_leaves edge ?_ ?_ h.region.mustEqual _ _)
    · exact fun hrelation => by simp only [Storage.mustEqual, hrelation]
    · exact fun f r hopen hopen' => by simp only [Storage.mustEqual, hopen, hopen']
  equalSet _ _ := by
    refine congrArg some (Storage.comm_of_leaves edge ?_ ?_ h.region.equalSet _ _)
    · exact fun hrelation => by simp only [Storage.equalSet, hrelation]
    · exact fun f r hopen hopen' => by simp only [Storage.equalSet, hopen, hopen']

/-- Whether two slots denote the same set does not depend on their order. -/
theorem slots_equalSet (s t : Slot V R) :
    (Slot.relate edge .equalSet s t).toOption = (Slot.relate edge .equalSet t s).toOption := by
  refine toOption_both ?_ ?_
  · rw [Slot.relateRegions_silent (by simp), Slot.relateRegions_silent (by simp)]
    exact h.regions.equalSet_comm s.region t.region
  · cases s.index with
    | none => cases t.index <;> rfl
    | some i =>
        cases t.index with
        | none => rfl
        | some j =>
            show (Slot.relateIndexes (.silent : Arbiter (Except Fault) V R) edge .equalSet i
                j).toOption =
              (Slot.relateIndexes (.silent : Arbiter (Except Fault) V R) edge .equalSet j
                i).toOption
            rw [Slot.relateIndexes_silent (by simp), Slot.relateIndexes_silent (by simp)]
            exact h.values.equalSet_comm i j

/-- Whether two slots may be equal does not depend on their order if all combinations in them have
one mode. -/
theorem slots_mayEqual {mode : Mode} {s t : Slot V R} (hs : s.Built mode.Only)
    (ht : t.Built mode.Only) : Slot.relate edge .mayEqual s t = Slot.relate edge .mayEqual t s := by
  refine Slot.relate_comm (.inl rfl) ?_ fun i j hi hj => ?_
  · rw [Slot.relateRegions_silent (by simp), Slot.relateRegions_silent (by simp)]
    exact h.regions.mayEqual_comm hs.region ht.region
  · rw [Slot.relateIndexes_silent (by simp), Slot.relateIndexes_silent (by simp)]
    exact h.values.mayEqual_comm (hs.index i hi) (ht.index j hj)

/-- Whether two slots certainly are equal does not depend on their order if all combinations in them
have one mode. -/
theorem slots_mustEqual {mode : Mode} {s t : Slot V R} (hs : s.Built mode.Only)
    (ht : t.Built mode.Only) :
    Slot.relate edge .mustEqual s t = Slot.relate edge .mustEqual t s := by
  refine Slot.relate_comm (.inr rfl) ?_ fun i j hi hj => ?_
  · exact Family.routed_comm .memRegion (h.regions.mustEqual_comm hs.region ht.region)
  · exact Family.routed_comm .value (h.values.mustEqual_comm (hs.index i hi) (ht.index j hj))

/-- Plain locations compare alike in either order if all combinations in them have one mode. -/
theorem locs (mode : Mode) :
    (MemLoc.comparison (.silent : Arbiter (Except Fault) V R) edge).Symmetric
      (Plain.Built mode.Only .memLoc) where
  mayEqual {x y} hx hy := by
    have hslots := h.slots_mayEqual hx hy
    rw [← Cell.relate_slots, ← Cell.relate_slots] at hslots
    exact hslots
  mustEqual {x y} hx hy := by
    have hslots := h.slots_mustEqual hx hy
    rw [← Cell.relate_slots, ← Cell.relate_slots] at hslots
    exact hslots
  equalSet x y := by
    have hslots := h.slots_equalSet x.toSlot y.toSlot
    rw [← Cell.relate_slots, ← Cell.relate_slots] at hslots
    exact hslots

/-- The plain objects of every family compare alike in either order if all combinations in them have
one mode. -/
theorem plain (family : Family) (mode : Mode) :
    (Family.own (V := V) (R := R) family edge).Symmetric (Plain.Built mode.Only family) := by
  cases family with
  | value => exact h.values
  | codeLoc => exact CodeLoc.symmetric
  | memRegion => exact h.regions
  | memLoc => exact h.locs mode

end SymmetricLeaves

namespace ReflexiveLeaves

variable (h : ReflexiveLeaves V R edge)

include h

/-- A plain region denotes the same set as itself. -/
theorem storage (x : Storage R) : x.equalSet edge x = true := by
  cases x with
  | result f => simp [Storage.equalSet, Storage.resultRelation]
  | leaf r => exact h.region r

/-- A slot denotes the same set as itself. -/
theorem slot (s : Slot V R) : Slot.relate edge .equalSet s s = .ok true := by
  have hregion : Slot.relateRegions (.silent : Arbiter (Except Fault) V R) edge .equalSet s.region
      s.region = .ok true := by
    rw [Slot.relateRegions_silent (by simp)]
    exact AbstractObject.equalSet_self (fun x => congrArg Except.ok (h.storage x)) s.region
  simp only [Slot.relate, Slot.equalSet, hregion]
  cases s.index with
  | none => rfl
  | some i =>
      show Slot.relateIndexes (.silent : Arbiter (Except Fault) V R) edge .equalSet i i = .ok true
      rw [Slot.relateIndexes_silent (by simp)]
      exact AbstractObject.equalSet_self (fun x => congrArg Except.ok (h.value x)) i

/-- A plain object of any family denotes the same set as itself. -/
theorem plain (x : Plain V R family) : (family.own edge).equalSet x x = .ok true := by
  cases family with
  | value => exact congrArg Except.ok (h.value x)
  | codeLoc => exact congrArg Except.ok (decide_eq_true rfl)
  | memRegion => exact congrArg Except.ok (h.storage x)
  | memLoc => exact (Cell.relate_slots .equalSet x x).trans (h.slot x.toSlot)

end ReflexiveLeaves

/-- A way to compare the objects of a family does not favour one of two objects. -/
structure Impartial (family : Family)
    (ask : Relation → Object V R family → Object V R family → Except Fault Bool) : Prop where
  /-- An object denotes the same set as itself. -/
  self : ∀ a, ask .equalSet a a = .ok true
  /-- Two objects denote the same set in either order, or not, or cannot be compared. -/
  sets : ∀ a b, (ask .equalSet a b).toOption = (ask .equalSet b a).toOption
  /-- Two objects in which all combinations have one mode may be equal in either order, or not. -/
  possible : ∀ {mode : Mode} {a b}, family.Built mode.Only a → family.Built mode.Only b →
    ask .mayEqual a b = ask .mayEqual b a
  /-- They certainly are equal in either order, or not. -/
  certain : ∀ {mode : Mode} {a b}, family.Built mode.Only a → family.Built mode.Only b →
    ask .mustEqual a b = ask .mustEqual b a

/-- If leaves compare alike in either order and denote the same sets as themselves, the objects of
every family compare impartially, whether they are asked themselves or through an arbiter who
answers nothing. -/
theorem SymmetricLeaves.impartial (h : SymmetricLeaves V R edge) (hself : ReflexiveLeaves V R edge)
    (family : Family) :
    Impartial (V := V) (R := R) family
      (fun relation a b => a.relate (family.own edge) relation b) ∧
    Impartial (V := V) (R := R) family
      (fun relation a b => AnyObject.relate .silent edge relation ⟨family, a⟩ ⟨family, b⟩) := by
  have hown : Impartial (V := V) (R := R) family
      (fun relation a b => a.relate (family.own edge) relation b) :=
    ⟨AbstractObject.equalSet_self hself.plain, (h.plain family .union).equalSet_comm,
      (h.plain family _).mayEqual_comm, (h.plain family _).mustEqual_comm⟩
  refine ⟨hown, fun a => ?_, fun a b => ?_, fun {mode a b} ha hb => ?_, fun {mode a b} ha hb => ?_⟩
  · rw [AnyObject.relate_silent (by simp)]
    exact hown.self a
  · rw [AnyObject.relate_silent (by simp), AnyObject.relate_silent (by simp)]
    exact hown.sets a b
  · rw [AnyObject.relate_silent (by simp), AnyObject.relate_silent (by simp)]
    exact hown.possible ha hb
  · rw [AnyObject.relate_family, AnyObject.relate_family]
    exact family.routed_comm (hown.certain ha hb)

/-- Combinations of different modes may be equal in one order and not in the other. -/
example :
    AbstractObject.mayEqual (m := Except Fault) (Value.comparison ⟨0⟩)
        (.combined .union [Value.constant 1, Value.constant 2])
        (.combined .intersect [Value.constant 1, Value.constant 3]) = .ok true ∧
      AbstractObject.mayEqual (m := Except Fault) (Value.comparison ⟨0⟩)
        (.combined .intersect [Value.constant 1, Value.constant 3])
        (.combined .union [Value.constant 1, Value.constant 2]) = .ok false :=
  ⟨rfl, rfl⟩

section Leaves

/-- Elements of a flat lattice have a common entity in either order. -/
theorem Flat.mayEqual_comm [DecidableEq α] (x y : Flat α) : x.mayEqual y = y.mayEqual x := by
  cases x <;> cases y <;> simp [mayEqual, eq_comm]

/-- Elements of a flat lattice are one and the same entity in either order. -/
theorem Flat.mustEqual_comm [DecidableEq α] (x y : Flat α) : x.mustEqual y = y.mustEqual x := by
  cases x <;> cases y <;> simp [mustEqual, eq_comm]

/-- Sets have a literal in common in either order. -/
theorem LiteralSet.mayEqual_symm {s t : LiteralSet} (h : s.mayEqual t = true) :
    t.mayEqual s = true := by
  obtain ⟨l, hl, hheld⟩ := List.any_eq_true.1 h
  obtain ⟨k, hk, hagrees⟩ := List.any_eq_true.1 hheld
  exact List.any_eq_true.2 ⟨k, hk, List.any_eq_true.2 ⟨l, hl, Literal.agrees_symm hagrees⟩⟩

/-- Sets hold one and the same literal in either order. -/
theorem LiteralSet.mustEqual_symm {s t : LiteralSet} (h : s.mustEqual t = true) :
    t.mustEqual s = true := by
  simp only [mustEqual, Bool.and_eq_true, List.all_eq_true] at h ⊢
  obtain ⟨⟨hs, ht⟩, hall⟩ := h
  exact ⟨⟨ht, hs⟩, fun k hk l hl => Literal.agrees_symm (hall l hl k hk)⟩

/-- A set holds all its literals. -/
theorem LiteralSet.subSet_self (s : LiteralSet) : s.subSet s = true :=
  List.all_eq_true.2 fun l hl => List.any_eq_true.2 ⟨l, hl, Literal.agrees_self l⟩

/-- Sets have a site in common in either order. -/
theorem SiteSet.mayEqual_symm {s t : SiteSet} (h : s.mayEqual t = true) : t.mayEqual s = true := by
  obtain ⟨name, hs, ht⟩ := List.any_eq_true.1 h
  exact List.any_eq_true.2 ⟨name, of_decide_eq_true ht, decide_eq_true hs⟩

/-- Sets hold the same single site in either order. -/
theorem SiteSet.mustEqual_symm {s t : SiteSet} (h : s.mustEqual t = true) :
    t.mustEqual s = true := by
  obtain ⟨hone, hsame⟩ : s.names.length = 1 ∧ s.names = t.names := by simpa [mustEqual] using h
  simp [mustEqual, ← hsame, hone]

/-- A set holds all its sites. -/
theorem SiteSet.subSet_self (s : SiteSet) : s.subSet s = true :=
  List.all_eq_true.2 fun _ hname => decide_eq_true hname

/-- The leaves of values in this library compare alike in either order. -/
theorem ValueLeaf.symmetry :
    LeafSymmetry ValueLeaf.mayEqual ValueLeaf.mustEqual ValueLeaf.equalSet where
  mayEqual x y := by
    cases x <;> cases y
    case flat.flat x _ y _ => exact x.mayEqual_comm y
    case literals.literals s _ t _ =>
      exact Bool.eq_iff_iff.2 ⟨LiteralSet.mayEqual_symm, LiteralSet.mayEqual_symm⟩
    case symbol.symbol a b => exact decide_eq_decide.2 eq_comm
    all_goals rfl
  mustEqual x y := by
    cases x <;> cases y
    case flat.flat x _ y _ => exact x.mustEqual_comm y
    case literals.literals s _ t _ =>
      exact Bool.eq_iff_iff.2 ⟨LiteralSet.mustEqual_symm, LiteralSet.mustEqual_symm⟩
    all_goals rfl
  equalSet x y := by
    cases x <;> cases y
    case flat.flat x _ y _ => exact decide_eq_decide.2 eq_comm
    case literals.literals s _ t _ => exact Bool.and_comm _ _
    case symbol.symbol a b => exact decide_eq_decide.2 eq_comm
    all_goals rfl

/-- The leaves of regions in this library compare alike in either order. -/
theorem RegionLeaf.symmetry :
    LeafSymmetry RegionLeaf.mayEqual RegionLeaf.mustEqual RegionLeaf.equalSet where
  mayEqual x y := by
    cases x <;> cases y
    case placed.placed x _ _ y _ _ => exact Flat.mayEqual_comm x y
    case sites.sites s _ t _ =>
      exact Bool.eq_iff_iff.2 ⟨SiteSet.mayEqual_symm, SiteSet.mayEqual_symm⟩
    case block.block a b => exact decide_eq_decide.2 eq_comm
    all_goals rfl
  mustEqual x y := by
    cases x <;> cases y
    case placed.placed x _ _ y _ _ => exact Flat.mustEqual_comm x y
    case sites.sites s _ t _ =>
      exact Bool.eq_iff_iff.2 ⟨SiteSet.mustEqual_symm, SiteSet.mustEqual_symm⟩
    case block.block a b => exact decide_eq_decide.2 eq_comm
    all_goals rfl
  equalSet x y := by
    cases x <;> cases y
    case placed.placed x _ _ y _ _ => exact decide_eq_decide.2 eq_comm
    case sites.sites s _ t _ => exact Bool.and_comm _ _
    case block.block a b => exact decide_eq_decide.2 eq_comm
    all_goals rfl

/-- The leaves of this library compare alike in either order, at every edge. -/
theorem leaves_symmetric (edge : EdgeId) : SymmetricLeaves ValueLeaf RegionLeaf edge :=
  ⟨ValueLeaf.symmetry, RegionLeaf.symmetry⟩

/-- The leaves of this library denote the same sets as themselves, at every edge. -/
theorem leaves_reflexive (edge : EdgeId) : ReflexiveLeaves ValueLeaf RegionLeaf edge where
  value x := by
    cases x with
    | flat a _ => exact decide_eq_true rfl
    | literals s _ => exact Bool.and_eq_true_iff.2 ⟨s.subSet_self, s.subSet_self⟩
    | symbol a => exact decide_eq_true rfl
  region r := by
    cases r with
    | placed a _ _ => exact decide_eq_true rfl
    | sites s _ => exact Bool.and_eq_true_iff.2 ⟨s.subSet_self, s.subSet_self⟩
    | block a => exact decide_eq_true rfl

/-- One of two slots of the heap. -/
def heapSlots (m n : Int64) : Object ValueLeaf RegionLeaf .memLoc :=
  .combined .union [.plain (.slot ⟨MemRegion.named "heap", some (Value.constant m)⟩),
    .plain (.slot ⟨MemRegion.named "heap", some (.combined .union [Value.constant n])⟩)]

/-- Two such pairs of slots are denied an overlap in one order, and so in the other. -/
theorem heapSlots_apart :
    (heapSlots 1 2).mayEqual (Family.own .memLoc ⟨0⟩) (heapSlots 3 4) = .ok false ∧
      (heapSlots 3 4).mayEqual (Family.own .memLoc ⟨0⟩) (heapSlots 1 2) = .ok false := by
  have hbuilt : ∀ m n, Family.Built .memLoc Mode.union.Only (heapSlots m n) := by
    intro m n
    refine .combined rfl (List.forall_mem_cons.2 ⟨.plain ⟨.plain trivial, ?_⟩,
      List.forall_mem_singleton.2 (.plain ⟨.plain trivial, ?_⟩)⟩)
    · rintro _ ⟨⟩
      exact .plain trivial
    · rintro _ ⟨⟩
      exact .combined rfl (List.forall_mem_singleton.2 (.plain trivial))
  have hlaws := ((leaves_symmetric ⟨0⟩).impartial (leaves_reflexive ⟨0⟩) .memLoc).1
  have hdenied : (heapSlots 1 2).mayEqual (Family.own .memLoc ⟨0⟩) (heapSlots 3 4) = .ok false :=
    rfl
  exact ⟨hdenied, (hlaws.possible (hbuilt 3 4) (hbuilt 1 2)).trans hdenied⟩

end Leaves

end JointAnalysis
