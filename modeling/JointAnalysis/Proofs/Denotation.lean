import JointAnalysis.Object.Family
import Mathlib.Data.List.Forall2
import Mathlib.Data.Set.Basic

/-!
# Objects as sets

An object denotes a set of entities: the full object all of them, the empty one none, and a
combination the union or the intersection of what its children denote. What plain objects denote is
left open. `mem_denote_union` and `mem_denote_intersect` are the two laws that proofs use.
-/

namespace JointAnalysis

namespace AbstractObject

variable {α E : Type} (plain : α → Set E)

/-- What holds of an object if it holds of its children holds of every object. -/
@[elab_as_elim]
theorem byChildren {motive : AbstractObject α → Prop} (full : motive .full) (empty : motive .empty)
    (plain : ∀ x, motive (.plain x))
    (combined : ∀ mode children, (∀ o ∈ children, motive o) → motive (.combined mode children))
    (o : AbstractObject α) : motive o :=
  @AbstractObject.rec α motive (fun children => ∀ o ∈ children, motive o) full empty plain combined
    (by simp) (fun _ _ hfirst hrest => List.forall_mem_cons.2 ⟨hfirst, hrest⟩) o

/-- What holds of the values for each shape of an object holds of the value that is folded from
it. -/
theorem fold_holds {β : Type} (holds : β → Prop) {f : ObjectFold α β} (hfull : holds f.full)
    (hempty : holds f.empty) (hplain : ∀ x, holds (f.plain x))
    (hcombined : ∀ mode values, (∀ b ∈ values, holds b) → holds (f.combined mode values))
    (o : AbstractObject α) : holds (o.fold f) := by
  induction o using byChildren with
  | full => exact hfull
  | empty => exact hempty
  | plain x => exact hplain x
  | combined mode children ih =>
      rw [fold_combined]
      refine hcombined mode _ fun b hb => ?_
      obtain ⟨o, ho, rfl⟩ := List.mem_map.1 hb
      exact ih o ho

/-- All plain parts of an object have a property. -/
inductive Consists (P : α → Prop) : AbstractObject α → Prop where
  | full : Consists P .full
  | empty : Consists P .empty
  | plain {x : α} (h : P x) : Consists P (.plain x)
  | combined {mode : Mode} {children : List (AbstractObject α)}
      (each : ∀ o ∈ children, Consists P o) : Consists P (.combined mode children)

/-- A plain object is its only plain part. -/
@[simp]
theorem consists_plain {P : α → Prop} {x : α} : Consists P (.plain x) ↔ P x := by
  refine ⟨fun h => ?_, .plain⟩
  cases h with
  | plain hx => exact hx

/-- The plain parts of a combination are those of its children. -/
@[simp]
theorem consists_combined {P : α → Prop} {mode : Mode} {children : List (AbstractObject α)} :
    Consists P (.combined mode children) ↔ ∀ o ∈ children, Consists P o := by
  refine ⟨fun h => ?_, .combined⟩
  cases h with
  | combined heach => exact heach

/-- Plain parts have every property that follows from one they have. -/
theorem Consists.imp {P Q : α → Prop} (hpq : ∀ x, P x → Q x) {o : AbstractObject α}
    (h : o.Consists P) : o.Consists Q := by
  induction h with
  | full => exact .full
  | empty => exact .empty
  | plain hx => exact .plain (hpq _ hx)
  | combined _ ih => exact .combined ih

/-- All combinations in an object have modes and numbers of children of a given kind, and all its
plain parts have a property. -/
inductive Built (kind : Mode → Nat → Prop) (P : α → Prop) : AbstractObject α → Prop where
  | full : Built kind P .full
  | empty : Built kind P .empty
  | plain {x : α} (h : P x) : Built kind P (.plain x)
  | combined {mode : Mode} {children : List (AbstractObject α)} (h : kind mode children.length)
      (each : ∀ o ∈ children, Built kind P o) : Built kind P (.combined mode children)

/-- Nothing is asked of an object if nothing is asked of its combinations and its plain parts. -/
theorem Built.of_all {kind : Mode → Nat → Prop} {P : α → Prop} (hkind : ∀ mode n, kind mode n)
    (hplain : ∀ x, P x) (o : AbstractObject α) : o.Built kind P := by
  induction o using byChildren with
  | full => exact .full
  | empty => exact .empty
  | plain x => exact .plain (hplain x)
  | combined mode children ih => exact .combined (hkind mode _) ih

/-- The set of entities that an object denotes, given those that plain objects denote. -/
def denote : AbstractObject α → Set E :=
  fold {
    full := Set.univ
    empty := ∅
    plain := plain
    combined := fun mode sets =>
      match mode with
      | .union => {x | ∃ s ∈ sets, x ∈ s}
      | .intersect => {x | ∀ s ∈ sets, x ∈ s} }

/-- The full object denotes everything. -/
@[simp]
theorem denote_full : denote plain .full = Set.univ := rfl

/-- The empty object denotes nothing. -/
@[simp]
theorem denote_empty : denote plain .empty = ∅ := rfl

/-- A plain object denotes what it is said to denote. -/
@[simp]
theorem denote_plain (x : α) : denote plain (.plain x) = plain x := rfl

/-- A union denotes what one of its children denotes. -/
@[simp]
theorem mem_denote_union {children : List (AbstractObject α)} {x : E} :
    x ∈ denote plain (.combined .union children) ↔ ∃ o ∈ children, x ∈ denote plain o := by
  rw [denote, fold_combined]
  simp only [List.mem_map, exists_exists_and_eq_and, Set.mem_ofPred_eq]

/-- An intersection denotes what all of its children denote. -/
@[simp]
theorem mem_denote_intersect {children : List (AbstractObject α)} {x : E} :
    x ∈ denote plain (.combined .intersect children) ↔ ∀ o ∈ children, x ∈ denote plain o := by
  rw [denote, fold_combined]
  simp only [List.mem_map, forall_exists_index, and_imp, forall_apply_eq_imp_iff₂,
    Set.mem_ofPred_eq]

/-- An intersection of nothing denotes everything. -/
@[simp]
theorem denote_intersect_nil : denote plain (.combined .intersect []) = Set.univ := by
  refine Set.ext fun x => ?_
  simp

/-- An intersection denotes a part of what each child denotes. -/
theorem denote_intersect_subset {children : List (AbstractObject α)} {o : AbstractObject α}
    (ho : o ∈ children) : denote plain (.combined .intersect children) ⊆ denote plain o :=
  fun _ hx => (mem_denote_intersect plain).1 hx o ho

/-- A child that is the only one stands for all. -/
theorem eq_of_mem_of_length_le {children : List (AbstractObject α)} {o o' : AbstractObject α}
    (ho : o ∈ children) (ho' : o' ∈ children) (honly : children.length ≤ 1) : o' = o := by
  have hlength : children.length = 1 := Nat.le_antisymm honly (List.length_pos_of_mem ho)
  obtain ⟨only, rfl⟩ := List.length_eq_one_iff.1 hlength
  rw [List.mem_singleton.1 ho', List.mem_singleton.1 ho]

/-- A combination denotes a part of what one of its children denotes, if it is an intersection or
has no other child. -/
theorem denote_combined_subset {mode : Mode} {children : List (AbstractObject α)}
    {o : AbstractObject α} (ho : o ∈ children) (honly : mode = .union → children.length ≤ 1) :
    denote plain (.combined mode children) ⊆ denote plain o := by
  cases mode with
  | union =>
      intro x hx
      obtain ⟨o', ho', hmem⟩ := (mem_denote_union plain).1 hx
      rwa [eq_of_mem_of_length_le ho ho' (honly rfl)] at hmem
  | intersect => exact denote_intersect_subset plain ho

/-- A combination denotes at least what one of its children denotes, if it is a union or has no
other child. -/
theorem subset_denote_combined {mode : Mode} {children : List (AbstractObject α)}
    {o : AbstractObject α} (ho : o ∈ children) (honly : mode = .intersect → children.length ≤ 1) :
    denote plain o ⊆ denote plain (.combined mode children) := by
  cases mode with
  | union => exact fun x hx => (mem_denote_union plain).2 ⟨o, ho, hx⟩
  | intersect =>
      refine fun x hx => (mem_denote_intersect plain).2 fun o' ho' => ?_
      rwa [eq_of_mem_of_length_le ho ho' (honly rfl)]

/-- What all children denote, their intersection denotes. -/
theorem subset_denote_intersect {children : List (AbstractObject α)} {S : Set E}
    (h : ∀ o ∈ children, S ⊆ denote plain o) : S ⊆ denote plain (.combined .intersect children) :=
  fun _ hx => (mem_denote_intersect plain).2 fun o ho => h o ho hx

/-- A combination denotes more if its children do, one by one. -/
theorem denote_combined_mono {as bs : List (AbstractObject α)}
    (h : List.Forall₂ (fun a b => denote plain a ⊆ denote plain b) as bs) (mode : Mode) :
    denote plain (.combined mode as) ⊆ denote plain (.combined mode bs) := by
  induction h with
  | nil => exact subset_rfl
  | cons hfirst _ ih =>
      intro x hx
      cases mode with
      | union =>
          rw [mem_denote_union, List.exists_mem_cons_iff, ← mem_denote_union] at hx ⊢
          exact hx.imp (fun h => hfirst h) fun h => ih h
      | intersect =>
          rw [mem_denote_intersect, List.forall_mem_cons, ← mem_denote_intersect] at hx ⊢
          exact hx.imp (fun h => hfirst h) fun h => ih h

/-- Whether an object denotes an entity, given for which plain objects this is so. -/
def denotes (plain : α → Bool) : AbstractObject α → Bool :=
  fold {
    full := true
    empty := false
    plain := plain
    combined := fun mode answers =>
      match mode with
      | .union => answers.any id
      | .intersect => answers.all id }

/-- Membership in what an object denotes can be computed where it can be for plain objects. -/
theorem mem_denote_iff {x : E} {p : α → Bool} (hplain : ∀ leaf, x ∈ plain leaf ↔ p leaf = true)
    (o : AbstractObject α) : x ∈ denote plain o ↔ o.denotes p = true := by
  induction o using byChildren with
  | full => simp [denotes, fold]
  | empty => simp [denotes, fold]
  | plain leaf => exact hplain leaf
  | combined mode children ih =>
      cases mode with
      | union =>
          rw [mem_denote_union, denotes, fold_combined]
          simp only [List.any_map, List.any_eq_true]
          exact exists_congr fun o => and_congr_right fun ho => ih o ho
      | intersect =>
          rw [mem_denote_intersect, denotes, fold_combined]
          simp only [List.all_map, List.all_eq_true]
          exact forall_congr' fun o => imp_congr_right fun ho => ih o ho

end AbstractObject

section Parts

variable {V R : Type}

/-- The plain parts of the region and of the index of a slot have given properties. -/
structure Slot.Consists (storage : Storage R → Prop) (leaf : V → Prop) (s : Slot V R) : Prop where
  region : s.region.Consists storage
  index : ∀ i, s.index = some i → i.Consists leaf

/-- The plain regions and the value leaves in a plain object of each family have given
properties. -/
def Plain.Consists (storage : Storage R → Prop) (leaf : V → Prop) :
    (family : Family) → Plain V R family → Prop
  | .value => leaf
  | .codeLoc => fun _ => True
  | .memRegion => storage
  | .memLoc => fun x => x.toSlot.Consists storage leaf

/-- The regions of two slots are related, and so are their indexes if both have one. -/
structure Slot.Related (region : MemRegion R → MemRegion R → Prop)
    (index : Value V → Value V → Prop) (s t : Slot V R) : Prop where
  region : region s.region t.region
  index : ∀ i j, s.index = some i → t.index = some j → index i j

/-- The regions and the indexes in two plain objects of each family are related. -/
def Plain.Related (region : MemRegion R → MemRegion R → Prop) (index : Value V → Value V → Prop) :
    (family : Family) → Plain V R family → Plain V R family → Prop
  | .value => fun _ _ => True
  | .codeLoc => fun _ _ => True
  | .memRegion => fun _ _ => True
  | .memLoc => fun x y => x.toSlot.Related region index y.toSlot

/-- All combinations in the region and in the index of a slot are of a given kind. -/
structure Slot.Built (kind : Mode → Nat → Prop) (s : Slot V R) : Prop where
  region : s.region.Built kind fun _ => True
  index : ∀ i, s.index = some i → i.Built kind fun _ => True

/-- All combinations inside a plain object of each family are of a given kind. -/
def Plain.Built (kind : Mode → Nat → Prop) : (family : Family) → Plain V R family → Prop
  | .value => fun _ => True
  | .codeLoc => fun _ => True
  | .memRegion => fun _ => True
  | .memLoc => fun x => x.toSlot.Built kind

/-- All combinations in an object of a family, also those inside its regions and indexes, are of a
given kind. -/
def Family.Built (family : Family) (kind : Mode → Nat → Prop) (o : Object V R family) : Prop :=
  AbstractObject.Built kind (Plain.Built kind family) o

end Parts

/-- A reading of the objects of all families, with the one entity that a question about a term at an
edge is really about. -/
structure Reading (V R : Type) where
  Entity : Family → Type
  plain : (family : Family) → Plain V R family → Set (Entity family)
  truth : TermId → EdgeId → (family : Family) → Entity family

namespace Reading

variable {V R : Type} (ρ : Reading V R)

/-- An object covers the truth about a term at an edge. -/
def Covers (term : TermId) (edge : EdgeId) {family : Family} (o : Object V R family) : Prop :=
  ρ.truth term edge family ∈ o.denote (ρ.plain family)

variable {ρ} {term : TermId} {edge : EdgeId} {family : Family}

/-- The full object covers every truth. -/
theorem covers_full : ρ.Covers term edge (.full : Object V R family) := Set.mem_univ _

/-- An intersection covers the truth if and only if all its children do. -/
theorem covers_intersect {answers : List (Object V R family)} :
    ρ.Covers term edge (.combined .intersect answers : Object V R family) ↔
      ∀ o ∈ answers, ρ.Covers term edge o :=
  AbstractObject.mem_denote_intersect _

end Reading

end JointAnalysis
