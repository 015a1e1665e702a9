import JointAnalysis.Proofs.Silence

/-!
# Objects that are asked through an arbiter

Through an arbiter who answers nothing, two objects of one family are compared, tested and met as
they do it themselves. There is one exception: objects that were built from one and the same term
and are not empty are certainly equal, whatever they say. Since certain equality never ends in a
fault, this is an equation of truth values: read `AnyObject.mustEqual_silent` first.
-/

namespace JointAnalysis

variable {α V R : Type}

/-- Plain objects are empty or not, and certain equality is granted or denied to them. -/
structure Comparison.Settled (c : Comparison (Except Fault) α) : Prop where
  mustEqual : ∀ x y, ∃ certain, c.mustEqual x y = .ok certain
  isEmpty : ∀ x, ∃ empty, c.isEmpty x = .ok empty

namespace Comparison.Settled

open AbstractObject

variable {c : Comparison (Except Fault) α} (hc : c.Settled)

include hc

/-- An object is empty or not. -/
theorem isEmpty_ok (o : AbstractObject α) : ∃ empty, o.isEmpty c = .ok empty :=
  fold_ok ⟨_, rfl⟩ ⟨_, rfl⟩ hc.isEmpty (fun _ => ⟨_, rfl⟩) o

/-- Certain equality with a plain object is granted or denied. -/
theorem mustEqualPlain_ok (y : α) (o : AbstractObject α) :
    ∃ certain, o.mustEqualPlain c y = .ok certain :=
  fold_ok ⟨_, rfl⟩ ⟨_, rfl⟩ (hc.mustEqual · y) (fun _ => ⟨_, rfl⟩) o

/-- Certain equality is granted or denied. -/
theorem mustEqual_ok (a b : AbstractObject α) : ∃ certain, a.mustEqual c b = .ok certain := by
  induction a using byChildren generalizing b with
  | full => exact ⟨false, by cases b <;> rfl⟩
  | empty => exact ⟨false, by cases b <;> rfl⟩
  | plain x =>
      cases b with
      | full => exact ⟨false, rfl⟩
      | empty => exact ⟨false, rfl⟩
      | plain y => exact hc.mustEqual x y
      | combined mode children => exact hc.mustEqualPlain_ok x _
  | combined mode as ih =>
      cases b with
      | full => exact ⟨false, rfl⟩
      | empty => exact ⟨false, rfl⟩
      | plain y => exact hc.mustEqualPlain_ok y _
      | combined mode' bs =>
          rw [mustEqual_combined]
          split
          · refine firstHit_ok _ (List.forall₂_same.2 fun ask hask => ?_)
            obtain ⟨p, hp, rfl⟩ := List.mem_map.1 hask
            exact ih p.1 (List.of_mem_zip hp).1 p.2
          · exact ⟨false, rfl⟩

end Comparison.Settled

namespace Shortcuts

variable {edge : EdgeId} {family : Family} {s : Shortcuts V R family}
  {c : Comparison (Except Fault) (Plain V R family)} {a b : Object V R family}
  {certain empty empty' : Bool}

/-- Objects were built from the same term if each was built from one and the terms are the same. -/
theorem sameBase_iff :
    s.sameBase a b = true ↔ ∃ term, s.base a = some term ∧ s.base b = some term := by
  unfold sameBase
  cases s.base a <;> cases s.base b <;> simp [eq_comm]

/-- Being built from the same term does not depend on the order. -/
theorem sameBase_comm (a b : Object V R family) : s.sameBase a b = s.sameBase b a := by
  rw [Bool.eq_iff_iff, sameBase_iff, sameBase_iff]
  exact exists_congr fun _ => and_comm

/-- Certain equality is settled in advance for objects that were built from the same term and are
not empty. -/
theorem provedByBase_silent (ha : a.isEmpty c = .ok empty) (hb : b.isEmpty c = .ok empty') :
    s.provedByBase .silent c .mustEqual a b = .ok (s.sameBase a b && !empty && !empty') := by
  have hleft : Arbiter.test .silent family c .isEmpty a = .ok empty := ha
  have hright : Arbiter.test .silent family c .isEmpty b = .ok empty' := hb
  rw [provedByBase, hleft, hright]
  cases s.sameBase a b <;> cases empty <;> cases empty' <;> rfl

/-- Certain equality is granted to objects that say so or for which it is settled in advance. -/
theorem mustEqual_silent
    (hresults : ∀ {answer}, s.results edge a b = some answer → a.mustEqual c b = .ok answer)
    (h : a.mustEqual c b = .ok certain) (ha : a.isEmpty c = .ok empty)
    (hb : b.isEmpty c = .ok empty') :
    s.relate .silent edge c .mustEqual a b =
      .ok (certain || (s.sameBase a b && !empty && !empty')) := by
  rw [relate, provedByBase_silent ha hb]
  cases s.sameBase a b && !empty && !empty' with
  | true =>
      rw [Bool.or_true]
      rfl
  | false =>
      rw [Bool.or_false, ← h]
      cases hsettled : s.results edge a b with
      | none => rfl
      | some answer => exact (hresults hsettled).symm

end Shortcuts

variable [ValueDomain V] [RegionDomain V R] {edge : EdgeId} {family : Family}

/-- Certain equality of two objects of a family, asked through the arbiter. -/
theorem Family.mustEqual_silent {a b : Object V R family} {certain empty empty' : Bool}
    (h : a.mustEqual (family.own edge) b = .ok certain)
    (ha : a.isEmpty (family.own edge) = .ok empty)
    (hb : b.isEmpty (family.own edge) = .ok empty') :
    family.shortcuts.relate .silent edge (family.own edge) .mustEqual a b =
      .ok (certain || (family.shortcuts.sameBase a b && !empty && !empty')) :=
  Shortcuts.mustEqual_silent (Family.relate_of_results .mustEqual) h ha hb

/-- Certain equality that is asked through the arbiter is granted or denied. -/
theorem Comparison.Settled.routed_ok (hc : (family.own (V := V) (R := R) edge).Settled)
    (a b : Object V R family) :
    ∃ certain, family.shortcuts.relate .silent edge (family.own edge) .mustEqual a b =
      .ok certain := by
  obtain ⟨certain, h⟩ := hc.mustEqual_ok a b
  obtain ⟨empty, ha⟩ := hc.isEmpty_ok a
  obtain ⟨empty', hb⟩ := hc.isEmpty_ok b
  exact ⟨_, Family.mustEqual_silent h ha hb⟩

/-- The leaves of values settle what they are asked. -/
theorem Value.settled (edge : EdgeId) : (Family.value.own (V := V) (R := R) edge).Settled :=
  ⟨fun _ _ => ⟨_, rfl⟩, fun _ => ⟨_, rfl⟩⟩

/-- Plain regions settle what they are asked. -/
theorem MemRegion.settled (edge : EdgeId) :
    (Family.memRegion.own (V := V) (R := R) edge).Settled :=
  ⟨fun _ _ => ⟨_, rfl⟩, fun _ => ⟨_, rfl⟩⟩

/-- A slot is empty or not. -/
theorem Slot.isEmpty_ok (s : Slot V R) :
    ∃ empty, Slot.isEmpty (m := Except Fault) .silent edge s = .ok empty := by
  obtain ⟨empty, hregion⟩ := (MemRegion.settled (V := V) edge).isEmpty_ok s.region
  have htest : testRegion (.silent : Arbiter (Except Fault) V R) edge .isEmpty s.region =
      .ok empty := hregion
  rw [Slot.isEmpty, htest]
  cases empty with
  | true => exact ⟨true, rfl⟩
  | false =>
      cases s.index with
      | none => exact ⟨false, rfl⟩
      | some i => exact (Value.settled (R := R) edge).isEmpty_ok i

/-- Certain equality is granted or denied to two slots. -/
theorem Slot.mustEqual_ok (s t : Slot V R) :
    ∃ certain, Slot.mustEqual (m := Except Fault) .silent edge s t = .ok certain := by
  obtain ⟨certain, hregions⟩ := (MemRegion.settled (V := V) edge).routed_ok s.region t.region
  have hasked : relateRegions (.silent : Arbiter (Except Fault) V R) edge .mustEqual s.region
      t.region = .ok certain := hregions
  rw [Slot.mustEqual, hasked]
  cases certain with
  | false => exact ⟨false, rfl⟩
  | true =>
      cases s.index with
      | none => cases t.index <;> exact ⟨_, rfl⟩
      | some i =>
          cases t.index with
          | none => exact ⟨false, rfl⟩
          | some j => exact (Value.settled (R := R) edge).routed_ok i j

/-- The plain objects of every family settle what they are asked. -/
theorem Family.settled (edge : EdgeId) (family : Family) :
    (family.own (V := V) (R := R) edge).Settled := by
  cases family with
  | value => exact Value.settled edge
  | codeLoc => exact ⟨fun _ _ => ⟨_, rfl⟩, fun _ => ⟨_, rfl⟩⟩
  | memRegion => exact MemRegion.settled edge
  | memLoc =>
      refine ⟨fun x y => ?_, fun x => ?_⟩
      · show ∃ certain, Cell.relate edge (Slot.mustEqual (m := Except Fault) .silent edge) x y =
          .ok certain
        rw [Cell.relate]
        split
        · next answer _ => exact ⟨answer, rfl⟩
        · exact Slot.mustEqual_ok _ _
      · cases x with
        | result f => exact ⟨false, rfl⟩
        | slot s => exact Slot.isEmpty_ok s

namespace AnyObject

/-- Certain equality of two objects of one family is granted through the arbiter if they grant it or
if they were built from one and the same term and are not empty. -/
theorem mustEqual_silent {a b : Object V R family} {certain empty empty' : Bool}
    (h : a.mustEqual (family.own edge) b = .ok certain)
    (ha : a.isEmpty (family.own edge) = .ok empty)
    (hb : b.isEmpty (family.own edge) = .ok empty') :
    AnyObject.relate (m := Except Fault) .silent edge .mustEqual ⟨family, a⟩ ⟨family, b⟩ =
      .ok (certain || (family.shortcuts.sameBase a b && !empty && !empty')) := by
  rw [relate_family]
  exact Family.mustEqual_silent h ha hb

/-- Two objects of one family are compared, met and tested through the arbiter as they do it
themselves, with the same truth value, the same object or the same fault. Only certain equality is
granted to some objects that do not grant it themselves: to those that were built from one and the
same term and are not empty. -/
theorem asked_as_themselves (edge : EdgeId) {family : Family} (a b : Object V R family) :
    (∀ relation, relation ≠ .mustEqual →
      AnyObject.relate (m := Except Fault) .silent edge relation ⟨family, a⟩ ⟨family, b⟩ =
        a.relate (family.own edge) relation b) ∧
    AnyObject.meet (m := Except Fault) .silent edge ⟨family, a⟩ ⟨family, b⟩ =
      (do
        let met ← a.meet (family.own edge) b
        pure ⟨⟨family, met.object⟩, met.changed⟩) ∧
    (∀ test, AnyObject.test (m := Except Fault) .silent edge test ⟨family, a⟩ =
      a.test (family.own edge) test) ∧
    ∃ certain routed,
      a.mustEqual (family.own edge) b = .ok certain ∧
      AnyObject.relate (m := Except Fault) .silent edge .mustEqual ⟨family, a⟩ ⟨family, b⟩ =
        .ok routed ∧
      (routed = true ↔ certain = true ∨
        (∃ term, (⟨family, a⟩ : AnyObject V R).base = some term ∧
          (⟨family, b⟩ : AnyObject V R).base = some term) ∧
        a.isEmpty (family.own edge) = .ok false ∧ b.isEmpty (family.own edge) = .ok false) := by
  refine ⟨fun relation hother => relate_silent fun hmust => absurd hmust hother, meet_silent a b,
    fun test => rfl, ?_⟩
  obtain ⟨certain, h⟩ := (Family.settled edge family).mustEqual_ok a b
  obtain ⟨empty, ha⟩ := (Family.settled edge family).isEmpty_ok a
  obtain ⟨empty', hb⟩ := (Family.settled edge family).isEmpty_ok b
  refine ⟨certain, _, h, mustEqual_silent h ha hb, ?_⟩
  rw [ha, hb, Bool.or_eq_true_iff, Bool.and_eq_true_iff, Bool.and_eq_true_iff,
    Shortcuts.sameBase_iff, and_assoc]
  simp [AnyObject.base]

end AnyObject

end JointAnalysis
