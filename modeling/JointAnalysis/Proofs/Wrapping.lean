import JointAnalysis.Proofs.Symmetry

/-!
# Combinations of one child

A combination of one child answers as the child does, whatever its mode, and so does a stack of such
combinations of any height. Two stacks of different heights are compared child by child as far as
both go, and then one of them is asked about a plain object, perhaps in the other order. So the
order of plain objects must make no difference (`SymmetricLeaves`). Locations are left out: the
modes in their regions and indexes can make the order of two plain ones matter.
-/

namespace JointAnalysis

variable {α V R : Type}

/-- The one who is asked alone is right. -/
theorem firstHit_single {hit answer : Bool} :
    firstHit hit [(.ok answer : Except Fault Bool)] = .ok answer := by
  cases hit <;> cases answer <;> rfl

namespace AbstractObject

/-- An object in a stack of combinations of one child each, given their modes from the outside. -/
def wrap (o : AbstractObject α) : List Mode → AbstractObject α
  | [] => o
  | mode :: modes => .combined mode [o.wrap modes]

/-- A question that combinations put to their children in turn is answered by the innermost
object. -/
theorem fold_wrap {f : ObjectFold α (Except Fault Bool)} {o : AbstractObject α} {answer : Bool}
    (hturns : ∀ mode, ∃ hit, f.combined mode = firstHit hit) (h : o.fold f = .ok answer)
    (modes : List Mode) : (o.wrap modes).fold f = .ok answer := by
  induction modes with
  | nil => exact h
  | cons mode modes ih =>
      obtain ⟨hit, hmode⟩ := hturns mode
      rw [wrap, fold_combined, List.map_singleton, ih, hmode, firstHit_single]

variable {c : Comparison (Except Fault) α} {relation : Relation} {x y : α} {answer : Bool}

/-- A stack passes the tests that the innermost object passes. -/
theorem test_wrap {o : AbstractObject α} {test : Test} (h : o.test c test = .ok answer)
    (modes : List Mode) : (o.wrap modes).test c test = .ok answer := by
  cases test with
  | isFull => exact fold_wrap (fun _ => ⟨_, rfl⟩) h modes
  | isEmpty => exact fold_wrap (fun _ => ⟨_, rfl⟩) h modes
  | isLive => exact fold_wrap (fun _ => ⟨_, rfl⟩) h modes

/-- To compare an object with a plain one is to put a question that combinations put to their
children in turn. -/
theorem exists_fold_of_relate (c : Comparison (Except Fault) α) (relation : Relation) (y : α) :
    ∃ f : ObjectFold α (Except Fault Bool), (∀ mode, ∃ hit, f.combined mode = firstHit hit) ∧
      ∀ o, AbstractObject.relate c relation o (.plain y) = o.fold f := by
  cases relation with
  | mayEqual => exact ⟨_, fun _ => ⟨_, rfl⟩, fun o => mayEqual_plain c o y⟩
  | mustEqual => exact ⟨_, fun _ => ⟨_, rfl⟩, fun o => mustEqual_plain c o y⟩
  | equalSet => exact ⟨_, fun _ => ⟨_, rfl⟩, fun o => equalSet_plain c o y⟩
  | subSet => exact ⟨_, fun _ => ⟨_, rfl⟩, fun o => subSet_plain c o y⟩

/-- A stack compares with a plain object as the innermost object does. -/
theorem relate_wrap_plain {o : AbstractObject α} (h : o.relate c relation (.plain y) = .ok answer)
    (modes : List Mode) : (o.wrap modes).relate c relation (.plain y) = .ok answer := by
  obtain ⟨f, hturns, hfold⟩ := exists_fold_of_relate c relation y
  rw [hfold] at h ⊢
  exact fold_wrap hturns h modes

/-- A plain object compares with a stack around another one as it does with that one. Only for
inclusion the stack is not asked in its place. -/
theorem relate_plain_wrap (h : AbstractObject.relate c relation (.plain x) (.plain y) = .ok answer)
    (hswap : relation ≠ .subSet →
      AbstractObject.relate c relation (.plain y) (.plain x) = .ok answer) (modes : List Mode) :
    AbstractObject.relate c relation (.plain x) (wrap (.plain y) modes) = .ok answer := by
  cases modes with
  | nil => exact h
  | cons mode modes =>
      cases relation with
      | mayEqual => exact relate_wrap_plain (hswap (by simp)) (mode :: modes)
      | mustEqual => exact relate_wrap_plain (hswap (by simp)) (mode :: modes)
      | equalSet => exact relate_wrap_plain (hswap (by simp)) (mode :: modes)
      | subSet =>
          rw [relate, subSet_of_plain] at h ⊢
          exact fold_wrap (fun _ => ⟨_, rfl⟩) h (mode :: modes)

/-- Combinations of one child each are compared by asking one child about the other. -/
theorem relate_single {mode mode' : Mode} {a b : AbstractObject α}
    (h : a.relate c relation b = .ok answer) :
    AbstractObject.relate c relation (.combined mode [a]) (.combined mode' [b]) = .ok answer := by
  have hturn : ∃ hit, AbstractObject.relate c relation (.combined mode [a]) (.combined mode' [b]) =
      firstHit hit [a.relate c relation b] := by
    cases relation <;> exact ⟨_, rfl⟩
  obtain ⟨hit, hrelate⟩ := hturn
  rw [hrelate, h, firstHit_single]

/-- Stacks around two plain objects compare as the plain objects do, if these give one answer in
either order. -/
theorem relate_wrap (h : AbstractObject.relate c relation (.plain x) (.plain y) = .ok answer)
    (hswap : relation ≠ .subSet →
      AbstractObject.relate c relation (.plain y) (.plain x) = .ok answer)
    (modes modes' : List Mode) :
    (wrap (.plain x) modes).relate c relation (wrap (.plain y) modes') = .ok answer := by
  induction modes generalizing modes' with
  | nil => exact relate_plain_wrap h hswap modes'
  | cons mode modes ih =>
      cases modes' with
      | nil => exact relate_wrap_plain h (mode :: modes)
      | cons mode' modes' => exact relate_single (ih modes')

/-- A stack was built from the term from which the innermost object was built. -/
theorem base_wrap {β : Type} [DecidableEq β] {plain : α → Option β} (o : AbstractObject α)
    (modes : List Mode) : (o.wrap modes).base plain = o.base plain := by
  induction modes with
  | nil => rfl
  | cons mode modes ih =>
      have hchild : (o.wrap (mode :: modes)).base plain = common? [(o.wrap modes).base plain] := by
        rw [wrap, base, fold_combined]
        rfl
      rw [hchild, ih]
      simp [common?]

end AbstractObject

/-- Two questions have one and the same answer, and it is no fault. -/
def AnsweredAlike (ask ask' : Except Fault Bool) : Prop :=
  ∃ answer, ask = .ok answer ∧ ask' = .ok answer

/-- Plain objects answer all questions. -/
structure Comparison.Definite (c : Comparison (Except Fault) α) : Prop where
  relate : ∀ relation x y, ∃ answer,
    AbstractObject.relate c relation (.plain x) (.plain y) = .ok answer
  test : ∀ test x, ∃ answer, AbstractObject.test c test (.plain x) = .ok answer

/-- Plain objects give the same answer in either order, except to the question of inclusion. -/
theorem Comparison.Symmetric.swap {c : Comparison (Except Fault) α} (hc : c.Symmetric fun _ => True)
    {relation : Relation} {x y : α} {answer : Bool} (hrelation : relation ≠ .subSet)
    (h : AbstractObject.relate c relation (.plain x) (.plain y) = .ok answer) :
    AbstractObject.relate c relation (.plain y) (.plain x) = .ok answer := by
  cases relation with
  | mayEqual => exact (hc.mayEqual trivial trivial).trans h
  | mustEqual => exact (hc.mustEqual trivial trivial).trans h
  | equalSet =>
      have hxy : c.equalSet x y = .ok answer := h
      rcases eq_or_errors (hc.equalSet y x) with hsame | ⟨_, _, _, hfault⟩
      · exact hsame.trans hxy
      · rw [hxy] at hfault
        cases hfault
  | subSet => exact absurd rfl hrelation

variable [ValueDomain V] [RegionDomain V R] {edge : EdgeId} {family : Family}

/-- Plain objects of a family other than the locations answer all questions. -/
theorem Family.definite (edge : EdgeId) (hfamily : family ≠ .memLoc) :
    (Family.own (V := V) (R := R) family edge).Definite := by
  constructor
  · intro relation x y
    cases family with
    | memLoc => exact absurd rfl hfamily
    | _ => cases relation <;> exact ⟨_, rfl⟩
  · intro test x
    cases family with
    | memLoc => exact absurd rfl hfamily
    | _ => cases test <;> exact ⟨_, rfl⟩

/-- Stacks were built from the same term if the innermost objects were. -/
theorem Family.sameBase_wrap (a b : Object V R family) (modes modes' : List Mode) :
    family.shortcuts.sameBase (a.wrap modes) (b.wrap modes') = family.shortcuts.sameBase a b := by
  have hbase : ∀ (o : Object V R family) modes,
      family.shortcuts.base (o.wrap modes) = family.shortcuts.base o := by
    intro o modes
    cases family with
    | value => exact o.base_wrap modes
    | codeLoc => rfl
    | memRegion => exact o.base_wrap modes
    | memLoc => exact o.base_wrap modes
  rw [Shortcuts.sameBase, hbase, hbase, ← Shortcuts.sameBase]

namespace SymmetricLeaves

variable (h : SymmetricLeaves V R edge)

include h

/-- Plain objects of a family other than the locations compare alike in either order. -/
theorem plain_unconditional (hfamily : family ≠ .memLoc) :
    (Family.own (V := V) (R := R) family edge).Symmetric fun _ => True := by
  cases family with
  | value => exact h.values
  | codeLoc => exact CodeLoc.symmetric
  | memRegion => exact h.regions
  | memLoc => exact absurd rfl hfamily

/-- Stacks of combinations of one child each, of any height and any modes, around two plain objects
that are not locations answer as the two do, whether they are asked themselves or through an arbiter
who answers nothing. -/
theorem wrapping_invisible (hfamily : family ≠ .memLoc) (x y : Plain V R family)
    (modes modes' : List Mode) :
    (∀ relation,
      AnsweredAlike (AbstractObject.relate (family.own edge) relation (.plain x) (.plain y))
        ((AbstractObject.wrap (.plain x) modes).relate (family.own edge) relation
          (.wrap (.plain y) modes')) ∧
      AnsweredAlike (AnyObject.relate .silent edge relation ⟨family, .plain x⟩ ⟨family, .plain y⟩)
        (AnyObject.relate .silent edge relation ⟨family, .wrap (.plain x) modes⟩
          ⟨family, .wrap (.plain y) modes'⟩)) ∧
    ∀ test,
      AnsweredAlike (AbstractObject.test (family.own edge) test (.plain x))
        ((AbstractObject.wrap (.plain x) modes).test (family.own edge) test) ∧
      AnsweredAlike (AnyObject.test .silent edge test ⟨family, .plain x⟩)
        (AnyObject.test .silent edge test ⟨family, .wrap (.plain x) modes⟩) := by
  have hdefinite := Family.definite (V := V) (R := R) edge hfamily
  refine ⟨fun relation => ?_, fun test => ?_⟩
  · obtain ⟨answer, hplain⟩ := hdefinite.relate relation x y
    have hswap : relation ≠ .subSet →
        AbstractObject.relate (family.own edge) relation (.plain y) (.plain x) = .ok answer :=
      fun hrelation => (h.plain_unconditional hfamily).swap hrelation hplain
    have hwrapped := AbstractObject.relate_wrap hplain hswap modes modes'
    refine ⟨⟨answer, hplain, hwrapped⟩, ?_⟩
    by_cases hmust : relation = .mustEqual
    · subst hmust
      obtain ⟨empty, hx⟩ := hdefinite.test .isEmpty x
      obtain ⟨empty', hy⟩ := hdefinite.test .isEmpty y
      refine ⟨_, AnyObject.mustEqual_silent hplain hx hy, ?_⟩
      rw [AnyObject.mustEqual_silent hwrapped (AbstractObject.test_wrap hx modes)
        (AbstractObject.test_wrap hy modes'), Family.sameBase_wrap]
    · exact ⟨answer, (AnyObject.relate_silent fun hsame => absurd hsame hmust).trans hplain,
        (AnyObject.relate_silent fun hsame => absurd hsame hmust).trans hwrapped⟩
  · obtain ⟨answer, hplain⟩ := hdefinite.test test x
    have hwrapped := AbstractObject.test_wrap hplain modes
    exact ⟨⟨answer, hplain, hwrapped⟩, ⟨answer, hplain, hwrapped⟩⟩

end SymmetricLeaves

/-- Three combinations around a region and one around another do not hide that the two are apart,
nor that the first is live. -/
theorem wrapped_regions_apart :
    (AbstractObject.wrap (MemRegion.named "heap") [.union, .intersect, .union]).mayEqual
        (Family.own (V := ValueLeaf) .memRegion ⟨0⟩)
        (.wrap (MemRegion.named "stack") [.intersect]) = .ok false ∧
      (AbstractObject.wrap (MemRegion.named "heap") [.union, .intersect, .union]).isLive
        (Family.own (V := ValueLeaf) .memRegion ⟨0⟩) = .ok true := by
  obtain ⟨hrelate, htest⟩ := (leaves_symmetric ⟨0⟩).wrapping_invisible
    (by decide : Family.memRegion ≠ .memLoc) (.leaf (.placed (.exactly "heap") true none))
    (.leaf (.placed (.exactly "stack") true none)) [.union, .intersect, .union] [.intersect]
  obtain ⟨answer, hplain, hwrapped⟩ := (hrelate .mayEqual).1
  obtain ⟨answer', hplain', hwrapped'⟩ := (htest .isLive).1
  obtain rfl : false = answer := Except.ok.inj hplain
  obtain rfl : true = answer' := Except.ok.inj hplain'
  exact ⟨hwrapped, hwrapped'⟩

end JointAnalysis
