import JointAnalysis.Proofs.Fitting
import JointAnalysis.Proofs.Repetition
import JointAnalysis.Proofs.Rest

/-!
# Answers to which nobody contributed

A tight composer without a parent that is asked about a family none of its members handles answers
with the intersection of nothing. This intersection denotes everything, and `ActsAsFull` says how
far it acts as the full object. It goes further than the full object beside a plain object, which it
takes for everything: `TakesForWhole`. Beside a combination with children it is one of another
length, and beside the union of nothing one of the same length: `ComparesByLength`,
`ComparesByMode`. What is met with it may come to denote more but never less: `Loosens`.
-/

namespace JointAnalysis

open Lookup Tight

variable {V R M α E : Type}

namespace Tight

variable {net : Network V R M} {t : Tight V R M} {c : ComposerId} {family : Family}

/-- A tight composer has no parent, and no member of it handles the family. -/
structure Unclaimed (t : Tight V R M) (family : Family) : Prop where
  parent : t.parent = none
  members : ∀ m ∈ t.members, m.analysis.handles family = false

/-- Nothing is gathered if nobody is asked. -/
theorem Unclaimed.gathered_iff (h : t.Unclaimed family) {trail : List (Event V R)} {term : TermId}
    {edge : EdgeId} {children : List (Object V R family)} :
    t.Gathered net trail c term edge children ↔ children = [] := by
  have hfilter : t.members.filter (·.analysis.handles family) = [] :=
    List.filter_eq_nil_iff.2 fun m hm => by simp [h.members m hm]
  unfold Gathered Inherited
  simp only [h.parent, hfilter, List.forall₂_nil_left_iff]
  constructor
  · rintro ⟨_, _, rfl, rfl, rfl⟩
    rfl
  · rintro rfl
    exact ⟨[], [], rfl, rfl, rfl⟩

variable (ask : Answerer V R M) {r : Request} {w : World V R M}

/-- Where no member handles the family, the composer concludes at once. -/
theorem gather_unclaimed {rest : List (Member V R M)}
    (h : ∀ m ∈ rest, m.analysis.handles r.family = false) (answers : List (Object V R r.family)) :
    t.gather ask r rest answers = t.conclude ask r answers := by
  induction rest with
  | nil => rfl
  | cons m rest ih =>
      obtain ⟨hm, hrest⟩ := List.forall_mem_cons.1 h
      rw [gather_skip t ask rest answers hm, ih hrest]

variable (ht : net.composer? r.composer = some (.tight t)) (h : t.Unclaimed r.family)
  (hw : w.Accounted net)

include ht h hw

/-- A request that is not cut off is answered with the intersection of nothing. -/
theorem resolve_unclaimed (hcut : ¬ t.Cut w r) :
    ∃ w', (t.resolve ask r).outcome w = (.ok (.combined .intersect []), w') := by
  rcases Lookup.cases w r with hopen | ⟨kept, hsettled⟩ | hcorrupt
  · have hopen' : Open (started w r) r := by
      unfold Open
      rw [started_cache, QueryCache.finished?_enter]
      exact hopen
    obtain ⟨cache, hfinish, -⟩ := (hw.started r).finish ht hopen' (h.gathered_iff.2 rfl)
    have hgather : (t.gather ask r t.members []).outcome (started w r) =
        (.ok (.combined .intersect []), (started w r).putCache r.composer cache) := by
      have hkept := keep_open (M := M) hopen' []
      rw [hfinish] at hkept
      rw [gather_unclaimed ask h.members, conclude, inherited, h.parent]
      exact hkept
    rw [t.resolve_open ask hopen hcut, Run.outcome_bind_ok hgather]
    exact ⟨_, rfl⟩
  · obtain rfl : kept = [] := h.gathered_iff.1 ((hw.kept_gathered ht).settled hsettled)
    exact ⟨w, t.resolve_settled ask hsettled⟩
  · exact absurd hcorrupt ((hw.kept_gathered ht).not_corrupt)

/-- A query while no other query is under way is answered with the intersection of nothing. -/
theorem query_unclaimed (hattended : Attended net r.composer ⟨w, []⟩) :
    ∃ w', ((Composer.tight t).query ask r).outcome w = (.ok (.combined .intersect []), w') := by
  have hbegun : Attended net r.composer
      ⟨begun (w.note (.requested r)) r.composer, [.query r]⟩ :=
    hattended.move (t := t) (.request r trivial rfl)
  have hbegun' : (begun (w.note (.requested r)) r.composer).Accounted net :=
    (hw.note (by simp)).put_depth _ _
  obtain ⟨w₁, hresolve⟩ := resolve_unclaimed ask ht h hbegun' (hbegun.not_cut rfl rfl)
  rw [t.noted_query_outcome ask, Run.outcome_bind_ok hresolve,
    Run.outcome_bind_ok (t.closed_outcome r.composer)]
  exact ⟨_, rfl⟩

end Tight

/-- The intersection of nothing compares with an object as the full object does, in both
directions. -/
structure ComparesAsFull (c : Comparison (Except Fault) α) (relation : Relation)
    (x : AbstractObject α) : Prop where
  left : AbstractObject.relate c relation (.combined .intersect []) x =
    AbstractObject.relate c relation .full x
  right : x.relate c relation (.combined .intersect []) = x.relate c relation .full

/-- How far the intersection of nothing acts as the full object. -/
structure ActsAsFull (c : Comparison (Except Fault) α) : Prop where
  /-- It is full, it is not empty, and it is live. -/
  tests : ∀ test, AbstractObject.test c test (.combined .intersect []) =
    AbstractObject.test c test .full
  /-- It compares as the full object does with the built-in objects and with itself. -/
  bounds : ∀ relation, ∀ x ∈ [.full, .empty, .combined .intersect []], ComparesAsFull c relation x
  /-- It compares as the full object does with every plain object that is full. -/
  whole : ∀ relation y, c.isFull y = .ok true → ComparesAsFull c relation (.plain y)
  /-- It may be equal to every plain object, is certainly equal to none, and has each for a part. -/
  plain : ∀ y, ComparesAsFull c .mayEqual (.plain y) ∧ ComparesAsFull c .mustEqual (.plain y) ∧
    AbstractObject.subSet c (.plain y) (.combined .intersect []) =
      AbstractObject.subSet c (.plain y) .full

/-- How the intersection of nothing compares with a plain object, of which no child of it says
otherwise. -/
structure TakesForWhole (c : Comparison (Except Fault) α) (y : α) : Prop where
  /-- They are said to be the same set, and the intersection of nothing to be a part of the plain
  object. -/
  same : AbstractObject.equalSet c (.combined .intersect []) (.plain y) = .ok true ∧
    AbstractObject.equalSet c (.plain y) (.combined .intersect []) = .ok true ∧
    AbstractObject.subSet c (.combined .intersect []) (.plain y) = .ok true
  /-- Of the full object this is denied, unless the plain object is full. -/
  denied : c.isFull y = .ok false → AbstractObject.equalSet c .full (.plain y) = .ok false ∧
    AbstractObject.equalSet c (.plain y) .full = .ok false ∧
    AbstractObject.subSet c .full (.plain y) = .ok false
  /-- A meet puts the intersection of nothing in the place of the plain object, where the full
  object would leave it. -/
  replaced : AbstractObject.meet c (.plain y) (.combined .intersect []) =
      .ok ⟨.combined .intersect [], true⟩ ∧
    AbstractObject.meet c (.plain y) .full = .ok ⟨.plain y, false⟩

/-- How the intersection of nothing compares with the union of nothing, since the two are of the
same length. -/
structure ComparesByMode (c : Comparison (Except Fault) α) : Prop where
  /-- The intersection of nothing says what the full object says about overlap and certainty
  only. -/
  asking : ∀ relation,
    AbstractObject.relate c relation (.combined .intersect []) (.combined .union []) =
        AbstractObject.relate c relation .full (.combined .union []) ↔
      relation = .mayEqual ∨ relation = .mustEqual
  /-- The union of nothing never says of it what it says of the full object. -/
  asked : ∀ relation,
    AbstractObject.relate c relation (.combined .union []) (.combined .intersect []) ≠
      AbstractObject.relate c relation (.combined .union []) .full
  /-- They are said to be the same set, though one denotes everything and the other nothing. -/
  same : AbstractObject.equalSet c (.combined .intersect []) (.combined .union []) = .ok true ∧
    AbstractObject.equalSet c (.combined .union []) (.combined .intersect []) = .ok true

/-- How the intersection of nothing compares with a combination that has children, since the two
combinations are of different lengths. -/
structure ComparesByLength (c : Comparison (Except Fault) α) (mode : Mode) (o : AbstractObject α)
    (os : List (AbstractObject α)) : Prop where
  /-- They are not certainly equal, as the full object is not. -/
  certain : ComparesAsFull c .mustEqual (.combined mode (o :: os))
  /-- A combination that is asked about an overlap grants it if it is a union. -/
  asked : AbstractObject.mayEqual c (.combined mode (o :: os)) (.combined .intersect []) =
    .ok mode.isUnion
  /-- The intersection of nothing denies it. -/
  asking : AbstractObject.mayEqual c (.combined .intersect []) (.combined mode (o :: os)) =
    .ok false
  /-- They cannot be compared as sets. -/
  incomparable : ∀ relation, relation = .equalSet ∨ relation = .subSet →
    AbstractObject.relate c relation (.combined mode (o :: os)) (.combined .intersect []) =
        .error (.unequalCounts (.relation relation) (os.length + 1) 0) ∧
      AbstractObject.relate c relation (.combined .intersect []) (.combined mode (o :: os)) =
        .error (.unequalCounts (.relation relation) 0 (os.length + 1))
  /-- They cannot be met, where combinations are met child by child. -/
  unmet : c.meetsPairwise = true →
    AbstractObject.meet c (.combined mode (o :: os)) (.combined .intersect []) =
      .error (.unequalCounts .meet (os.length + 1) 0)

/-- An object denotes all that `x` denotes, and only that if the plain parts of `x` denote
everything. -/
structure Loosens (plain : α → Set E) (x o : AbstractObject α) : Prop where
  all : x.denote plain ⊆ o.denote plain
  only : x.Consists (plain · = Set.univ) → o.denote plain ⊆ x.denote plain

namespace AbstractObject

variable (c : Comparison (Except Fault) α)

/-- The intersection of nothing acts as the full object. -/
theorem actsAsFull : ActsAsFull c where
  tests test := by cases test <;> rfl
  bounds relation x hx := by
    simp only [List.mem_cons, List.not_mem_nil, or_false] at hx
    rcases hx with rfl | rfl | rfl <;> cases relation <;> exact ⟨rfl, rfl⟩
  whole relation y hy := by
    cases relation with
    | mayEqual => exact ⟨rfl, rfl⟩
    | mustEqual => exact ⟨rfl, rfl⟩
    | equalSet => exact ⟨hy.symm, hy.symm⟩
    | subSet => exact ⟨hy.symm, rfl⟩
  plain y := ⟨⟨rfl, rfl⟩, ⟨rfl, rfl⟩, rfl⟩

/-- The intersection of nothing takes every plain object for everything. -/
theorem takesForWhole (y : α) : TakesForWhole c y where
  same := ⟨rfl, rfl, rfl⟩
  denied hy := ⟨hy, hy, hy⟩
  replaced := ⟨rfl, rfl⟩

/-- The intersection of nothing is as long as the union of nothing. -/
theorem comparesByMode : ComparesByMode c where
  asking relation := by
    cases relation with
    | mayEqual => exact iff_of_true rfl (.inl rfl)
    | mustEqual => exact iff_of_true rfl (.inr rfl)
    | equalSet => exact iff_of_false (fun h => Bool.noConfusion (Except.ok.inj h)) (by simp)
    | subSet => exact iff_of_false (fun h => Bool.noConfusion (Except.ok.inj h)) (by simp)
  asked relation h := by
    cases relation with
    | mayEqual => exact Bool.noConfusion (Except.ok.inj h)
    | mustEqual => exact Bool.noConfusion (Except.ok.inj h)
    | equalSet => exact Bool.noConfusion (Except.ok.inj h)
    | subSet => exact Bool.noConfusion (Except.ok.inj h)
  same := ⟨rfl, rfl⟩

/-- The intersection of nothing is shorter than every combination that has children. -/
theorem comparesByLength (mode : Mode) (o : AbstractObject α) (os : List (AbstractObject α)) :
    ComparesByLength c mode o os where
  certain := ⟨rfl, rfl⟩
  asked := rfl
  asking := rfl
  incomparable := by
    rintro relation (rfl | rfl)
    · exact ⟨rfl, rfl⟩
    · exact ⟨rfl, rfl⟩
  unmet hpairwise := by
    have hpeers : peers c (o :: os).length (.combined .intersect []) =
        .error (.unequalCounts .meet (os.length + 1) 0) := by
      unfold peers
      rw [hpairwise]
      rfl
    rw [meet_combined (by simp) (by simp), hpeers]
    rfl

variable {c}

/-- The combination of what is loosened, child by child, is loosened. -/
theorem loosens_combined {plain : α → Set E} {as bs : List (AbstractObject α)}
    (h : List.Forall₂ (Loosens plain) as bs) (mode : Mode) :
    Loosens plain (.combined mode as) (.combined mode bs) where
  all := denote_combined_mono plain (h.imp fun _ _ hab => hab.all) mode
  only hall := by
    have hparts := (List.forall₂_and_left _ _).2 ⟨consists_combined.1 hall, h⟩
    exact denote_combined_mono plain (hparts.imp fun _ _ hab => hab.2.only hab.1).flip mode

/-- Without going child by child, a combination can be met with another one if all its children can,
and what holds of the children and what is left of them holds one by one. -/
theorem meet_whole_ok (hwhole : c.meetsPairwise = false) {mode mode' : Mode}
    {as bs : List (AbstractObject α)} {holds : AbstractObject α → AbstractObject α → Prop}
    (heach : ∀ a ∈ as, ∃ met, a.meet c (.combined mode' bs) = .ok met ∧ holds a met.object) :
    ∃ objects changed, meet c (.combined mode as) (.combined mode' bs) =
        .ok ⟨.combined mode objects, changed⟩ ∧ List.Forall₂ holds as objects := by
  have hmeets : List.Forall₂ (fun a meet => ∃ met : Met (AbstractObject α),
      meet = .ok met ∧ holds a met.object) as (as.map (·.meet c (.combined mode' bs))) := by
    rw [List.forall₂_map_right_iff, List.forall₂_same]
    exact heach
  obtain ⟨collected, hcollect, hholds⟩ := Met.collect_ok hmeets
  refine ⟨collected.object, collected.changed, ?_, hholds⟩
  rw [meet_whole hwhole, hcollect]
  rfl

/-- An object can be met with the intersection of nothing, unless it is a combination with children
and such are met child by child. The meet loosens the object. -/
theorem meet_nothing (plain : α → Set E) {x : AbstractObject α}
    (hx : c.meetsPairwise = true → ∀ mode o os, x ≠ .combined mode (o :: os)) :
    ∃ met, x.meet c (.combined .intersect []) = .ok met ∧ Loosens plain x met.object := by
  induction x using byChildren with
  | full => exact ⟨_, rfl, by simp, fun _ => Set.subset_univ _⟩
  | empty => exact ⟨_, rfl, subset_rfl, fun _ => subset_rfl⟩
  | plain y =>
      -- What is left is the intersection of nothing, whatever the plain object denoted.
      refine ⟨_, rfl, by simp, fun hall => ?_⟩
      rw [denote_plain, consists_plain.1 hall]
      exact Set.subset_univ _
  | combined mode as ih =>
      cases hpairwise : c.meetsPairwise with
      | true =>
          -- Going child by child, only a combination without children can be met.
          cases as with
          | nil =>
              refine ⟨⟨.combined mode [], false⟩, ?_, subset_rfl, fun _ => subset_rfl⟩
              rw [meet_combined (by simp) (by simp), peers_children hpairwise rfl]
              rfl
          | cons o os => exact absurd rfl (hx hpairwise mode o os)
      | false =>
          obtain ⟨objects, changed, hmeet, hloosens⟩ := meet_whole_ok hpairwise fun a ha =>
            ih a ha (by simp [hpairwise])
          exact ⟨_, hmeet, loosens_combined hloosens mode⟩

end AbstractObject

variable [ValueDomain V] [RegionDomain V R]

section Networks

variable {net : Network V R M} {t : Tight V R M} {c : ComposerId} {family : Family}
  (ht : net.composer? c = some (.tight t)) (h : t.Unclaimed family)

include ht h

omit [ValueDomain V] [RegionDomain V R] in
/-- Between the questions of its clients the composer answers with the intersection of nothing. -/
theorem Network.answer_unclaimed {sessionDepth : Nat} {steps : List (Step M)} {memory : M}
    (hsession : ((net.session sessionDepth steps).outcome (.initial memory)).1 = .ok ())
    (depth : Nat) (term : TermId) (edge : EdgeId) (client : AnalysisId) :
    ((net.answer (depth + 1) ⟨c, family, term, edge, client, none⟩).outcome
      (net.after sessionDepth steps memory)).1 = .ok (.combined .intersect []) := by
  rw [Network.answer_tight ht rfl rfl]
  obtain ⟨w', hquery⟩ := query_unclaimed (net.answer depth)
    (r := ⟨c, family, term, edge, client, none⟩) ht h
    (net.after_accounted sessionDepth steps memory) (Network.attended_after ht hsession)
  rw [hquery]

omit [ValueDomain V] [RegionDomain V R] in
/-- Whatever the composer answered during a session, it answered with the full object or with the
intersection of nothing. -/
theorem Network.returned_unclaimed {depth : Nat} {steps : List (Step M)} {memory : M} {r : Request}
    {o : AnyObject V R} (hreturned : .returned r o ∈ (net.after depth steps memory).trail)
    (hr : r.composer = c) (hfamily : r.family = family) :
    o = ⟨family, .full⟩ ∨ o = ⟨family, .combined .intersect []⟩ := by
  subst hr hfamily
  obtain ⟨later, past, htrail⟩ := List.append_of_mem hreturned
  obtain ⟨composer, answer, hcomposer, rfl, hjustified⟩ :=
    (net.after_accounted depth steps memory).given r o past ⟨later, htrail.symm⟩
  obtain rfl : Composer.tight t = composer := Option.some.inj (ht.symm.trans hcomposer)
  rcases hjustified with rfl | ⟨children, rfl, hgathered⟩
  · exact .inl rfl
  · rw [h.gathered_iff.1 hgathered]
    exact .inr rfl

/-- A tight composer without a parent that is asked, between the questions of its clients, about a
family none of its members handles answers with the intersection of nothing; while other queries are
under way it may also answer with the full object. The intersection of nothing denotes everything
and acts as the full object, except that it takes plain objects for everything, that combinations
with children are of another length, and that the union of nothing is of the same length. A meet
with it loses nothing of what an object denotes and adds nothing if the plain parts of the object
denote everything. -/
theorem Tight.Unclaimed.acts_as_full :
    (∀ {sessionDepth : Nat} {steps : List (Step M)} {memory : M},
      ((net.session sessionDepth steps).outcome (.initial memory)).1 = .ok () →
        ∀ depth term edge client,
          ((net.answer (depth + 1) ⟨c, family, term, edge, client, none⟩).outcome
            (net.after sessionDepth steps memory)).1 = .ok (.combined .intersect [])) ∧
    (∀ {depth : Nat} {steps : List (Step M)} {memory : M} {r : Request} {o : AnyObject V R},
      .returned r o ∈ (net.after depth steps memory).trail → r.composer = c → r.family = family →
        o = ⟨family, .full⟩ ∨ o = ⟨family, .combined .intersect []⟩) ∧
    ∀ (arbiter : Arbiter (Except Fault) V R) (edge : EdgeId),
      ActsAsFull (family.comparison arbiter edge) ∧
      (∀ y, TakesForWhole (family.comparison arbiter edge) y) ∧
      ComparesByMode (family.comparison arbiter edge) ∧
      (∀ mode o os, ComparesByLength (family.comparison arbiter edge) mode o os) ∧
      ((family.comparison arbiter edge).meetsPairwise = true ↔ family ≠ .memLoc) ∧
      ∀ {E : Type} (plain : Plain V R family → Set E),
        AbstractObject.denote plain (.combined .intersect []) = Set.univ ∧
        ∀ x : Object V R family,
          (family ≠ .memLoc → ∀ mode o os, x ≠ .combined mode (o :: os)) →
            ∃ met, x.meet (family.comparison arbiter edge) (.combined .intersect []) = .ok met ∧
              Loosens plain x met.object := by
  refine ⟨fun hsession => Network.answer_unclaimed ht h hsession,
    fun hreturned hr hfamily => Network.returned_unclaimed ht h hreturned hr hfamily,
    fun arbiter edge => ⟨AbstractObject.actsAsFull _, AbstractObject.takesForWhole _,
      AbstractObject.comparesByMode _, AbstractObject.comparesByLength _,
      family.meetsPairwise_iff arbiter edge, fun plain =>
        ⟨AbstractObject.denote_intersect_nil plain, fun x hx => ?_⟩⟩⟩
  exact AbstractObject.meet_nothing plain fun hpairwise =>
    hx ((family.meetsPairwise_iff arbiter edge).1 hpairwise)

end Networks

namespace Circle

/-- No member of the circle knows anything but values. -/
theorem unclaimed {family : Family} (h : family ≠ .value) : composer.Unclaimed family where
  parent := rfl
  members := by simp [composer, Analysis.echo, Analysis.constant, h]

/-- Asked about a place, the composer of the circle answers with the intersection of nothing. This
has no overlap with an intersection of one place, while the full object has one. It is said to be
the same set as the place and a part of it, while the full object is neither. A meet with it makes
the place denote every pair of a part and a term. -/
theorem unclaimed_denies_overlap :
    let c := Family.own (V := ValueLeaf) (R := RegionLeaf) .codeLoc ⟨0⟩
    let place : Object ValueLeaf RegionLeaf .codeLoc := .plain ⟨some ⟨1⟩, some ⟨2⟩⟩
    ((network.answer 1 { question with family := .codeLoc }).outcome (.initial ())).1 =
        .ok (.combined .intersect []) ∧
    (AbstractObject.mayEqual c (.combined .intersect []) (.combined .intersect [place]) =
        .ok false ∧
      AbstractObject.mayEqual c .full (.combined .intersect [place]) = .ok true) ∧
    (∀ relation, relation = .equalSet ∨ relation = .subSet →
      AbstractObject.relate c relation (.combined .intersect []) place = .ok true ∧
        AbstractObject.relate c relation .full place = .ok false) ∧
    (⟨0⟩, ⟨0⟩) ∉ place.denote CodePoint.places ∧
    ∃ met, place.meet c (.combined .intersect []) = .ok met ∧
      (⟨0⟩, ⟨0⟩) ∈ met.object.denote CodePoint.places := by
  intro c place
  refine ⟨rfl, ⟨rfl, rfl⟩, ?_, fun hplace => ?_, _, rfl, by simp⟩
  · rintro relation (rfl | rfl)
    · exact ⟨rfl, rfl⟩
    · exact ⟨rfl, rfl⟩
  · have hpart : (⟨0⟩ : PartId) = ⟨1⟩ := hplace.1
    cases hpart

/-- Asked about a location after a question about a value, the composer of the circle answers with
the intersection of nothing. It compares with the slot of a full region as the full object does, and
a union with this slot can be met with it. -/
theorem location_unclaimed :
    network.composer? ⟨0⟩ = some (.tight composer) ∧ composer.Unclaimed .memLoc ∧
    ((network.session 9 [.ask question]).outcome (.initial ())).1 = .ok () ∧
    ((network.answer 9 { question with family := .memLoc }).outcome
      (network.after 9 [.ask question] ())).1 = .ok (.combined .intersect []) ∧
    (∀ relation, ComparesAsFull (Family.own (V := ValueLeaf) (R := RegionLeaf) .memLoc ⟨0⟩) relation
      (.plain (.slot ⟨.full, none⟩))) ∧
    ∃ met, AbstractObject.meet (Family.own (V := ValueLeaf) (R := RegionLeaf) .memLoc ⟨0⟩)
        (.combined .union [.plain (.slot ⟨.full, none⟩), .empty]) (.combined .intersect []) =
          .ok met ∧ met.object.denote (fun _ => (Set.univ : Set Unit)) = Set.univ := by
  have hsession : ((network.session 9 [.ask question]).outcome (.initial ())).1 = .ok () := by
    decide +kernel
  have hcomposer : network.composer? ⟨0⟩ = some (.tight composer) := rfl
  have hunclaimed : composer.Unclaimed .memLoc := unclaimed (by simp)
  obtain ⟨hanswer, -, hacts⟩ := hunclaimed.acts_as_full hcomposer
  obtain ⟨hfull, -, -, -, -, hmeet⟩ := hacts .silent ⟨0⟩
  obtain ⟨met, hmet, hloosens⟩ := (hmeet fun _ => (Set.univ : Set Unit)).2
    (.combined .union [.plain (.slot ⟨.full, none⟩), .empty]) (by simp)
  refine ⟨hcomposer, hunclaimed, hsession, hanswer hsession 8 _ _ _,
    fun relation => hfull.whole relation _ rfl, met, hmet, ?_⟩
  refine Set.eq_univ_of_univ_subset (subset_trans (fun x _ => ?_) hloosens.all)
  simp

end Circle

end JointAnalysis
