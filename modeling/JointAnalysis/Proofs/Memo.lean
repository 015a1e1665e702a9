import JointAnalysis.Proofs.Agreement
import JointAnalysis.Proofs.Preservation

/-!
# Memoisation agrees with the recursive meaning

Between the questions of clients no grounded query is being resolved, and what is kept for grounded
queries is what the reference says. This is so after every session, whatever else was asked, cleared
or revised in it. A grounded question is therefore answered as the reference says, at whatever time
it is asked. `Tight.memo_agrees` is the result.
-/

namespace JointAnalysis

open Lookup Tight

variable {V R M : Type}

/-- What is kept for grounded queries is what the reference says, and none of them is being
resolved. -/
structure Network.Calm (net : Network V R M) (w : World V R M) : Prop where
  faithful : net.Faithful w
  rested : ∀ c k, net.Covers c k → ¬ w.Busy c k

namespace Network.Calm

variable {net : Network V R M} {w w' : World V R M} {r : Request}

/-- In a calm world nothing is being resolved to which a grounded question leads. -/
theorem quiet (h : net.Calm w) (hr : net.Grounded r) : net.Quiet w r :=
  fun _ hq hplain => h.rested _ _ ((hr.trans hq).covers hplain)

/-- Grounded questions leave a calm world calm. -/
theorem passes (h : net.Calm w) (hw : net.Passes w w') : net.Calm w' :=
  ⟨hw.faithful, fun c k hcovers hbusy => h.rested c k hcovers (hw.calm c k id hcovers hbusy)⟩

/-- A world with fewer entries is calm. -/
theorem fewer (h : net.Calm w)
    (hentry : ∀ c k e, (w'.cache c).get? k = some e → (w.cache c).get? k = some e) :
    net.Calm w' := by
  have hrested : ∀ c k, net.Covers c k → ¬ w'.Busy c k := by
    rintro c k hcovers ⟨e, he, hbusy⟩
    exact h.rested c k hcovers ⟨e, hentry c k e he, hbusy⟩
  refine ⟨⟨fun r t hr ho ht e he => ?_, fun c k hcovers hbusy => ?_⟩, hrested⟩
  · exact h.faithful.kept r t hr ho ht e (hentry _ _ e he)
  · exact absurd hbusy (hrested c k hcovers)

/-- The entries of queries that are not grounded may change. -/
theorem edit {t : Tight V R M} (h : net.Calm w) (hr : ¬ net.Grounded r) (ho : r.operand = none)
    (ht : net.composer? r.composer = some (.tight t)) (hedit : World.Edit r w w') :
    net.Calm w' := by
  refine ⟨h.faithful.edit ho ht hedit fun hground => absurd hground hr, fun c k hcovers hbusy => ?_⟩
  by_cases hat : r.At c k
  · obtain ⟨rfl, rfl⟩ := hat
    exact hr (hcovers.grounded ht ho)
  · exact h.rested c k hcovers ((World.busy_congr (hedit.entry c k hat)).1 hbusy)

end Network.Calm

namespace Network

/-- Calm needs no entries. -/
theorem calm_modest (net : Network V R M) : World.Modest net.Calm :=
  fun _ _ hentry h => h.fewer hentry

/-- Whatever a network is asked keeps the world calm. -/
theorem answer_calms (net : Network V R M) (depth : Nat) (r : Request) :
    (net.answer depth r).Preserves net.Calm := by
  refine answer_preserves (fun _ _ _ _ _ _ => trivial) (fun depth r c _ ho hc hask => ?_)
    depth r trivial
  by_cases hr : net.Grounded r
  · intro w hw o w' h
    have hmatches := Composer.query_matches (net.answer_matches depth) hr ho hc hw.faithful
      (hw.quiet hr)
    exact hw.passes (hmatches.ok h).2
  · refine Composer.query_preserves net.calm_modest hc ho (fun t ht w w' hedit hw => ?_)
      fun q _ => hask q trivial
    exact hw.edit hr ho (ht ▸ hc) hedit

/-- A session keeps the world calm. -/
theorem session_calms (net : Network V R M) (depth : Nat) (steps : List (Step M)) :
    (net.session depth steps).Preserves net.Calm :=
  Run.preserves_iff.2 fun _ hw => net.session_ends
    (fun r _ => Run.preserves_iff.1 (net.answer_calms depth r))
    (fun c _ _ => net.calm_modest.clear c) (fun _ _ _ hw => net.calm_modest.same hw fun _ => rfl) hw

/-- A world in which nothing happened is calm. -/
theorem Calm.initial (net : Network V R M) (memory : M) : net.Calm (.initial memory) := by
  refine ⟨.initial memory, ?_⟩
  rintro c k _ ⟨e, he, _⟩
  cases he

variable {net : Network V R M} {depth : Nat} {steps : List (Step M)} {memory : M}
  (h : ((net.session depth steps).outcome (.initial memory)).1 = .ok ())

include h

/-- The world is calm after a session that ended well. -/
theorem after_calm : net.Calm (net.after depth steps memory) :=
  net.session_calms depth steps _ (.initial net memory) () _ (Prod.ext h rfl)

/-- After a session that ended well, a grounded question is answered as the reference says, if
questions are followed deep enough. -/
theorem Grounded.answer_eq {r : Request} (hr : net.Grounded r) :
    ∃ enough, ∀ deeper, enough ≤ deeper →
      ((net.answer deeper r).outcome (net.after depth steps memory)).1 = net.reference r := by
  obtain ⟨enough, henough⟩ := hr.exists_deep
  refine ⟨enough, fun deeper hle => ?_⟩
  have hcalm := after_calm h
  have hmatches := net.answer_matches deeper r hr _ hcalm.faithful (hcalm.quiet hr)
  rcases houtcome : (net.answer deeper r).outcome (net.after depth steps memory) with
    ⟨(fault | _) | o, w⟩
  · exact Eq.symm (hmatches.error houtcome)
  · exact absurd (henough.mono hle) (hmatches.error houtcome)
  · exact (hmatches.ok houtcome).1.symm

end Network

section Views

variable {net : Network V R M} {view : ComposerId → Prop}
  (hclosed : ∀ r q, view r.composer → net.Raises .followed r q → view q.composer)
  (hwf : WellFounded fun q r => view r.composer ∧ net.Raises .followed r q)

include hclosed hwf

/-- Where all analyses are stateless and questions come to an end, every question is grounded. -/
theorem Network.Grounded.of_view
    (hstateless : ∀ d composer, view d → net.composer? d = some composer →
      ∀ a ∈ composer.analyses, ∀ family q, (a.answer family q).Stateless)
    {r : Request} (hr : view r.composer) : net.Grounded r := by
  induction r using hwf.induction with
  | _ r ih =>
      refine .intro (fun _ c hc => ?_) fun q hq => ?_
      · have hall := hstateless r.composer c hr hc
        cases c with
        | chain x =>
            exact fun m hm => hall _ (List.mem_map_of_mem (Chain.speaker?_eq_some hm).1) _ _
        | tight t => exact fun m hm _ => hall _ (List.mem_map_of_mem hm) _ _
        | relay x => exact hall _ List.mem_cons_self _ _
      · have hraises := hq.followed
        exact ih q ⟨hr, hraises⟩ (hclosed r q hr hraises)

omit hclosed in
/-- Where questions come to an end, no member of a tight composer asks the question that it is
asked. -/
theorem Network.not_raises_own {r : Request} (hr : view r.composer) {t : Tight V R M}
    (ht : net.composer? r.composer = some (.tight t)) (ho : r.operand = none)
    (self : AnalysisId) : ¬ net.Raises .followed r (r.own self) := by
  intro hraises
  have hcircle : ∀ q, ¬ (view q.composer ∧ net.Raises .followed q q) := by
    intro q
    induction q using hwf.induction with
    | _ q ih => exact fun h => ih q h h
  -- whoever asks, the question raises the same questions, and so it raises itself
  have hself := hraises.client ht ho self
  have hown : { r with client := self } = r.own self := by rw [ho]
  rw [hown] at hself
  exact hcircle (r.own self) ⟨hr, hself⟩

end Views

/-- Memoising agrees with the recursive meaning. Take a tight composer and the composers that are
asked for its sake, all of whose analyses are stateless, and suppose that the questions which they
raise come to an end. Then the reference is the meaning of questions with the reference for the
oracle: the intersection of what the parent says and what the members say, in order. And at any time
after any session, however the caches are configured and filled, the composer answers as the
reference says. -/
theorem Tight.memo_agrees {net : Network V R M} {view : ComposerId → Prop}
    (hstateless : ∀ d composer, view d → net.composer? d = some composer →
      ∀ a ∈ composer.analyses, ∀ family q, (a.answer family q).Stateless)
    (hclosed : ∀ r q, view r.composer → net.Raises .followed r q → view q.composer)
    (hwf : WellFounded fun q r => view r.composer ∧ net.Raises .followed r q)
    {c : ComposerId} {t : Tight V R M} (ht : net.composer? c = some (.tight t)) (hc : view c) :
    (∀ r, view r.composer → net.reference r = net.meaning .followed net.reference r) ∧
    (∀ r, r.composer = c → r.operand = none →
      net.reference r = t.meaning .followed net.reference r) ∧
    ∀ depth steps memory, ((net.session depth steps).outcome (.initial memory)).1 = .ok () →
      ∀ r, r.composer = c → ∃ enough, ∀ deeper, enough ≤ deeper →
        ((net.answer deeper r).outcome (net.after depth steps memory)).1 = net.reference r := by
  have hground : ∀ r, view r.composer → net.Grounded r := fun r hr =>
    .of_view hclosed hwf hstateless hr
  have hreference : ∀ r, view r.composer →
      net.reference r = net.meaning .followed net.reference r := by
    intro r hr
    rw [Network.meaning_followed _ fun t ht ho => Network.not_raises_own hwf hr ht ho]
    exact (hground r hr).reference_eq
  refine ⟨hreference, ?_, ?_⟩
  · rintro r rfl ho
    rw [hreference r hc, Network.meaning, ht]
    simp only [Composer.meaning, ho]
  · rintro depth steps memory hsession r rfl
    exact (hground r hc).answer_eq hsession

namespace Ladder

/-- Answers for a term what the composer says about the term before it. -/
def descending : Analysis ValueLeaf RegionLeaf Unit where
  name := "descending"
  direction := .forward
  handles family := family = .value
  answer family q :=
    match q.term with
    | ⟨0⟩ => .give .full
    | ⟨n + 1⟩ => .request (q.request family ⟨n⟩)

/-- The parent, which knows the value of one term. -/
def above : Chain ValueLeaf RegionLeaf Unit where
  id := ⟨4⟩
  direction := .forward
  members := [⟨⟨0⟩, .constant "seven" .forward (fun x => if x = ⟨1⟩ then some 7 else none) id⟩]
  system := none
  program := none

/-- A composer that comes down the ladder and drops its cache after each question. -/
def composer : Tight ValueLeaf RegionLeaf Unit where
  id := ⟨3⟩
  direction := .forward
  members := [⟨⟨1⟩, descending⟩, ⟨⟨2⟩, .constant "five" .forward (fun _ => some 5) id⟩]
  parent := some ⟨0⟩
  config := { cachePolicy := .perTopLevelQuery }
  system := none
  program := none

/-- The network of the two. -/
def network : Network ValueLeaf RegionLeaf Unit := ⟨[.chain above, .tight composer], 5⟩

/-- A question from outside. -/
def question (term : Nat) : Request := ⟨⟨1⟩, .value, ⟨term⟩, ⟨0⟩, network.outsider, none⟩

/-- How high a question stands. -/
def rank (r : Request) : Nat :=
  match r.operand with
  | none => 2 * r.term.index + r.composer.index
  | some x => 2 * x.index + r.composer.index + 1

/-- All questions come down. -/
theorem rank_lt {r q : Request} (h : network.Raises .followed r q) : rank q < rank r := by
  obtain ⟨c, family, term, edge, client, operand⟩ := r
  have hcomposers : ∀ {x}, network.composer? c = some x →
      c = ⟨0⟩ ∧ x = .chain above ∨ c = ⟨1⟩ ∧ x = .tight composer := by
    intro x hx
    obtain ⟨_ | _ | n⟩ := c
    · exact .inl ⟨rfl, (Option.some.inj hx).symm⟩
    · exact .inr ⟨rfl, (Option.some.inj hx).symm⟩
    · cases hx
  cases h with
  | @part x q hc ho hq =>
      cases operand with
      | none => exact absurd rfl ho
      | some y =>
          have hq : q = Request.about ⟨c, family, term, edge, client, some y⟩ y edge := by
            rcases hcomposers hc with ⟨_, rfl⟩ | ⟨_, rfl⟩
            · simpa [Composer.parts] using hq
            · simpa [Composer.parts, parts, composer, source, source.isOperand] using hq
          subst hq
          simp [rank]
  | speaker hc ho hm hq =>
      rcases hcomposers hc with ⟨_, hx⟩ | ⟨_, hx⟩
      · -- the only member of the chain asks nothing
        cases hx
        obtain ⟨hmember, hears⟩ := Chain.speaker?_eq_some hm
        obtain rfl := List.mem_singleton.1 hmember
        obtain rfl : family = .value := of_decide_eq_true hears
        exact hq.elim
      · cases hx
  | member hc ho hm hears hq =>
      obtain rfl : operand = none := ho
      rcases hcomposers hc with ⟨_, hx⟩ | ⟨rfl, hx⟩
      · cases hx
      · cases hx
        simp only [composer, List.mem_cons, List.not_mem_nil, or_false] at hm
        obtain rfl | rfl := hm
        · obtain ⟨_ | n⟩ := term
          · exact hq.elim
          · rcases hq with rfl | ⟨_, hq⟩
            · simp only [rank, Inquiry.request, inquiry]
              omega
            · exact hq.elim
        · obtain rfl : family = .value := of_decide_eq_true hears
          exact hq.elim
  | parent hc ho hp =>
      obtain rfl : operand = none := ho
      rcases hcomposers hc with ⟨_, hx⟩ | ⟨rfl, hx⟩
      · cases hx
      · cases hx
        cases hp
        simp [rank]
  | relay hc =>
      rcases hcomposers hc with ⟨_, hx⟩ | ⟨_, hx⟩ <;> cases hx

/-- After other questions were asked, the answer about a term on the ladder is what the reference
says. -/
theorem answer_agrees :
    network.reference (question 2) = composer.meaning .followed network.reference (question 2) ∧
    ∃ enough, ∀ deeper, enough ≤ deeper →
      ((network.answer deeper (question 2)).outcome
        (network.after 9 [.ask (question 3), .clear ⟨0⟩, .ask (question 1)] ())).1 =
      network.reference (question 2) := by
  have hstateless : ∀ d composer, True → network.composer? d = some composer →
      ∀ a ∈ composer.analyses, ∀ family q, (a.answer family q).Stateless := by
    rintro ⟨_ | _ | n⟩ x _ hx a ha family q
    · cases hx
      obtain rfl := List.mem_singleton.1 ha
      dsimp only
      exact Analysis.constant_stateless _ _ _ _ family q
    · cases hx
      simp only [Composer.analyses, composer, List.map_cons, List.map_nil, List.mem_cons,
        List.not_mem_nil, or_false] at ha
      obtain rfl | rfl := ha
      · obtain ⟨⟨_ | n⟩, edge, c, self⟩ := q
        · exact trivial
        · exact fun _ => trivial
      · exact Analysis.constant_stateless _ _ _ _ family q
    · cases hx
  have hwf : WellFounded fun q r => True ∧ network.Raises .followed r q :=
    Subrelation.wf (fun h => rank_lt h.2) (measure rank).wf
  have hagree := Tight.memo_agrees hstateless (fun _ _ _ _ => trivial) hwf (c := ⟨1⟩)
    (t := composer) rfl trivial
  have hsession : ((network.session 9 [.ask (question 3), .clear ⟨0⟩, .ask (question 1)]).outcome
      (.initial ())).1 = .ok () := by decide +kernel
  exact ⟨hagree.2.1 _ rfl rfl, hagree.2.2 9 _ () hsession _ rfl⟩

end Ladder

end JointAnalysis
