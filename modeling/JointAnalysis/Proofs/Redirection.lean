import JointAnalysis.Proofs.Fitting
import JointAnalysis.Proofs.Lockstep
import JointAnalysis.Proofs.Termination
import Mathlib.Data.Set.Card
import Mathlib.Data.Set.Finite.Lattice

/-!
# Constants and echoes

Where all analyses know constants or echo, a tight composer is asked about a term and asks about the
terms to which its echoes redirect it. The redirections make a graph of the terms. If there are no
circles in the graphs of the composers above it, a question about a term is grounded if and only if
no circle of the composer's own graph can be reached from it, `Tight.Echoing.grounded_iff`. The
queries from which a circle can be reached make a region in which networks with different cache
policies go in lockstep. All questions come to an end, and none ends with a fault.
-/

namespace JointAnalysis

open Tight

variable {V R M β : Type}

namespace Analysis.Elementary

variable {a : Analysis ValueLeaf RegionLeaf M} (h : a.Elementary)

include h

/-- Constants and echoes handle values only. -/
theorem family_eq {family : Family} (hears : a.handles family = true) : family = .value := by
  cases h with
  | constant => exact of_decide_eq_true hears
  | echo => exact of_decide_eq_true hears

/-- Constants and echoes are stateless. -/
theorem stateless (family : Family) (q : Inquiry) : (a.answer family q).Stateless := by
  cases h with
  | constant name direction values tally =>
      exact Analysis.constant_stateless name direction values tally family q
  | echo name redirect tally => exact Analysis.echo_stateless name redirect tally family q

/-- Constants and echoes that are asked about values do not fail. -/
theorem not_mayFail (q : Inquiry) (fault : Fault) : ¬ (a.answer .value q).MayFail fault := by
  cases h with
  | constant => exact id
  | echo => exact fun ⟨_, hfail⟩ => hfail

/-- Only echoes ask, and only about the value of the term to which they redirect. -/
theorem mayAsk {family : Family} {q : Inquiry} {s : Request}
    (hs : (a.answer family q).MayAsk s) :
    family = .value ∧ ∃ name redirect tally, a = .echo name redirect tally ∧
      s = q.request .value ((redirect q.term).getD q.term) := by
  cases h with
  | constant => cases family <;> exact hs.elim
  | echo name redirect tally =>
      cases family with
      | value =>
          rcases hs with rfl | ⟨_, hs⟩
          · exact ⟨rfl, name, redirect, tally, rfl, rfl⟩
          · exact hs.elim
      | codeLoc => exact hs.elim
      | memRegion => exact hs.elim
      | memLoc => exact hs.elim

end Analysis.Elementary

/-- A chain or a tight composer all of whose analyses know constants or echo. -/
def Composer.Elementary : Composer ValueLeaf RegionLeaf M → Prop
  | .chain x => ∀ m ∈ x.members, m.analysis.Elementary
  | .tight t => ∀ m ∈ t.members, m.analysis.Elementary
  | .relay _ => False

/-- All analyses of such a composer know constants or echo. -/
theorem Composer.Elementary.analysis {x : Composer ValueLeaf RegionLeaf M} (h : x.Elementary)
    {a : Analysis ValueLeaf RegionLeaf M} (ha : a ∈ x.analyses) : a.Elementary := by
  cases x with
  | chain x =>
      obtain ⟨m, hm, rfl⟩ := List.mem_map.1 ha
      exact h m hm
  | tight t =>
      obtain ⟨m, hm, rfl⟩ := List.mem_map.1 ha
      exact h m hm
  | relay x => exact h.elim

section Chains

/-- How many questions to a chain can come out of one. -/
def Chain.rank (x : Chain V R M) (r : Request) : Nat :=
  2 * (x.members.takeWhile (·.id ≠ r.client)).length + if r.operand = none then 0 else 1

/-- Fewer members stand before a member than before a client after it. -/
theorem length_takeWhile_lt {members : List (Member V R M)} {m : Member V R M}
    {p : Member V R M → Bool} (hm : m ∈ members.takeWhile p) :
    (members.takeWhile (·.id ≠ m.id)).length < (members.takeWhile p).length := by
  induction members with
  | nil => cases hm
  | cons first rest ih =>
      by_cases hp : p first = true
      · rw [List.takeWhile_cons_of_pos hp] at hm ⊢
        by_cases hid : first.id = m.id
        · rw [List.takeWhile_cons_of_neg (by simpa using hid)]
          exact Nat.succ_pos _
        · have hrest : m ∈ rest.takeWhile p := by
            rcases List.mem_cons.1 hm with rfl | hrest
            · exact absurd rfl hid
            · exact hrest
          rw [List.takeWhile_cons_of_pos (by simpa using hid), List.length_cons, List.length_cons]
          exact Nat.succ_lt_succ (ih hrest)
      · rw [List.takeWhile_cons_of_neg hp] at hm
        cases hm

variable {net : Network ValueLeaf RegionLeaf M} {p : ComposerId}
  {x : Chain ValueLeaf RegionLeaf M} (hx : net.composer? p = some (.chain x))
  (hmembers : ∀ m ∈ x.members, m.analysis.Elementary)

include hx hmembers

/-- A chain of constants and echoes asks only itself, on behalf of members further in front. -/
theorem Chain.raises {r q : Request} (hr : r.composer = p) (hq : net.Raises .followed r q) :
    q.composer = p ∧ x.rank q < x.rank r := by
  subst hr
  cases hq with
  | part hc ho hq =>
      cases hx.symm.trans hc
      cases hoperand : r.operand with
      | none => exact absurd hoperand ho
      | some operand =>
          simp only [Composer.parts, hoperand, List.mem_singleton] at hq
          subst hq
          exact ⟨rfl, by simp [rank, hoperand]⟩
  | @speaker _ m _ hc ho hm hq =>
      cases hx.symm.trans hc
      have hbefore : m ∈ x.members.takeWhile (·.id ≠ r.client) :=
        List.mem_reverse.1 (List.mem_of_find?_eq_some hm)
      obtain ⟨_, _, redirect, _, _, rfl⟩ := (hmembers m (Chain.speaker?_eq_some hm).1).mayAsk hq
      refine ⟨rfl, ?_⟩
      have hlt := length_takeWhile_lt hbefore
      show 2 * (x.members.takeWhile (·.id ≠ m.id)).length + 0 < x.rank r
      rw [rank]
      omega
  | member hc => cases hx.symm.trans hc
  | parent hc => cases hx.symm.trans hc
  | relay hc => cases hx.symm.trans hc

/-- The questions that a chain of constants and echoes raises come to an end. -/
theorem Chain.wellFounded :
    WellFounded fun q r : Request => r.composer = p ∧ net.Raises .followed r q :=
  Subrelation.wf (fun h => (Chain.raises hx hmembers h.1 h.2).2) (measure x.rank).wf

/-- All questions to a chain of constants and echoes are grounded. -/
theorem Chain.grounded {r : Request} (hr : r.composer = p) : net.Grounded r := by
  refine @Network.Grounded.of_view _ _ _ net (· = p)
    (fun r q hr hq => (Chain.raises hx hmembers hr hq).1) (Chain.wellFounded hx hmembers) ?_ r hr
  rintro d y rfl hy a ha family q
  cases hx.symm.trans hy
  obtain ⟨m, hm, rfl⟩ := List.mem_map.1 ha
  exact (hmembers m hm).stateless family q

omit hx hmembers in
/-- A plan comes to an end if its questions do. -/
theorem Plan.run_ends {net : Network V R M} (plan : Plan V R M β)
    (hask : ∀ q, plan.MayAsk q → ∀ w, net.Ends (fun ask => ask q) w) (w : World V R M) :
    net.Ends (fun ask => plan.run ask) w := by
  induction plan generalizing w with
  | give result => exact .of_ok fun _ => rfl
  | fail fault => exact .of_fault fun _ => rfl
  | ask r next ih =>
      exact .bind (.asking r) (fun b => (next b).run_steady) (hask r (.inl rfl) w)
        fun _ b w' _ => ih b (fun q hq => hask q (.inr ⟨b, hq⟩)) w'
  | recollect next ih =>
      exact .after (fun _ => rfl) (ih w.memory (fun q hq => hask q ⟨_, hq⟩) w)
  | remember update next ih =>
      exact .after (fun _ => rfl) (ih hask { w with memory := update w.memory })
  | inspect d key next ih =>
      exact .after (fun _ => rfl)
        (ih ((w.cache d).state? key) (w.cache d).size (fun q hq => hask q ⟨_, _, hq⟩) w)
  | clear d next ih => exact .after (fun _ => rfl) (ih hask (w.clear d))

omit hmembers in
/-- A question about a term to a chain comes to an end if those do that it raises. -/
theorem Chain.query_ends {r : Request} (hr : r.composer = p) (ho : r.operand = none)
    (hask : ∀ q, net.Raises .followed r q → ∀ w, net.Ends (fun ask => ask q) w)
    (w : World ValueLeaf RegionLeaf M) :
    net.Ends (fun ask => (Composer.chain x).query ask r) w := by
  subst hr
  have hfind : ∀ w, net.Ends (fun ask => (Composer.chain x).find ask r) w := by
    intro w
    simp only [Composer.find, Chain.query]
    cases hm : x.speaker? r.family r.client with
    | none => exact .of_ok fun _ => rfl
    | some m =>
        refine .after (fun _ => Run.outcome_bind_ok (Run.outcome_record w _)) ?_
        refine .bind (Plan.run_steady _) (fun _ => .const _) (Plan.run_ends _ ?_ _)
          fun _ _ _ _ => .of_ok fun _ => rfl
        exact fun q hq => hask q (.speaker hx ho hm hq)
  refine .after (fun _ => Run.outcome_bind_ok (Run.outcome_record w _)) ?_
  refine .bind ?_ (fun _ => .const _) (hfind _) fun _ _ _ _ => .of_ok fun _ => rfl
  simp only [Composer.find, Chain.query]
  cases x.speaker? r.family r.client with
  | none => exact .const _
  | some m => exact m.analysis.consult_steady _ _

/-- All questions to a chain of constants and echoes come to an end. -/
theorem Chain.endsAlways : net.EndsAlways p := by
  intro r w hr
  induction r using (Chain.wellFounded hx hmembers).induction generalizing w with
  | _ r ih =>
      have hask : ∀ q, net.Raises .followed r q → ∀ w, net.Ends (fun ask => ask q) w :=
        fun q hq w => ih q ⟨hr, hq⟩ w (Chain.raises hx hmembers hr hq).1
      subst hr
      cases ho : r.operand with
      | none =>
          obtain ⟨depth, hdepth⟩ := Chain.query_ends hx rfl ho hask w
          refine ⟨depth + 1, ?_⟩
          show ((net.answer (depth + 1) r).outcome w).1 ≠ _
          rw [Network.answer, hx]
          simpa only [Composer.respond, ho] using hdepth
      | some operand =>
          -- the question about the term itself is answered at the same depth
          obtain ⟨depth, hdepth⟩ := hask (r.about operand r.edge)
            (.part hx (by simp [ho]) (by simp [Composer.parts, ho])) w
          refine ⟨depth, ?_⟩
          cases depth with
          | zero => exact absurd rfl hdepth
          | succ depth =>
              have hpart : ((net.answer (depth + 1) (r.about operand r.edge)).outcome w).1 ≠
                  .error .exhausted := hdepth
              show ((net.answer (depth + 1) r).outcome w).1 ≠ _
              rw [Network.answer, hx] at hpart ⊢
              simpa only [Composer.respond, ho, Composer.queryOperand] using hpart

end Chains

/-- A term that is sent elsewhere is redirected. -/
theorem eq_some_getD {target : Option TermId} {x : TermId} (h : target.getD x ≠ x) :
    target = some (target.getD x) := by
  cases target with
  | none => exact absurd rfl h
  | some y => rfl

namespace Tight

/-- An echo among the members redirects a term to another one. -/
def Sends (t : Tight ValueLeaf RegionLeaf M) (x y : TermId) : Prop :=
  x ≠ y ∧ ∃ m ∈ t.members, ∃ name redirect tally,
    m.analysis = .echo name redirect tally ∧ redirect x = some y

/-- Redirections lead from a term to another one or to itself. -/
abbrev Reaches (t : Tight ValueLeaf RegionLeaf M) : TermId → TermId → Prop :=
  Relation.ReflTransGen t.Sends

/-- Redirections lead from a term back to it. -/
abbrev Circular (t : Tight ValueLeaf RegionLeaf M) (x : TermId) : Prop :=
  Relation.TransGen t.Sends x x

/-- Redirections lead from a term to a circle. -/
def Winding (t : Tight ValueLeaf RegionLeaf M) (x : TermId) : Prop :=
  ∃ y, t.Reaches x y ∧ t.Circular y

/-- The queries at an edge to which redirections lead from a term, and from there to a circle. -/
def Tangled (t : Tight ValueLeaf RegionLeaf M) (x : TermId) (edge : EdgeId) (k : QueryKey) : Prop :=
  k.kind = Family.value.kind ∧ k.edge = edge ∧ t.Reaches x k.term ∧ t.Winding k.term

/-- The terms to which terms are redirected. -/
def targets (t : Tight ValueLeaf RegionLeaf M) : Set TermId := {y | ∃ x, t.Sends x y}

end Tight

/-- A chain, or a tight composer without circles and below such composers only. -/
inductive Network.Straight (net : Network ValueLeaf RegionLeaf M) : ComposerId → Prop
  | chain {p : ComposerId} {x : Chain ValueLeaf RegionLeaf M}
      (hx : net.composer? p = some (.chain x)) : Straight net p
  | tight {p : ComposerId} {t : Tight ValueLeaf RegionLeaf M}
      (ht : net.composer? p = some (.tight t)) (hfinite : t.targets.Finite)
      (hcircles : ∀ x, ¬ t.Circular x) (hparent : ∀ q, t.parent = some q → Straight net q) :
      Straight net p

/-- Networks that are alike are straight at the same places. -/
theorem Network.Straight.alike {net net' : Network ValueLeaf RegionLeaf M} (hlike : net.Alike net')
    {p : ComposerId} (h : net.Straight p) : net'.Straight p := by
  induction h with
  | chain hx =>
      obtain ⟨_, hx'⟩ := hlike.composer hx
      exact .chain hx'
  | tight ht hfinite hcircles _ ih =>
      obtain ⟨policy, ht'⟩ := hlike.composer ht
      exact .tight (t := Tight.withPolicy _ policy) ht' hfinite hcircles ih

namespace Tight

/-- A tight composer in a network of constants and echoes, whose echoes redirect to finitely many
terms. The composers above it are straight, while there may be circles in its own redirections. -/
structure Echoing (net : Network ValueLeaf RegionLeaf M) (c : ComposerId)
    (t : Tight ValueLeaf RegionLeaf M) : Prop where
  tight : net.composer? c = some (.tight t)
  elementary : ∀ d x, net.composer? d = some x → x.Elementary
  parent : ∀ p, t.parent = some p → net.Straight p
  finite : t.targets.Finite

variable {t : Tight ValueLeaf RegionLeaf M} {x : TermId}

/-- A way to a circle begins with a redirection. -/
theorem Winding.step (h : t.Winding x) : ∃ y, t.Sends x y ∧ t.Winding y := by
  obtain ⟨z, hreach, hcircular⟩ := h
  rcases Relation.ReflTransGen.cases_head hreach with rfl | ⟨y, hsends, hrest⟩
  · obtain ⟨y, hsends, hback⟩ := Relation.TransGen.head'_iff.1 hcircular
    exact ⟨y, hsends, x, hback, hcircular⟩
  · exact ⟨y, hsends, z, hrest, hcircular⟩

/-- A request about a tangled query asks for the value of a term from which redirections lead to a
circle. -/
theorem of_tangled {c : ComposerId} {edge : EdgeId} {r : Request}
    (hr : r.In c (t.Tangled x edge)) :
    r.family = .value ∧ r.edge = edge ∧ t.Reaches x r.term ∧ t.Winding r.term :=
  ⟨Family.kind_injective hr.key.1, hr.key.2⟩

namespace Echoing

variable {net net' : Network ValueLeaf RegionLeaf M} {c : ComposerId} (h : t.Echoing net c)

include h

/-- Networks that are alike have such composers at the same places. -/
theorem alike (hlike : net.Alike net') {policy : CachePolicy}
    (ht : net'.composer? c = some (.tight (t.withPolicy policy))) :
    (t.withPolicy policy).Echoing net' c := by
  refine ⟨ht, fun d x hx => ?_, fun p hp => ?_, h.finite⟩
  · obtain ⟨policy', hx'⟩ := hlike.symm.composer hx
    have helementary := h.elementary d _ hx'
    cases x <;> exact helementary
  · exact (h.parent p hp).alike hlike

/-- From a term only finitely many terms can be reached. -/
theorem finite_reaches (x : TermId) : {y | t.Reaches x y}.Finite := by
  refine (h.finite.insert x).subset fun y hy => ?_
  rcases Relation.ReflTransGen.cases_tail hy with rfl | ⟨z, _, hsends⟩
  · exact Set.mem_insert _ _
  · exact Set.mem_insert_of_mem _ ⟨z, hsends⟩

/-- The network clears no cache while it answers. -/
theorem spares : net.Spares c := by
  refine Network.spares_of_elementary (fun x hx a ha => ?_) c
  obtain ⟨i, hi⟩ := List.mem_iff_getElem?.1 hx
  exact (h.elementary ⟨i⟩ x hi).analysis ha

/-- No analysis of the network fails. -/
theorem not_blames (fault : Fault) : ¬ net.Blames fault := by
  rintro ⟨x, hx, family, a, hconsults, q, hfails⟩
  obtain ⟨i, hi⟩ := List.mem_iff_getElem?.1 hx
  have helementary := h.elementary ⟨i⟩ x hi
  have hcase : a.Elementary ∧ a.handles family = true := by
    cases x with
    | chain x =>
        obtain ⟨hears, m, hm, rfl⟩ := hconsults
        exact ⟨helementary m hm, hears⟩
    | tight t =>
        obtain ⟨hears, m, hm, rfl⟩ := hconsults
        exact ⟨helementary m hm, hears⟩
    | relay x => exact helementary.elim
  obtain rfl := hcase.1.family_eq hcase.2
  exact hcase.1.not_mayFail q fault hfails

section Questions

variable {r : Request} (hr : r.composer = c) (ho : r.operand = none)

include hr ho

/-- What a question about a term raises: the parent is asked the same, and the echoes ask about the
terms to which they redirect it, or else about the term itself. -/
theorem raised {rule : Recurrence} {q : Request} (hq : net.Raises rule r q) :
    (∃ p, t.parent = some p ∧ q.composer = p) ∨
    r.family = .value ∧ ∃ self, rule = .followed ∧ q = r.own self ∨
      ∃ y, t.Sends r.term y ∧ q = { r.own self with term := y } := by
  subst hr
  cases hq with
  | part _ hoperand => exact absurd ho hoperand
  | speaker hc => cases h.tight.symm.trans hc
  | @member _ m _ hc _ hm _ hq hown =>
      cases h.tight.symm.trans hc
      obtain ⟨hfamily, name, redirect, tally, hecho, rfl⟩ := (h.elementary _ _ hc m hm).mayAsk hq
      refine .inr ⟨hfamily, m.id, ?_⟩
      have hrequest : ∀ y, (inquiry r m).request .value y = { r.own m.id with term := y } := by
        intro y
        rw [← hfamily]
        rfl
      rw [hrequest] at hown ⊢
      by_cases hself : (redirect r.term).getD r.term = r.term
      · have hsame : { r.own m.id with term := (redirect r.term).getD r.term } = r.own m.id :=
          congrArg (fun y => { r.own m.id with term := y }) hself
        cases rule with
        | followed => exact .inl ⟨rfl, hsame⟩
        | cut => exact absurd hsame (hown rfl)
      · exact .inr
          ⟨_, ⟨Ne.symm hself, m, hm, name, redirect, tally, hecho, eq_some_getD hself⟩, rfl⟩
  | parent hc _ hp =>
      cases h.tight.symm.trans hc
      exact .inl ⟨_, hp, rfl⟩
  | relay hc => cases h.tight.symm.trans hc

/-- A question about a term is grounded if redirections lead from the term to no circle, and all
questions to the parent are grounded. -/
theorem grounded_below
    (hparent : ∀ p, t.parent = some p → ∀ q : Request, q.composer = p → net.Grounded q)
    (hx : ¬ t.Winding r.term) : net.Grounded r := by
  -- the terms that can be reached get fewer with every redirection, since none leads back
  induction hn : {y | t.Reaches r.term y}.ncard using Nat.strong_induction_on
    generalizing r with
  | _ n ih =>
      subst hn
      refine .intro (fun _ composer hc => ?_) fun q hq => ?_
      · subst hr
        cases h.tight.symm.trans hc
        exact fun m hm _ => (h.elementary _ _ h.tight m hm).stateless _ _
      · rcases h.raised hr ho hq with ⟨p, hp, hqp⟩ | ⟨_, self, ⟨hrule, _⟩ | ⟨y, hsends, rfl⟩⟩
        · exact hparent p hp q hqp
        · cases hrule
        · have hbelow : {z | t.Reaches y z} ⊂ {z | t.Reaches r.term z} := by
            refine ⟨fun z hz => Relation.ReflTransGen.head hsends hz, fun hsubset => ?_⟩
            have hback : t.Reaches y r.term := hsubset (Relation.ReflTransGen.refl)
            exact hx ⟨r.term, .refl, Relation.TransGen.head' hsends hback⟩
          have hwinding : ¬ t.Winding y := fun ⟨z, hz, hcircular⟩ =>
            hx ⟨z, .head hsends hz, hcircular⟩
          exact ih _ (Set.ncard_lt_ncard hbelow (h.finite_reaches r.term)) hr rfl hwinding rfl

/-- A question about the value of a term is not grounded if redirections lead from the term to a
circle. -/
theorem not_grounded (hfamily : r.family = .value) (hx : t.Winding r.term) : ¬ net.Grounded r := by
  intro hground
  induction hground with
  | @intro r _ _ ih =>
      subst hr
      obtain ⟨y, ⟨hne, m, hm, name, redirect, tally, hecho, hredirect⟩, hy⟩ := hx.step
      have hasks : (m.analysis.answer r.family (inquiry r m)).MayAsk
          { r.own m.id with term := y } := by
        rw [hecho]
        obtain ⟨c, family, term, edge, client, operand⟩ := r
        obtain rfl : family = .value := hfamily
        refine .inl ?_
        simp [Inquiry.request, inquiry, hredirect]
      have hears : m.analysis.handles r.family = true := by
        rw [hecho, hfamily]
        rfl
      refine ih { r.own m.id with term := y } (.member h.tight ho hm hears hasks ?_) rfl rfl
        hfamily hy
      exact fun _ heq => hne (congrArg Request.term heq).symm

end Questions

/-- A question comes to an end if all questions to the parent do. -/
theorem ends_below (hparent : ∀ p, t.parent = some p → net.EndsAlways p) : net.EndsAlways c := by
  intro r w hr
  -- redirections lead from the parts of the question to finitely many queries
  have hfinite : {k : QueryKey | ∃ q ∈ t.parts r, k.edge = q.edge ∧ k.kind = q.family.kind ∧
      t.Reaches q.term k.term}.Finite := by
    refine (Set.Finite.biUnion (List.finite_toSet (t.parts r)) fun q _ =>
      (h.finite_reaches q.term).image fun y => (⟨y, q.edge, q.family.kind⟩ : QueryKey)).subset ?_
    rintro ⟨y, edge, kind⟩ ⟨q, hq, rfl, rfl, hy⟩
    exact Set.mem_biUnion hq ⟨y, hy, rfl⟩
  have hconfined : t.Confined net c hfinite.toFinset := by
    refine ⟨fun m hm s hs hkey hears => ?_, hparent⟩
    have helementary := h.elementary _ _ h.tight m hm
    obtain ⟨q, hq, hedge, hkind, hreaches⟩ := hfinite.mem_toFinset.1 hkey
    obtain ⟨d, family, term, edge, client, operand⟩ := s
    obtain rfl := helementary.family_eq hears
    obtain rfl : d = c := hs
    obtain ⟨id, analysis⟩ := m
    dsimp only at helementary hears
    cases helementary with
    | constant => exact trivial
    | echo name redirect tally =>
        refine ⟨.inl ⟨rfl, fun asked hasked => ?_⟩, fun _ => trivial⟩
        obtain rfl := List.mem_singleton.1 hasked
        refine hfinite.mem_toFinset.2 ⟨q, hq, hedge, hkind, ?_⟩
        show t.Reaches q.term ((redirect term).getD term)
        by_cases hself : term = (redirect term).getD term
        · rw [← hself]
          exact hreaches
        · exact hreaches.tail
            ⟨hself, _, hm, name, redirect, tally, rfl, eq_some_getD (Ne.symm hself)⟩
  refine Tight.answer_ends h.tight h.spares hconfined ⟨hr, fun q hq => ?_⟩ w
  exact hfinite.mem_toFinset.2 ⟨q, hq, rfl, rfl, .refl⟩

end Echoing

end Tight

namespace Network.Straight

variable {net : Network ValueLeaf RegionLeaf M} {p : ComposerId} (h : net.Straight p)
  (helementary : ∀ d x, net.composer? d = some x → x.Elementary)

include h helementary

/-- All questions to a straight composer are grounded. -/
theorem grounded (q : Request) (hq : q.composer = p) : net.Grounded q := by
  induction h generalizing q with
  | chain hx => exact Chain.grounded hx (helementary _ _ hx) hq
  | @tight p t ht hfinite hcircles hparent ih =>
      have hechoing : t.Echoing net p := ⟨ht, helementary, hparent, hfinite⟩
      have hplain : ∀ s : Request, s.composer = p → s.operand = none → net.Grounded s :=
        fun s hs ho => hechoing.grounded_below hs ho ih fun ⟨y, _, hy⟩ => hcircles y hy
      by_cases ho : q.operand = none
      · exact hplain q hq ho
      · refine .intro (fun hnone => absurd hnone ho) fun s hs => ?_
        cases hs with
        | part hc _ hs =>
            obtain ⟨hcomposer, hnone⟩ := Composer.of_mem_parts hs
            exact hplain s (hcomposer.trans hq) hnone
        | speaker _ hnone => exact absurd hnone ho
        | member _ hnone => exact absurd hnone ho
        | parent _ hnone => exact absurd hnone ho
        | relay _ hnone => exact absurd hnone ho

/-- All questions to a straight composer come to an end. -/
theorem endsAlways : net.EndsAlways p := by
  induction h with
  | chain hx => exact Chain.endsAlways hx (helementary _ _ hx)
  | @tight p t ht hfinite hcircles hparent ih =>
      have hechoing : t.Echoing net p := ⟨ht, helementary, hparent, hfinite⟩
      exact hechoing.ends_below ih

end Network.Straight

namespace Tight.Echoing

variable {net : Network ValueLeaf RegionLeaf M} {c : ComposerId} {t : Tight ValueLeaf RegionLeaf M}
  (h : t.Echoing net c)

include h

/-- All questions to the parent are grounded. -/
theorem parent_grounded (p : ComposerId) (hp : t.parent = some p) (q : Request)
    (hq : q.composer = p) : net.Grounded q :=
  (h.parent p hp).grounded h.elementary q hq

/-- All questions to the composer come to an end. -/
theorem endsAlways : net.EndsAlways c :=
  h.ends_below fun p hp => (h.parent p hp).endsAlways h.elementary

/-- A question about the value of a term is grounded if and only if redirections lead from the term
to no circle. -/
theorem grounded_iff {r : Request} (hr : r.composer = c) (ho : r.operand = none)
    (hfamily : r.family = .value) : net.Grounded r ↔ ¬ t.Winding r.term :=
  ⟨fun hground hx => h.not_grounded hr ho hfamily hx hground,
    h.grounded_below hr ho h.parent_grounded⟩

/-- Tangled queries lead to each other and to grounded questions only. -/
theorem region (x : TermId) (edge : EdgeId) : net.Region c t (t.Tangled x edge) where
  tight := h.tight
  ungrounded r hr := by
    obtain ⟨hfamily, _, _, hwinding⟩ := of_tangled hr
    rw [h.grounded_iff hr.composer hr.plain hfamily, not_not]
    exact hwinding
  stateless r hr m hm _ := (h.elementary _ _ h.tight m hm).stateless _ _
  closed r q hr hq := by
    obtain ⟨hfamily, hedge, hreaches, hwinding⟩ := of_tangled hr
    rcases h.raised hr.composer hr.plain hq with ⟨p, hp, hqp⟩ | ⟨_, self, ⟨_, rfl⟩ |
      ⟨y, hsends, rfl⟩⟩
    · exact .inl (h.parent_grounded p hp q hqp)
    · exact .inr ⟨hr.composer, rfl, hr.key⟩
    · by_cases hy : t.Winding y
      · exact .inr ⟨hr.composer, rfl, hr.key.1, hr.key.2.1, hreaches.tail hsends, hy⟩
      · have hiff := h.grounded_iff (r := { r.own self with term := y }) hr.composer rfl hfamily
        exact .inl (hiff.2 hy)

end Tight.Echoing

end JointAnalysis
