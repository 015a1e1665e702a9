import JointAnalysis.Proofs.OwnQuestion
import JointAnalysis.Proofs.Redirection
import JointAnalysis.Proofs.Rest

/-!
# When the cache policy cannot be seen

A composer of constants and echoes that drops its cache after each outermost query answers every
query as if it were the first one. A composer that retains its cache may not: inside a circle of
redirections an answer is cut short, and it is kept as it is, `Circle.retained_answer_differs`. It
does answer as if the query were the first one, if no circle of redirections can be reached from the
term as well as from another term about which it was asked before at the same edge. Asking the same
query before does no harm. `Tight.policy_transparent` is the result.
-/

namespace JointAnalysis

open Lookup Tight

variable {V R M : Type}

/-- A query of a client about the value of a term at an edge. -/
structure ValueQuery where
  term : TermId
  edge : EdgeId
  client : AnalysisId

/-- The request by which a query about a value is made. -/
abbrev Request.forValue (c : ComposerId) (query : ValueQuery) : Request :=
  ⟨c, .value, query.term, query.edge, query.client, none⟩

/-- A composer is asked about values, one after the other. -/
def Step.asks (c : ComposerId) (queries : List ValueQuery) : List (Step M) :=
  queries.map fun query => .ask (.forValue c query)

/-- What a composer answers to a query about a value after other ones, if these have answers too. -/
def Network.reply (net : Network V R M) (depth : Nat) (memory : M) (c : ComposerId)
    (earlier : List ValueQuery) (query : ValueQuery) : Except Halt (Value V) :=
  ((do
    net.session depth (Step.asks c earlier)
    net.answer depth (.forValue c query)).outcome (.initial memory)).1

namespace Network

/-- The network in which a composer has another cache policy. -/
def withPolicy (net : Network V R M) (c : ComposerId) (policy : CachePolicy) : Network V R M :=
  { net with composers := net.composers.modify c.index (·.withPolicy policy) }

/-- Only the one composer is different. -/
theorem composer?_withPolicy (net : Network V R M) (c d : ComposerId) (policy : CachePolicy) :
    (net.withPolicy c policy).composer? d =
      if d = c then (net.composer? d).map (·.withPolicy policy) else net.composer? d := by
  obtain ⟨i⟩ := c
  obtain ⟨j⟩ := d
  simp only [composer?, withPolicy, List.getElem?_modify, ComposerId.mk.injEq]
  by_cases h : j = i
  · simp [h]
  · simp [h, Ne.symm h]

/-- A network with another policy of a composer is alike. -/
theorem alike_withPolicy (net : Network V R M) (c : ComposerId) (policy : CachePolicy) :
    net.Alike (net.withPolicy c policy) := by
  intro d
  rw [composer?_withPolicy]
  split
  · rw [Option.map_map]
    congr 1
    funext x
    cases x <;> rfl
  · rfl

/-- Networks that are alike to a third one are alike. -/
theorem Alike.trans {net₁ net₂ net₃ : Network V R M} (h : net₁.Alike net₂) (h' : net₂.Alike net₃) :
    net₁.Alike net₃ := fun d => (h d).trans (h' d)

section Sessions

variable {net : Network V R M} {depth : Nat} {memory : M} {c : ComposerId}

/-- Questions in turn preserve what each of them preserves. -/
theorem asks_preserve {holds : World V R M → Prop} {queries : List ValueQuery}
    (h : ∀ query ∈ queries, (net.answer depth (.forValue c query)).Preserves holds) :
    (net.session depth (Step.asks c queries)).Preserves holds := by
  refine Run.preserves_iff.2 fun w hw => net.session_ends (fun r hr => ?_)
    (fun c hc => ?_) (fun update hu => ?_) hw
  · obtain ⟨query, hquery, hstep⟩ := List.mem_map.1 hr
    cases hstep
    exact Run.preserves_iff.1 (h query hquery)
  · obtain ⟨_, _, hstep⟩ := List.mem_map.1 hc
    cases hstep
  · obtain ⟨_, _, hstep⟩ := List.mem_map.1 hu
    cases hstep

/-- A query has a reply if those before it have one and the composer answers it after them. -/
theorem reply_eq_ok {earlier : List ValueQuery} {query : ValueQuery} {a : Value V} :
    net.reply depth memory c earlier query = .ok a ↔
      ((net.session depth (Step.asks c earlier)).outcome (.initial memory)).1 = .ok () ∧
      ((net.answer depth (.forValue c query)).outcome
        (net.after depth (Step.asks c earlier) memory)).1 = .ok a := by
  unfold reply after
  rcases hsession : (net.session depth (Step.asks c earlier)).outcome (.initial memory) with
    ⟨halt | _, w⟩
  · rw [Run.outcome_bind_error hsession]
    exact ⟨(fun h => nomatch h), fun h => nomatch h.1⟩
  · rw [Run.outcome_bind_ok hsession]
    exact ⟨fun h => ⟨rfl, h⟩, fun h => h.2⟩

/-- Queries in turn are a query after those before it, and then the others. -/
theorem session_split (before later : List ValueQuery) (query : ValueQuery) :
    net.session depth (Step.asks c (before ++ query :: later)) = (do
      net.session depth (Step.asks c before)
      let _ ← net.answer depth (.forValue c query)
      net.session depth (Step.asks c later)) := by
  have hsteps : (Step.asks c (before ++ query :: later) : List (Step M)) =
      Step.asks c before ++ .ask (.forValue c query) :: Step.asks c later :=
    List.map_append
  rw [hsteps, session_append, session, perform]
  simp

end Sessions

end Network

section Resting

variable {net : Network V R M} {c : ComposerId} {t : Tight V R M}
  (ht : net.composer? c = some (.tight t)) {depth : Nat}

/-- Where no cache is cleared or dropped, what is kept stays. -/
theorem Move.settled {p q : Moment V R M} (h : Move net c t p q) (hspares : net.Spares c)
    (hretain : t.config.cachePolicy = .retain) {r : Request} (hr : r.composer = c)
    {kept : List (Object V R r.family)} (hp : Settled p.world r kept) : Settled q.world r kept :=
  (h.settled_or_cleared hretain hr hp).resolve_right fun hcleared => hcleared.1 hspares

include ht

/-- Where no cache is cleared or dropped, questions leave what is kept. -/
theorem Network.answer_settled (hspares : net.Spares c) (hretain : t.config.cachePolicy = .retain)
    {r : Request} (hr : r.composer = c) (kept : List (Object V R r.family)) (q : Request) :
    (net.answer depth q).Preserves (Settled · r kept) := by
  intro w hw answer w' hok
  have hmove : ∀ a b, Move net c t a b → Settled a.world r kept → Settled b.world r kept :=
    fun _ _ hmove => hmove.settled hspares hretain hr
  obtain ⟨_, hkept, _⟩ := (answer_returns ht depth q (s := []) trivial w).invariant hmove hw
  rw [hok] at hkept
  exact hkept

/-- A query from outside leaves the composer at rest. -/
theorem Tight.answer_rests {query : ValueQuery} {w w' : World V R M}
    (hw : Attended net c ⟨w, []⟩) {answer : Object V R .value}
    (hok : (net.answer depth (.forValue c query)).outcome w = (.ok answer, w')) :
    Attended net c ⟨w', []⟩ ∧ AtRest net c t (.forValue c query) answer w' := by
  cases depth with
  | zero => cases hok
  | succ depth =>
      rw [Network.answer_tight ht rfl rfl] at hok
      exact query_rests ht rfl rfl hw hok

variable {memory : M} {queries : List ValueQuery}
  (hsession : ((net.session depth (Step.asks c queries)).outcome (.initial memory)).1 =
    .ok ())

include hsession

/-- A composer that drops its cache keeps nothing between queries. -/
theorem Tight.dropped_after (hdrop : t.config.cachePolicy = .perTopLevelQuery) :
    (net.after depth (Step.asks c queries) memory).cache c = .empty := by
  have hpreserves : (net.session depth (Step.asks c queries)).Preserves
      fun w => Attended net c ⟨w, []⟩ ∧ w.cache c = .empty := by
    refine Network.asks_preserve fun query _ w hw answer w' hok => ?_
    obtain ⟨hattended, hrest⟩ := answer_rests ht hw.1 hok
    exact ⟨hattended, hrest.dropped hdrop⟩
  exact (hpreserves _ ⟨.initial memory, rfl⟩ () _ (Prod.ext hsession rfl)).2

end Resting

namespace Tight

/-- Whenever a circle can be reached from the term of a query as well as from that of an earlier one
at the same edge, they are about the same term. -/
def Apart (t : Tight ValueLeaf RegionLeaf M) (earlier : List ValueQuery)
    (query : ValueQuery) : Prop :=
  ∀ e ∈ earlier, e.edge = query.edge → e.term ≠ query.term →
    ∀ x, t.Reaches e.term x → t.Reaches query.term x → ¬ t.Circular x

namespace Echoing

variable {net net' : Network ValueLeaf RegionLeaf M} {c : ComposerId}
  {t : Tight ValueLeaf RegionLeaf M} (h : t.Echoing net c) {depth : Nat}
  {query : ValueQuery} {earlier : List ValueQuery}

include h

/-- Followed deeply enough, a session of questions ends, and it ends in the same way when it is
followed more deeply. -/
theorem session_ends (queries : List ValueQuery)
    (w : World ValueLeaf RegionLeaf M) :
    ∃ enough outcome, outcome.1 ≠ .error .exhausted ∧ ∀ depth, enough ≤ depth →
      (net.session depth (Step.asks c queries)).outcome w = outcome := by
  induction queries generalizing w with
  | nil => exact ⟨0, (.ok (), w), (fun h => nomatch h), fun _ _ => rfl⟩
  | cons query rest ih =>
      obtain ⟨enough, henough⟩ := h.endsAlways (.forValue c query) w rfl
      have hstable : ∀ depth, enough ≤ depth →
          (net.answer depth (.forValue c query)).outcome w =
            (net.answer enough (.forValue c query)).outcome w :=
        fun depth hle => (Steady.asking _).stable hle henough
      rcases hfirst : (net.answer enough (.forValue c query)).outcome w with
        ⟨halt | answer, w'⟩
      · refine ⟨enough, (.error halt, w'), ?_, fun depth hle => ?_⟩
        · intro hexhausted
          cases hexhausted
          exact henough (congrArg Prod.fst hfirst)
        · have hperform : (net.perform depth (.ask (.forValue c query))).outcome w =
              (.error halt, w') := Run.outcome_bind_error ((hstable depth hle).trans hfirst)
          exact Run.outcome_bind_error hperform
      · obtain ⟨more, outcome, hends, houtcome⟩ := ih w'
        refine ⟨max enough more, outcome, hends, fun depth hle => ?_⟩
        have hperform : (net.perform depth (.ask (.forValue c query))).outcome w =
            (.ok (), w') :=
          Run.outcome_bind_ok ((hstable depth (le_of_max_le_left hle)).trans hfirst)
        exact (Run.outcome_bind_ok hperform).trans (houtcome depth (le_of_max_le_right hle))

/-- Followed deeply enough, every query has a reply. -/
theorem replies (memory : M) (earlier : List ValueQuery)
    (query : ValueQuery) :
    ∃ enough, ∀ depth, enough ≤ depth →
      ∃ answer, net.reply depth memory c earlier query = .ok answer := by
  obtain ⟨n, ⟨result, w⟩, hends, houtcome⟩ := h.session_ends earlier (.initial memory)
  obtain ⟨m, hm⟩ := h.endsAlways (.forValue c query) w rfl
  refine ⟨max n m, fun depth hle => ?_⟩
  have hsession := houtcome depth (le_of_max_le_left hle)
  have hanswer : (net.answer depth (.forValue c query)).outcome w =
      (net.answer m (.forValue c query)).outcome w :=
    (Steady.asking _).stable (le_of_max_le_right hle) hm
  -- a fault would have to be one with which an analysis may end
  have haccounts := net.session_accounts depth (Step.asks c earlier) _ (.initial memory)
  unfold Network.reply
  rcases result with (fault | _) | _
  · exact absurd ((haccounts.error hsession).blames fault rfl) (h.not_blames fault)
  · exact absurd rfl hends
  · rw [Run.outcome_bind_ok hsession]
    have hreply := net.answer_accounts depth (.forValue c query) w
      (haccounts.ok hsession).1.accounted
    rcases houtcome : (net.answer depth (.forValue c query)).outcome w with
      ⟨(fault | _) | answer, w'⟩
    · exact absurd ((hreply.error houtcome).blames fault rfl) (h.not_blames fault)
    · rw [← hanswer, houtcome] at hm
      exact absurd rfl hm
    · exact ⟨answer, rfl⟩

/-- A question from which no circle can be reached that can be reached from another one leaves the
tangled queries of the other one alone. -/
theorem answer_untouched {e : ValueQuery}
    (hapart : e.edge = query.edge →
      ∀ x, t.Reaches e.term x → t.Reaches query.term x → ¬ t.Circular x) :
    (net.answer depth (.forValue c e)).Preserves
      fun w => ∀ k, t.Tangled query.term query.edge k → (w.cache c).get? k = none := by
  have hmodest : World.Modest fun w : World ValueLeaf RegionLeaf M =>
      ∀ k, t.Tangled query.term query.edge k → (w.cache c).get? k = none := by
    intro w w' hentry hw k hk
    by_contra hne
    obtain ⟨entry, he⟩ := Option.ne_none_iff_exists'.1 hne
    have hnone := hw k hk
    rw [hentry c k entry he] at hnone
    cases hnone
  -- the question comes to questions about terms that can be reached, and to grounded ones
  let kind : Request → Prop := fun r =>
    (r.composer = c ∧ r.operand = none ∧ r.edge = e.edge ∧ t.Reaches e.term r.term) ∨
      net.Grounded r
  have hclosed : ∀ r q, kind r → net.Raises .followed r q → kind q := by
    rintro r q (⟨hr, ho, hedge, hreaches⟩ | hground) hq
    · rcases h.raised hr ho hq with ⟨p, hp, hqp⟩ | ⟨_, self, ⟨_, rfl⟩ | ⟨y, hsends, rfl⟩⟩
      · exact .inr (h.parent_grounded p hp q hqp)
      · exact .inl ⟨hr, rfl, hedge, hreaches⟩
      · exact .inl ⟨hr, rfl, hedge, hreaches.tail hsends⟩
    · exact .inr (hground.raised hq)
  have hparts : ∀ r x, kind r → net.composer? r.composer = some x → ∀ q ∈ x.parts r, kind q := by
    intro r x hr hx q hq
    by_cases ho : r.operand = none
    · rw [x.parts_eq_self ho] at hq
      obtain rfl := List.mem_singleton.1 hq
      exact hr
    · exact hclosed r q hr (.part hx ho hq)
  refine Network.answer_preserves hparts (fun depth r x hr ho hx hask => ?_) depth _
    (.inl ⟨rfl, rfl, rfl, .refl⟩)
  refine Composer.query_preserves hmodest hx ho (fun _ _ w w' hedit hw k hk => ?_)
    fun q hq => hask q (hclosed r q hr hq)
  rw [hedit.entry c k ?_]
  · exact hw k hk
  · rintro ⟨hc, rfl⟩
    rcases hr with ⟨_, _, hedge, hreaches⟩ | hground
    · -- the query is not tangled, for a circle could be reached from both terms then
      obtain ⟨_, hkedge, hkreaches, y, hy, hcircular⟩ := hk
      exact hapart (hedge.symm.trans hkedge) y (hreaches.trans hy) (hkreaches.trans hy) hcircular
    · exact (h.region query.term query.edge).not_covers hk (hc ▸ hground.covers ho)

/-- Networks that are alike give the same answer, whoever asks, if they find no tangled entries. -/
theorem answer_eq (hlike : net.Alike net') {w w' : World ValueLeaf RegionLeaf M}
    (hcalm : net.Calm w) (hcalm' : net'.Calm w')
    (hnew : ∀ k, t.Tangled query.term query.edge k → (w.cache c).get? k = none)
    (hnew' : ∀ k, t.Tangled query.term query.edge k → (w'.cache c).get? k = none)
    {asker : AnalysisId} {a a' : Value ValueLeaf}
    (ha : ((net.answer depth (.forValue c query)).outcome w).1 = .ok a)
    (ha' : ((net'.answer depth (.forValue c { query with client := asker })).outcome w').1 =
      .ok a') : a = a' := by
  by_cases hwinding : t.Winding query.term
  · have hregion := h.region query.term query.edge
    obtain ⟨policy, hregion'⟩ := hregion.alike hlike
    exact Network.answer_unique hlike hregion hregion' (r := .forValue c query)
      ⟨rfl, rfl, rfl, rfl, .refl, hwinding⟩ asker hcalm hcalm' hnew hnew' ha ha'
  · have hground : net.Grounded (.forValue c query) := (h.grounded_iff rfl rfl rfl).2 hwinding
    have hasked : net.Grounded (.forValue c { query with client := asker }) :=
      hground.client h.tight rfl asker
    have hasked' := hlike.grounded hasked
    have hmatches := net.answer_matches depth _ hground w hcalm.faithful (hcalm.quiet hground)
    have hmatches' := net'.answer_matches depth _ hasked' w' hcalm'.faithful
      (hcalm'.quiet hasked')
    have hreference : net'.reference (.forValue c { query with client := asker }) =
        net.reference (.forValue c query) :=
      (hlike.reference hasked).trans (hground.reference_client h.tight rfl asker)
    rw [hreference] at hmatches'
    exact Except.ok.inj ((hmatches.eq_ok ha).symm.trans (hmatches'.eq_ok ha'))

/-- If the cache is retained, a query has the reply that it had when someone asked it before. -/
theorem reply_again {memory : M} (hretain : t.config.cachePolicy = .retain)
    {before later : List ValueQuery} {asker : AnalysisId} {a : Value ValueLeaf}
    (ha : net.reply depth memory c (before ++ { query with client := asker } :: later) query =
      .ok a) :
    net.reply depth memory c before { query with client := asker } = .ok a := by
  unfold Network.reply at ha ⊢
  rw [Network.session_split] at ha
  simp only [bind_assoc] at ha
  rcases hbefore : (net.session depth (Step.asks c before)).outcome (.initial memory) with
    ⟨halt | _, w⟩
  · rw [Run.outcome_bind_error hbefore] at ha
    cases ha
  rcases hfirst : (net.answer depth (.forValue c { query with client := asker })).outcome w with
    ⟨halt | first, w₁⟩
  · rw [Run.outcome_bind_ok hbefore, Run.outcome_bind_error hfirst] at ha
    cases ha
  rcases hlater : (net.session depth (Step.asks c later)).outcome w₁ with ⟨halt | _, w₂⟩
  · rw [Run.outcome_bind_ok hbefore, Run.outcome_bind_ok hfirst,
      Run.outcome_bind_error hlater] at ha
    cases ha
  rw [Run.outcome_bind_ok hbefore, Run.outcome_bind_ok hfirst, Run.outcome_bind_ok hlater] at ha
  rw [Run.outcome_bind_ok hbefore, hfirst]
  have hattended := Network.attended_after h.tight (congrArg Prod.fst hbefore)
  rw [Network.after, hbefore] at hattended
  obtain ⟨_, hrest⟩ := answer_rests h.tight hattended hfirst
  obtain ⟨kept, rfl⟩ := hrest.gathered
  -- the entry of a query is the same whoever asks
  have hstored : Settled w₁ (.forValue c query) kept :=
    QueryCache.finished?_eq_some.2 ⟨_, hrest.stored hretain, rfl, rfl⟩
  have hpreserves : (net.session depth (Step.asks c later)).Preserves
      (Settled · (.forValue c query) kept) :=
    Network.asks_preserve fun _ _ => Network.answer_settled h.tight h.spares hretain rfl kept _
  have hkept := hpreserves w₁ hstored () w₂ hlater
  cases depth with
  | zero => cases hfirst
  | succ depth =>
      rw [Network.answer_tight h.tight rfl rfl, query_settled hretain hkept] at ha
      exact ha

section Later

variable (hlike : net.Alike net') {memory memory' : M} {asker : AnalysisId}
  {a a' : Value ValueLeaf} (ha : net.reply depth memory c earlier query = .ok a)
  (ha' : net'.reply depth memory' c [] { query with client := asker } = .ok a')

include hlike ha ha'

/-- A query is answered as if it were the first one, if no tangled entries are there. -/
theorem untouched_as_first (hnew : ∀ k, t.Tangled query.term query.edge k →
    ((net.after depth (Step.asks c earlier) memory).cache c).get? k = none) : a = a' := by
  obtain ⟨hsession, hanswer⟩ := Network.reply_eq_ok.1 ha
  exact h.answer_eq hlike (Network.after_calm hsession) (.initial net' memory') hnew
    (fun _ _ => rfl) hanswer (Network.reply_eq_ok.1 ha').2

/-- If the cache is retained, a query is answered as if it were the first one that is apart from the
earlier ones. -/
theorem retained_as_first (hretain : t.config.cachePolicy = .retain)
    (hapart : t.Apart earlier query) : a = a' := by
  -- the same query among the earlier ones had the same reply, and it is apart from those before it
  induction hlength : earlier.length using Nat.strong_induction_on
    generalizing earlier query a with
  | _ n ih =>
      subst hlength
      by_cases hmem : ∃ client, { query with client } ∈ earlier
      · obtain ⟨client, hmem⟩ := hmem
        obtain ⟨before, later, rfl⟩ := List.append_of_mem hmem
        exact ih before.length (by simp) (h.reply_again hretain ha) ha'
          (fun e he => hapart e (List.mem_append_left _ he)) rfl
      · refine h.untouched_as_first hlike ha ha' fun k hk => ?_
        have hpreserves : (net.session depth (Step.asks c earlier)).Preserves
            fun w => ∀ k, t.Tangled query.term query.edge k → (w.cache c).get? k = none := by
          refine Network.asks_preserve fun e he => h.answer_untouched fun hedge => ?_
          refine hapart e he hedge fun hterm => hmem ⟨e.client, ?_⟩
          rw [← hterm, ← hedge]
          exact he
        have hsession := (Network.reply_eq_ok.1 ha).1
        exact hpreserves _ (fun _ _ => rfl) () _ (Prod.ext hsession rfl) k hk

/-- Whatever was asked before, a query is answered as if it were the first one, if the cache is
dropped or the query is apart from the earlier ones. -/
theorem answer_as_first
    (hpolicy : t.config.cachePolicy = .perTopLevelQuery ∨ t.Apart earlier query) : a = a' := by
  cases hconfig : t.config.cachePolicy with
  | perTopLevelQuery =>
      refine h.untouched_as_first hlike ha ha' fun k _ => ?_
      rw [dropped_after h.tight (Network.reply_eq_ok.1 ha).1 hconfig]
      rfl
  | retain =>
      rcases hpolicy with hdrop | hapart
      · rw [hconfig] at hdrop
        cases hdrop
      · exact h.retained_as_first hlike ha ha' hconfig hapart

end Later

end Echoing

/-- The cache policy cannot be seen from the answers of a composer of constants and echoes, unless a
circle of redirections comes into play again. Followed deeply enough, every query has an answer, and
one that is the first has the same answer under both policies. A composer that drops its cache after
each outermost query gives this answer whatever was asked before. So does one that retains it, if
the query is apart from those that were asked before: no circle can be reached from its term as well
as from another term about which the composer was asked at the same edge. -/
theorem policy_transparent {net : Network ValueLeaf RegionLeaf M} {c : ComposerId}
    {t : Tight ValueLeaf RegionLeaf M} (h : t.Echoing net c) (memory : M)
    (earlier : List ValueQuery) (query : ValueQuery) :
    ∃ enough, ∀ depth, enough ≤ depth → ∃ answer, ∀ policy,
      (net.withPolicy c policy).reply depth memory c [] query = .ok answer ∧
      ∃ later, (net.withPolicy c policy).reply depth memory c earlier query = .ok later ∧
        (policy = .perTopLevelQuery ∨ t.Apart earlier query → later = answer) := by
  have hechoing : ∀ policy, (t.withPolicy policy).Echoing (net.withPolicy c policy) c := by
    intro policy
    refine h.alike (net.alike_withPolicy c policy) ?_
    rw [Network.composer?_withPolicy, if_pos rfl, h.tight]
    rfl
  have hlike : ∀ policy policy', (net.withPolicy c policy).Alike (net.withPolicy c policy') :=
    fun policy policy' =>
      (net.alike_withPolicy c policy).symm.trans (net.alike_withPolicy c policy')
  have hreplies : ∀ policy, ∃ enough, ∀ depth, enough ≤ depth →
      (∃ first, (net.withPolicy c policy).reply depth memory c [] query = .ok first) ∧
      ∃ later, (net.withPolicy c policy).reply depth memory c earlier query = .ok later := by
    intro policy
    obtain ⟨n, hn⟩ := (hechoing policy).replies memory [] query
    obtain ⟨m, hm⟩ := (hechoing policy).replies memory earlier query
    exact ⟨max n m, fun depth hle =>
      ⟨hn depth (le_of_max_le_left hle), hm depth (le_of_max_le_right hle)⟩⟩
  obtain ⟨n, hn⟩ := hreplies .retain
  obtain ⟨m, hm⟩ := hreplies .perTopLevelQuery
  refine ⟨max n m, fun depth hle => ?_⟩
  obtain ⟨⟨answer, hanswer⟩, _⟩ := hn depth (le_of_max_le_left hle)
  refine ⟨answer, fun policy => ?_⟩
  obtain ⟨⟨first, hfirst⟩, later, hlater⟩ :
      (∃ first, (net.withPolicy c policy).reply depth memory c [] query = .ok first) ∧
      ∃ later, (net.withPolicy c policy).reply depth memory c earlier query = .ok later := by
    cases policy with
    | retain => exact hn depth (le_of_max_le_left hle)
    | perTopLevelQuery => exact hm depth (le_of_max_le_right hle)
  have heq : first = answer := (hechoing policy).answer_as_first (hlike policy .retain) hfirst
    hanswer (.inr fun e he => nomatch he)
  refine ⟨heq ▸ hfirst, later, hlater, fun hpolicy => ?_⟩
  exact (hechoing policy).answer_as_first (hlike policy .retain) hlater hanswer hpolicy

end Tight

/-- Equal echoes redirect terms in the same way. -/
theorem Analysis.echo_redirect {name name' : String} {redirect redirect' : TermId → Option TermId}
    {tally tally' : M → M} (h : echo name redirect tally = echo name' redirect' tally')
    (x : TermId) : (redirect x).getD x = (redirect' x).getD x := by
  have hplan := congrArg (fun a => a.answer .value ⟨x, ⟨0⟩, ⟨0⟩, ⟨0⟩⟩) h
  simp only [echo, Plan.request, Inquiry.request, Plan.remember.injEq, Plan.ask.injEq,
    Request.mk.injEq] at hplan
  exact hplan.2.1.2.2.1

namespace Circle

/-- A query about one of the terms of the circle, by a client outside of the network. -/
def about (term edge : Nat) : ValueQuery := ⟨⟨term⟩, ⟨edge⟩, network.outsider⟩

/-- The composer of the circle is one of constants and echoes. -/
theorem composer_echoing : composer.Echoing network ⟨0⟩ where
  tight := rfl
  elementary d x hx := by
    obtain ⟨_ | n⟩ := d
    · cases hx
      exact elementary
    · cases hx
  parent p hp := by cases hp
  finite := by
    refine Set.Finite.subset (Set.toFinite {⟨0⟩, ⟨1⟩}) ?_
    rintro y ⟨x, hne, m, hm, name, redirect, tally, hecho, hredirect⟩
    simp only [composer, List.mem_cons, List.not_mem_nil, or_false] at hm
    obtain rfl | rfl | rfl := hm <;> dsimp only at hecho
    · have htarget := Analysis.echo_redirect hecho x
      rw [hredirect] at htarget
      split at htarget <;> simp_all
    · have htarget := Analysis.echo_redirect hecho x
      rw [hredirect] at htarget
      split at htarget <;> simp_all
    · have hplan := congrArg (fun a => a.answer .value ⟨x, ⟨0⟩, ⟨0⟩, ⟨0⟩⟩) hecho
      injection hplan with _ hplan
      cases hplan

/-- Under both policies, a query in the circle is answered as if it were the first one after the
same query and after a query at another edge. -/
theorem policies_agree :
    ∃ enough, ∀ depth, enough ≤ depth → ∃ answer, ∀ policy,
      (network.withPolicy ⟨0⟩ policy).reply depth () ⟨0⟩ [] (about 1 0) = .ok answer ∧
      (network.withPolicy ⟨0⟩ policy).reply depth () ⟨0⟩ [about 0 1, about 1 0] (about 1 0) =
        .ok answer := by
  have hapart : composer.Apart [about 0 1, about 1 0] (about 1 0) := by
    intro e he hedge hterm
    simp only [List.mem_cons, List.not_mem_nil, or_false] at he
    obtain rfl | rfl := he
    · exact absurd hedge (by decide)
    · exact absurd rfl hterm
  obtain ⟨enough, henough⟩ := Tight.policy_transparent composer_echoing ()
    [about 0 1, about 1 0] (about 1 0)
  refine ⟨enough, fun depth hle => ?_⟩
  obtain ⟨answer, hanswer⟩ := henough depth hle
  refine ⟨answer, fun policy => ?_⟩
  obtain ⟨hfirst, later, hlater, heq⟩ := hanswer policy
  exact ⟨hfirst, heq (.inr hapart) ▸ hlater⟩

/-- Asked about the second term of the circle after the first one, a composer of constants and
echoes that retains its cache knows nothing, since it kept what was cut short. One that drops its
cache knows a constant. -/
theorem retained_answer_differs :
    composer.Echoing network ⟨0⟩ ∧ ∃ retained dropped,
      (network.withPolicy ⟨0⟩ .retain).reply 9 () ⟨0⟩ [about 0 0] (about 1 0) = .ok retained ∧
      (network.withPolicy ⟨0⟩ .perTopLevelQuery).reply 9 () ⟨0⟩ [about 0 0] (about 1 0) =
        .ok dropped ∧
      retained.isConcrete = false ∧ dropped.isConcrete = true := by
  have hconcrete : ∀ (x : Except Halt (Value ValueLeaf)) (known : Bool),
      x.toOption.map Value.isConcrete = some known → ∃ o, x = .ok o ∧ o.isConcrete = known := by
    intro x known hx
    cases x with
    | error halt => cases hx
    | ok o => exact ⟨o, rfl, Option.some.inj hx⟩
  obtain ⟨retained, hretained, hunknown⟩ := hconcrete
    ((network.withPolicy ⟨0⟩ .retain).reply 9 () ⟨0⟩ [about 0 0] (about 1 0)) false
    (by decide +kernel)
  obtain ⟨dropped, hdropped, hknown⟩ := hconcrete
    ((network.withPolicy ⟨0⟩ .perTopLevelQuery).reply 9 () ⟨0⟩ [about 0 0] (about 1 0)) true
    (by decide +kernel)
  exact ⟨composer_echoing, retained, dropped, hretained, hdropped, hunknown, hknown⟩

end Circle

end JointAnalysis
