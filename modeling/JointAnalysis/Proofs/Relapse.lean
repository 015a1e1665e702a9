import JointAnalysis.Proofs.OwnQuestion

/-!
# Members that have their own question resolved

A tight composer does not always notice that a member asks its own question. Where two further
resolutions of a query are allowed, two members that send terms to each other are enough: the first
one is forgotten when the query is handed to the second one, and asks again before the number of
resolutions cuts it off. Where a member clears the cache, it is forgotten under every bound.
Together with the guarantee for at most one further resolution this is `Tight.own_question_guard`.
-/

namespace JointAnalysis

open Lookup Tight

variable {V R M : Type}

namespace Relapse

/-- A composer of these members, under a bound on further resolutions. -/
def composer (members : List (Member V R M)) (bound : Nat) : Tight V R M where
  id := ⟨2⟩
  direction := .forward
  members := members
  parent := none
  config := { reentrantResolutions := bound }
  system := none
  program := none

/-- The network of this one composer. -/
def network (members : List (Member V R M)) (bound : Nat) : Network V R M :=
  ⟨[.tight (composer members bound)], 3⟩

/-- The question of a client about a term. -/
abbrev question (term client : Nat) : Request := ⟨⟨0⟩, .value, ⟨term⟩, ⟨0⟩, ⟨client⟩, none⟩

/-- The world in which a resolution has begun. -/
def resolving (w : World V R M) (r : Request) : World V R M :=
  started (begun (w.note (.requested r)) ⟨0⟩) r

/-- The world in which a member has been asked. -/
def consulted (w : World V R M) (r : Request) (m : Member V R M) : World V R M :=
  match (w.cache ⟨0⟩).mark r.key m.id with
  | .ok cache => (w.putCache ⟨0⟩ cache).note (.asked m.analysis.name .value (inquiry r m))
  | .error _ => w

/-- The world in which a request has been cut off. -/
def refused (w : World V R M) (r : Request) : World V R M :=
  (w.note (.requested r)).note (.returned r ⟨.value, .full⟩)

/-- Whether a request is resolved under every bound from `least` on. -/
def resolves (least : Nat) (w : World V R M) (r : Request) : Bool :=
  ((w.cache ⟨0⟩).finished? r.key).isNone && !(w.cache ⟨0⟩).isCycle r.key r.client &&
    decide ((w.cache ⟨0⟩).active r.key ≤ least)

/-- Whether a request is cut off because the client was handed the query last. -/
def refuses (w : World V R M) (r : Request) : Bool :=
  ((w.cache ⟨0⟩).finished? r.key).isNone && (w.cache ⟨0⟩).isCycle r.key r.client

/-- Whether a member can be asked on behalf of a request. -/
def consults (w : World V R M) (r : Request) (m : Member V R M) : Bool :=
  ((w.cache ⟨0⟩).finished? r.key).isNone && ((w.cache ⟨0⟩).mark r.key m.id).toBool

/-- A member that is asked about one term prepares the world, and asks about another term. -/
structure Sends (m : Member V R M) (term next : Nat) (prepare : World V R M → World V R M) :
    Prop where
  hears : m.analysis.handles .value = true
  run_eq : ∀ (client : Nat) (ask : Answerer V R M) (w : World V R M),
    ((m.analysis.answer .value (inquiry (question term client) m)).run ask).outcome w =
      (ask (question next m.id.number)).outcome (prepare w)
  trail_eq : ∃ front, ∀ w, (prepare w).trail = front ++ w.trail

/-- A question that runs out of depth after a member was not answered at once. -/
def Fails (members : List (Member V R M)) (bound depth : Nat) (r : Request) (w : World V R M) :
    Prop :=
  ∃ w', ((network members bound).answer depth r).outcome w = (.error .exhausted, w') ∧
    ¬ AnsweredAtOnce ⟨0⟩ w'.trail

section Steps

variable {least bound depth term client next : Nat} {m : Member V R M}
  {members rest : List (Member V R M)} {prepare : World V R M → World V R M} {w : World V R M}

/-- A member that can be asked is noted down for the query. -/
theorem consulted_eq {r : Request} (h : consults w r m = true) :
    (w.cache ⟨0⟩).finished? r.key = none ∧ ∃ cache, (w.cache ⟨0⟩).mark r.key m.id = .ok cache ∧
      consulted w r m =
        (w.putCache ⟨0⟩ cache).note (.asked m.analysis.name .value (inquiry r m)) := by
  simp only [consults, Bool.and_eq_true, Option.isNone_iff_eq_none] at h
  obtain ⟨hopen, hmarks⟩ := h
  refine ⟨hopen, ?_⟩
  unfold consulted
  cases hmark : (w.cache ⟨0⟩).mark r.key m.id with
  | error fault =>
      rw [hmark] at hmarks
      simp [Except.toBool] at hmarks
  | ok cache => exact ⟨cache, rfl, rfl⟩

/-- A member that can be asked is asked, and then the others. -/
theorem gather_sends (t : Tight V R M) (ask : Answerer V R M) (answers : List (Value V))
    (hsends : Sends m term next prepare) (h : consults w (question term client) m = true) :
    (t.gather ask (question term client) (m :: rest) answers).outcome w =
      (do
        let answer ← ask (question next m.id.number)
        Run.record (.answered m.analysis.name (inquiry (question term client) m) ⟨.value, answer⟩)
        t.gather ask (question term client) rest (answers ++ [answer])).outcome
        (prepare (consulted w (question term client) m)) := by
  obtain ⟨hopen, cache, hmark, hconsulted⟩ := consulted_eq h
  have hgather := gather_open t ask (r := question term client) (m := m) rest answers hsends.hears
    hopen
  rw [hmark] at hgather
  rw [hconsulted]
  refine hgather.trans ?_
  simp only [Analysis.consult, bind_assoc, pure_bind]
  exact (Run.outcome_bind_ok (Run.outcome_record _ _)).trans
    (Run.outcome_bind_congr (hsends.run_eq client ask _) _)

/-- A question that is resolved has the members asked in turn. -/
theorem answer_resolving (hbound : least ≤ bound)
    (h : resolves least w (question term client) = true) :
    ((network members bound).answer (depth + 1) (question term client)).outcome w =
      (do
        let answer ← (composer members bound).gather ((network members bound).answer depth)
          (question term client) members []
        depart (question term client)
        (composer members bound).closed ⟨0⟩
        Run.record (.returned (question term client) ⟨.value, answer⟩)
        pure answer).outcome (resolving w (question term client)) := by
  simp only [resolves, Bool.and_eq_true, Option.isNone_iff_eq_none, Bool.not_eq_true',
    decide_eq_true_eq] at h
  obtain ⟨⟨hfree, hcycle⟩, hactive⟩ := h
  have hopen : Open (begun (w.note (.requested (question term client))) ⟨0⟩)
      (question term client) := by
    simpa [Open] using hfree
  have huncut : ¬ (composer members bound).Cut
      (begun (w.note (.requested (question term client))) ⟨0⟩) (question term client) := by
    simp only [Cut, begun_cache, World.note_cache, hcycle, Bool.false_eq_true, false_or, composer]
    omega
  have hnet : (network members bound).composer? ⟨0⟩ = some (.tight (composer members bound)) := rfl
  rw [Network.answer_tight hnet rfl rfl, noted_query_outcome]
  refine (Run.outcome_bind_congr (resolve_open (composer members bound) _ hopen huncut) _).trans ?_
  simp only [bind_assoc, pure_bind]
  rfl

/-- A question that is cut off has the full object for an answer. -/
theorem answer_refused (h : refuses w (question term client) = true) :
    ((network members bound).answer (depth + 1) (question term client)).outcome w =
      (.ok .full, refused w (question term client)) := by
  simp only [refuses, Bool.and_eq_true, Option.isNone_iff_eq_none] at h
  have hopen : Open (begun (w.note (.requested (question term client))) ⟨0⟩)
      (question term client) := by
    simpa [Open] using h.1
  have hcut : (composer members bound).Cut
      (begun (w.note (.requested (question term client))) ⟨0⟩) (question term client) := by
    refine .inl ?_
    simpa using h.2
  have hnet : (network members bound).composer? ⟨0⟩ = some (.tight (composer members bound)) := rfl
  rw [Network.answer_tight hnet rfl rfl, noted_query_outcome,
    Run.outcome_bind_ok (resolve_cut (composer members bound) _ hopen hcut),
    Run.outcome_bind_ok ((composer members bound).closed_outcome ⟨0⟩), concluded_begun _ _ _ rfl]
  rfl

variable (hbound : least ≤ bound) (hsends : Sends m term next prepare)
  (hresolves : resolves least w (question term client) = true)
  (hconsults : consults (resolving w (question term client)) (question term client) m = true)

include hbound hsends hresolves hconsults

/-- A question fails if the question of the first member does. -/
theorem Fails.first (h : Fails (m :: rest) bound depth (question next m.id.number)
      (prepare (consulted (resolving w (question term client)) (question term client) m))) :
    Fails (m :: rest) bound (depth + 1) (question term client) w := by
  obtain ⟨w', houtcome, hrelapse⟩ := h
  refine ⟨w', ?_, hrelapse⟩
  rw [answer_resolving hbound hresolves]
  exact Run.outcome_bind_error ((gather_sends _ _ [] hsends hconsults).trans
    (Run.outcome_bind_error houtcome))

/-- A question fails if the first member is cut off and the question of the second one fails. -/
theorem Fails.second {m' : Member V R M} {next' : Nat} {prepare' : World V R M → World V R M}
    {w₁ w₂ : World V R M} (hsends' : Sends m' term next' prepare')
    (hw₁ : prepare (consulted (resolving w (question term client)) (question term client) m) = w₁)
    (hrefuses : refuses w₁ (question next m.id.number) = true)
    (hw₂ : (refused w₁ (question next m.id.number)).note (.answered m.analysis.name
      (inquiry (question term client) m) ⟨.value, .full⟩) = w₂)
    (hconsults' : consults w₂ (question term client) m' = true)
    (h : Fails (m :: m' :: rest) bound (depth + 1) (question next' m'.id.number)
      (prepare' (consulted w₂ (question term client) m'))) :
    Fails (m :: m' :: rest) bound (depth + 2) (question term client) w := by
  subst hw₁ hw₂
  obtain ⟨w', houtcome, hrelapse⟩ := h
  refine ⟨w', ?_, hrelapse⟩
  rw [answer_resolving hbound hresolves]
  refine Run.outcome_bind_error ((gather_sends _ _ [] hsends hconsults).trans ?_)
  rw [Run.outcome_bind_ok (answer_refused hrefuses), Run.outcome_bind_ok (Run.outcome_record _ _)]
  exact (gather_sends _ _ _ hsends' hconsults').trans (Run.outcome_bind_error houtcome)

/-- A question fails at the last level if its client has not answered a question about the same
query. -/
theorem Fails.last
    (hpending : (⟨client⟩, (question term client).key) ∈ pending ⟨0⟩ w.trail) :
    Fails (m :: rest) bound 1 (question term client) w := by
  obtain ⟨front, hfront⟩ := hsends.trail_eq
  obtain ⟨_, cache, _, hconsulted⟩ := consulted_eq hconsults
  refine ⟨prepare (consulted (resolving w (question term client)) (question term client) m), ?_,
    fun hprompt => ?_⟩
  · rw [answer_resolving hbound hresolves]
    exact Run.outcome_bind_error ((gather_sends _ _ [] hsends hconsults).trans
      (Run.outcome_bind_error rfl))
  · rw [hfront, hconsulted] at hprompt
    obtain ⟨rest, o, hlater, _⟩ := hprompt
      (front ++ [.asked m.analysis.name .value (inquiry (question term client) m),
        .dispatched ⟨0⟩ (question term client).key])
      (question term client) w.trail (by simp [resolving]) rfl hpending
    have hlast := congrArg List.getLast? hlater
    simp at hlast

end Steps

/-- A question that fails at the start of a session shows on the trail of the session. -/
theorem Fails.after {members : List (Member V R M)} {bound depth : Nat} {r : Request} {memory : M}
    (h : Fails members bound depth r (.initial memory)) :
    ¬ AnsweredAtOnce ⟨0⟩ ((network members bound).after depth [.ask r] memory).trail := by
  obtain ⟨w', houtcome, hrelapse⟩ := h
  have hsession : ((network members bound).session depth [.ask r]).outcome (.initial memory) =
      (.error .exhausted, w') :=
    Run.outcome_bind_error (Run.outcome_bind_error houtcome)
  rwa [Network.after, hsession]

/-- A member that sends terms to others. -/
def echoing (number : Nat) (redirect : TermId → Option TermId) :
    Member ValueLeaf RegionLeaf Unit :=
  ⟨⟨number⟩, .echo "echo" redirect id⟩

/-- A member that echoes asks for the other term. -/
theorem echoing_sends {number term next : Nat} {redirect : TermId → Option TermId}
    (hnext : (redirect ⟨term⟩).getD ⟨term⟩ = ⟨next⟩) :
    Sends (echoing number redirect) term next id where
  hears := rfl
  run_eq client ask w := by
    have hplan : (echoing number redirect).analysis.answer .value
        (inquiry (question term client) (echoing number redirect)) =
          .remember id (.request (question next number)) := by
      show Plan.remember id (.request
        ⟨⟨0⟩, .value, (redirect ⟨term⟩).getD ⟨term⟩, ⟨0⟩, ⟨number⟩, none⟩) = _
      rw [hnext]
    rw [hplan]
    simp only [Plan.run, Plan.request, bind_pure]
    exact Run.outcome_bind_ok (Run.outcome_update w id)
  trail_eq := ⟨[], fun _ => rfl⟩

/-- A member that clears the cache of the composer and asks the question that it was asked. -/
def wiping : Member ValueLeaf RegionLeaf Unit where
  id := ⟨0⟩
  analysis :=
    { name := "wiping"
      direction := .forward
      handles := fun family => family = .value
      answer := fun family q => .clear q.composer (.request (q.request family q.term)) }

/-- A member that clears the cache asks for the same term. -/
theorem wiping_sends (term : Nat) : Sends wiping term term (·.clear ⟨0⟩) where
  hears := rfl
  run_eq client ask w := by
    show (Plan.run ask (.clear ⟨0⟩ (.request (question term 0)))).outcome w = _
    simp only [Plan.run, Plan.request, bind_pure]
    exact Run.outcome_bind_ok (Run.outcome_clear w ⟨0⟩)
  trail_eq := ⟨[.cleared ⟨0⟩], fun _ => rfl⟩

/-- Where the first member sends a term. -/
def left (x : TermId) : Option TermId :=
  if x = ⟨0⟩ then some ⟨1⟩ else if x = ⟨1⟩ then some ⟨2⟩ else if x = ⟨3⟩ then some ⟨0⟩ else none

/-- Where the second member sends a term. -/
def right (x : TermId) : Option TermId :=
  if x = ⟨0⟩ then some ⟨3⟩ else if x = ⟨2⟩ then some ⟨0⟩ else none

/-- With two further resolutions or more, members that echo have their own question resolved. -/
theorem echoes_fail {bound : Nat} (hbound : 2 ≤ bound) :
    Fails [echoing 0 left, echoing 1 right] bound 6 (question 0 3) (.initial ()) := by
  have hleft₀ : Sends (echoing 0 left) 0 1 id := echoing_sends rfl
  have hleft₁ : Sends (echoing 0 left) 1 2 id := echoing_sends rfl
  have hleft₂ : Sends (echoing 0 left) 2 2 id := echoing_sends rfl
  have hleft₃ : Sends (echoing 0 left) 3 0 id := echoing_sends rfl
  have hright₀ : Sends (echoing 1 right) 0 3 id := echoing_sends rfl
  have hright₂ : Sends (echoing 1 right) 2 0 id := echoing_sends rfl
  -- the worlds along the way do not depend on the bound, so what is left can be computed
  refine .first hbound hleft₀ ?_ ?_ (.first hbound hleft₁ ?_ ?_
    (.second hbound hleft₂ ?_ ?_ hright₂ rfl ?_ rfl ?_
      (.second hbound hleft₀ ?_ ?_ hright₀ rfl ?_ rfl ?_
        (.first hbound hleft₃ ?_ ?_ (.last hbound hleft₀ ?_ ?_ ?_)))))
  all_goals decide +kernel

/-- Under every bound, a member that clears the cache has its own question resolved. -/
theorem wiping_fails (bound : Nat) : Fails [wiping] bound 2 (question 0 3) (.initial ()) := by
  refine .first (Nat.zero_le bound) (wiping_sends 0) ?_ ?_
    (.last (Nat.zero_le bound) (wiping_sends 0) ?_ ?_ ?_)
  all_goals decide +kernel

/-- Members that echo clear no cache. -/
theorem echoes_spare (bound : Nat) :
    (network [echoing 0 left, echoing 1 right] bound).Spares ⟨0⟩ := by
  refine Network.spares_of_elementary (List.forall_mem_singleton.2 ?_) ⟨0⟩
  exact List.forall_mem_cons.2 ⟨.echo .., List.forall_mem_singleton.2 (.echo ..)⟩

end Relapse

/-- A tight composer whose cache is spared answers members that ask their own question at once,
whatever they and others do, exactly if its bound on further resolutions is at most one. If the
cache may be cleared by members, no bound is low enough. -/
theorem Tight.own_question_guard (bound : Nat) :
    ((∀ (V R M : Type) (net : Network V R M) (c : ComposerId) (t : Tight V R M),
        net.composer? c = some (.tight t) → t.config.reentrantResolutions = bound → net.Spares c →
        ∀ depth steps memory, AnsweredAtOnce c (net.after depth steps memory).trail) ↔
      bound ≤ 1) ∧
    ∃ (net : Network ValueLeaf RegionLeaf Unit) (c : ComposerId)
      (t : Tight ValueLeaf RegionLeaf Unit), net.composer? c = some (.tight t) ∧
        t.config.reentrantResolutions = bound ∧
        ∃ depth steps memory, ¬ AnsweredAtOnce c (net.after depth steps memory).trail := by
  refine ⟨⟨fun hguard => ?_, ?_⟩, ?_⟩
  · by_contra hbound
    have hfails := Relapse.echoes_fail (Nat.lt_of_not_le hbound)
    exact hfails.after (hguard _ _ _ _ ⟨0⟩ _ rfl rfl (Relapse.echoes_spare bound) 6 _ ())
  · rintro hbound V R M net c t ht rfl hspares
    exact Tight.answered_at_once ht hspares hbound
  · exact ⟨Relapse.network [Relapse.wiping] bound, ⟨0⟩, _, rfl, rfl, 2, _, (),
      (Relapse.wiping_fails bound).after⟩

end JointAnalysis
