import JointAnalysis.Proofs.Nesting

/-!
# A tight composer comes to rest

Between the questions of its clients a tight composer is at rest: no query is open, no resolution is
under way, and every entry of its cache is finished. Read `Attended.move` first: an entry is
finished or belongs to a resolution on the stack, so that with an empty stack all of them are
finished. It follows that a client's query is never cut off, and that the answer is the one that is
kept.
-/

namespace JointAnalysis

open Lookup Tight

variable {V R M : Type} {net : Network V R M} {c : ComposerId} {t : Tight V R M}

/-- The counts of the composer are right, and every entry of its cache is finished or belongs to a
resolution that is under way. -/
structure Attended (net : Network V R M) (c : ComposerId) (p : Moment V R M) : Prop where
  balanced : Balanced net c 0 (fun _ => 0) p
  entries : ∀ k e, (p.world.cache c).get? k = some e →
    (e.state = .finished ∧ e.answer.isSome = true) ∨ 1 ≤ resolutions k p.stack

/-- In a world in which nothing happened there are no entries. -/
theorem Attended.initial (memory : M) :
    Attended net c ⟨(.initial memory : World V R M), []⟩ where
  balanced := .initial memory
  entries k e he := by cases he

/-- A move keeps every entry attended. The state of an entry goes back only when a member is asked,
inside a resolution, and a resolution ends only when its query is finished. -/
theorem Attended.move {p q : Moment V R M} (h : Move net c t p q) (hp : Attended net c p) :
    Attended net c q := by
  refine ⟨hp.balanced.move (fun _ _ => rfl) h, ?_⟩
  have hentries := hp.entries
  cases h with
  | @elsewhere w w' s hidle hdesk =>
      have hcache : w'.cache c = w.cache c := congrArg Desk.cache hdesk
      simpa only [hcache] using hentries
  | wipe => simp
  | request => simpa [resolutions] using hentries
  | @dispatch w s r hr =>
      subst hr
      intro k e he
      simp only [started_cache, QueryCache.get?_enter] at he
      by_cases hk : r.key = k
      · exact .inr (by simp [resolutions, hk])
      · rw [if_neg (Ne.symm hk)] at he
        simpa [resolutions, hk] using hentries k e he
  | skip => exact hentries
  | @consult w s r m rest cache hr hopen hm hmark =>
      intro k e he
      simp only [World.note_cache, World.putCache_cache, if_true,
        (QueryCache.mark_eq_ok hmark).2] at he
      by_cases hk : r.key = k
      · exact .inr (by simp [resolutions, hk])
      · rw [if_neg (Ne.symm hk)] at he
        exact hentries k e he
  | answer => exact hentries
  | @keep w s r answers cache hr hopen hfinish =>
      intro k e he
      simp only [World.putCache_cache, if_true, (QueryCache.finish_eq_ok hfinish).2] at he
      by_cases hk : r.key = k
      · rw [if_pos hk.symm] at he
        cases he
        exact .inl ⟨rfl, rfl⟩
      · rw [if_neg (Ne.symm hk)] at he
        exact hentries k e he
  | withdraw => exact hentries
  | @leave w s r answers hr hfound =>
      subst hr
      intro k e he
      simp only [ended_cache, QueryCache.get?_leave] at he
      by_cases hk : r.key = k
      · -- the last resolution may be leaving, but then the query is finished
        rw [if_pos hk.symm] at he
        obtain ⟨kept, hkept, rfl⟩ := Option.map_eq_some_iff.1 he
        obtain ⟨_, hsame, hstate, hanswer⟩ := QueryCache.finished?_eq_some.1 hfound
        cases hkept.symm.trans hsame
        exact .inl ⟨hstate, by simp [hanswer]⟩
      · rw [if_neg (Ne.symm hk)] at he
        simpa [resolutions, hk] using hentries k e he
  | @giveBack w s r hr o hreason =>
      rcases t.concluded_cases w c with hconcluded | ⟨_, hconcluded⟩
      · simpa [hconcluded, resolutions] using hentries
      · simp [hconcluded]

/-- What is kept stays unless the cache is cleared, if it is to be retained. -/
theorem Move.settled_or_cleared {p q : Moment V R M} (h : Move net c t p q)
    (hretain : t.config.cachePolicy = .retain) {r : Request} (hr : r.composer = c)
    {kept : List (Object V R r.family)} (hp : Settled p.world r kept) :
    Settled q.world r kept ∨ ¬ net.Spares c ∧ q.world.trail = .cleared c :: p.world.trail := by
  subst hr
  unfold Settled at hp ⊢
  cases h with
  | wipe _ hallowed => exact .inr ⟨hallowed, rfl⟩
  | @elsewhere w w' _ _ hdesk =>
      have hcache : w'.cache r.composer = w.cache r.composer := congrArg Desk.cache hdesk
      rw [hcache]
      exact .inl hp
  | request => exact .inl (by simpa using hp)
  | @dispatch w s r' hr' _ _ =>
      rw [← hr', started_cache, QueryCache.finished?_enter, hr']
      exact .inl hp
  | skip => exact .inl hp
  | consult _ _ _ hmark =>
      simp only [World.note_cache, World.putCache_cache, if_true, QueryCache.finished?_mark hmark]
      exact .inl hp
  | answer => exact .inl hp
  | @keep w s r' answers cache hr' hopen hfinish =>
      simp only [World.putCache_cache, if_true, QueryCache.finished?_finish hfinish]
      split
      · next hkey =>
          -- the query is not kept a second time
          rw [Open, hr', ← hkey, hp] at hopen
          cases hopen
      · exact .inl hp
  | withdraw => exact .inl hp
  | @leave w s r' _ hr' _ =>
      rw [← hr', ended_cache, QueryCache.finished?_leave, hr']
      exact .inl hp
  | giveBack => exact .inl (by simpa [concluded, hretain] using hp)

section Resting

variable {w : World V R M} {s : List (Frame V R M)} {k : QueryKey}

/-- An entry without a resolution under way is finished. -/
theorem Attended.finished (h : Attended net c ⟨w, s⟩) (hs : resolutions k s = 0)
    {e : CacheEntry (AnyObject V R)} (he : (w.cache c).get? k = some e) :
    e.state = .finished ∧ e.active = 0 := by
  have hle : (w.cache c).active k ≤ 0 + resolutions k s := h.balanced.active_le k
  rw [hs, QueryCache.active_eq, he] at hle
  rcases h.entries k e he with hfinished | hres
  · exact ⟨hfinished.1, Nat.le_zero.1 hle⟩
  · exact absurd hs (Nat.one_le_iff_ne_zero.1 hres)

/-- A request is not cut off while no resolution of its query is under way. -/
theorem Attended.not_cut (h : Attended net c ⟨w, s⟩) {r : Request} (hr : r.composer = c)
    (hs : resolutions r.key s = 0) : ¬ t.Cut w r := by
  subst hr
  rintro (hcycle | hbound)
  · obtain ⟨e, he, hstate⟩ := Option.map_eq_some_iff.1 (QueryCache.isCycle_iff.1 hcycle)
    rw [(h.finished hs he).1] at hstate
    cases hstate
  · have hle : (w.cache r.composer).active r.key ≤ 0 + resolutions r.key s :=
      h.balanced.active_le r.key
    omega

end Resting

section Asking

variable {ask : Answerer V R M} {r : Request} {w w' : World V R M}

/-- The query of a client gathers an intersection, which is kept if the cache is retained. -/
theorem Tight.query_gathers (hask : ∀ s, Idle s → ∀ r, (ask r).Returns net c t s)
    (hmembers : net.Spares c → ∀ m ∈ t.members, ∀ family q, (m.analysis.answer family q).Spares c)
    (hr : r.composer = c) (hw : Attended net c ⟨w, []⟩) {answer : Object V R r.family}
    (hok : ((Composer.tight t).query ask r).outcome w = (.ok answer, w')) :
    Attended net c ⟨w', []⟩ ∧ ∃ kept, answer = .combined .intersect kept ∧
      (t.config.cachePolicy = .retain → Settled w' r kept) ∧
      (t.config.cachePolicy = .perTopLevelQuery → w'.cache c = .empty) := by
  subst hr
  have hbegun : Attended net r.composer
      ⟨begun (w.note (.requested r)) r.composer, [.query r]⟩ :=
    hw.move (t := t) (.request r trivial rfl)
  obtain ⟨s, hattended, hend⟩ := (resolve_follows hask rfl hmembers _ []).invariant
    (fun _ _ => Attended.move) hbegun
  rw [t.noted_query_outcome ask] at hok
  rcases hresolve : (t.resolve ask r).outcome (begun (w.note (.requested r)) r.composer)
    with ⟨halt | found, w₁⟩
  · rw [Run.outcome_bind_error hresolve] at hok
    cases hok
  · rw [Run.outcome_bind_ok hresolve, Run.outcome_bind_ok (t.closed_outcome r.composer)] at hok
    obtain rfl : found = answer := Except.ok.inj (Prod.mk.inj hok).1
    obtain rfl : (t.concluded w₁ r.composer).note (.returned r ⟨r.family, found⟩) = w' :=
      (Prod.mk.inj hok).2
    rw [hresolve] at hattended hend
    obtain ⟨hs, hreason⟩ := hend
    cases hs
    refine ⟨hattended.move (.giveBack rfl found hreason), ?_⟩
    rcases hreason with ⟨kept, hsettled, rfl⟩ | ⟨_, hcut, _⟩
    · refine ⟨kept, rfl, fun hretain => ?_, fun hdrop => ?_⟩
      · unfold Settled at hsettled ⊢
        simpa [concluded, hretain] using hsettled
      · have hdepth : w₁.depth r.composer = 0 + 1 := hattended.balanced.depth_eq
        simp [concluded, hdrop, hdepth]
    · -- a query that begins on an empty stack meets finished entries only
      exact absurd hcut (hattended.not_cut rfl rfl)

/-- A settled query is answered with what is kept, and nothing else happens. -/
theorem Tight.query_settled (hretain : t.config.cachePolicy = .retain)
    {kept : List (Object V R r.family)} (h : Settled w r kept) :
    ((Composer.tight t).query ask r).outcome w =
      (.ok (.combined .intersect kept),
        (w.note (.requested r)).note (.returned r ⟨r.family, .combined .intersect kept⟩)) := by
  have hbegun : Settled (begun (w.note (.requested r)) r.composer) r kept := by
    unfold Settled at h ⊢
    simpa using h
  rw [t.noted_query_outcome ask, Run.outcome_bind_ok (t.resolve_settled ask hbegun),
    Run.outcome_bind_ok (t.closed_outcome r.composer), t.concluded_begun _ _ hretain]
  rfl

end Asking

/-- A tight composer at rest after it gave an answer. -/
structure Tight.AtRest (net : Network V R M) (c : ComposerId) (t : Tight V R M) (r : Request)
    (answer : Object V R r.family) (w : World V R M) : Prop where
  /-- No query is open. -/
  depth_eq : w.depth c = 0
  /-- The answer was not cut off. -/
  gathered : ∃ answers, answer = .combined .intersect answers
  /-- All queries are finished, and no resolution is under way. -/
  finished : t.config.cachePolicy = .retain → ∀ k e, (w.cache c).get? k = some e →
    e.state = .finished ∧ e.active = 0
  /-- The answer is what is kept for the query. -/
  stored : t.config.cachePolicy = .retain →
    (w.cache c).get? r.key = some ⟨.finished, some ⟨r.family, answer⟩, 0⟩
  /-- Whoever asks again gets the same answer, and nobody is asked for it. -/
  again : t.config.cachePolicy = .retain → ∀ client depth,
    (net.answer (depth + 1) { r with client }).outcome w =
      (.ok answer, (w.note (.requested { r with client })).note
        (.returned { r with client } ⟨r.family, answer⟩))
  /-- Nothing is kept beyond the outermost query, if the cache is not to be retained. -/
  dropped : t.config.cachePolicy = .perTopLevelQuery → w.cache c = .empty

/-- Requests are answered one after the other, and the composer is at rest after each of them. -/
inductive Tight.RestsThrough (net : Network V R M) (depth : Nat) (c : ComposerId)
    (t : Tight V R M) : World V R M → List Request → World V R M → Prop where
  | nil {w} : RestsThrough net depth c t w [] w
  | cons {w w₁ w₂ r rest} {answer : Object V R r.family}
      (answered : (net.answer depth r).outcome w = (.ok answer, w₁))
      (rests : AtRest net c t r answer w₁) (next : RestsThrough net depth c t w₁ rest w₂) :
      RestsThrough net depth c t w (r :: rest) w₂

section Networks

variable (ht : net.composer? c = some (.tight t))

include ht

variable {w w' : World V R M} {depth : Nat}

/-- After the query of a client the composer is at rest. -/
theorem Tight.query_rests {r : Request} (hr : r.composer = c) (hplain : r.operand = none)
    (hw : Attended net c ⟨w, []⟩) {answer : Object V R r.family}
    (hok : ((Composer.tight t).query (net.answer depth) r).outcome w = (.ok answer, w')) :
    Attended net c ⟨w', []⟩ ∧ AtRest net c t r answer w' := by
  have hask : ∀ s, Idle s → ∀ r, (net.answer depth r).Returns net c t s :=
    fun s hs r => Network.answer_returns ht depth r hs
  obtain ⟨hattended, kept, rfl, hsettled, hdropped⟩ := query_gathers hask
    (fun h m hm => h.analysis ht (List.mem_map_of_mem hm)) hr hw hok
  refine ⟨hattended, ?_⟩
  refine {
    depth_eq := hattended.balanced.depth_eq
    gathered := ⟨kept, rfl⟩
    finished := fun _ k e he => hattended.finished rfl he
    stored := fun hretain => ?_
    again := fun hretain client depth => ?_
    dropped := hdropped }
  · have hkept := hsettled hretain
    subst hr
    obtain ⟨⟨state, stored, active⟩, he, hstate, hanswer⟩ := QueryCache.finished?_eq_some.1 hkept
    have hrest := hattended.finished rfl he
    simp only at hstate hanswer hrest
    rw [he, hstate, hanswer, hrest.2]
  · rw [Network.answer_tight ht (r := { r with client }) hr hplain]
    exact query_settled (r := { r with client }) hretain (hsettled hretain)

/-- After each of several queries of a client the composer is at rest. -/
theorem Tight.queries_rest {r : Request} (hr : r.composer = c) (term : TermId)
    (edges : List EdgeId) (hw : Attended net c ⟨w, []⟩) {answers : List (Object V R r.family)}
    (hok : (t.queryAlong (net.answer depth) r term edges).outcome w = (.ok answers, w')) :
    RestsThrough net (depth + 1) c t w (edges.map (r.about term)) w' := by
  induction edges generalizing w answers with
  | nil =>
      cases hok
      exact .nil
  | cons edge rest ih =>
      rw [queryAlong_cons] at hok
      rcases hfirst : ((Composer.tight t).query (net.answer depth) (r.about term edge)).outcome w
        with ⟨halt | answer, w₁⟩
      · rw [Run.outcome_bind_error hfirst] at hok
        cases hok
      · rw [Run.outcome_bind_ok hfirst] at hok
        obtain ⟨hattended, hrests⟩ := query_rests ht (r := r.about term edge) hr rfl hw hfirst
        have hanswered : (net.answer (depth + 1) (r.about term edge)).outcome w =
            (.ok answer, w₁) := by
          rw [Network.answer_tight ht (r := r.about term edge) hr rfl]
          exact hfirst
        rcases hothers : (t.queryAlong (net.answer depth) r term rest).outcome w₁
          with ⟨halt | others, w₂⟩
        · rw [Run.outcome_bind_error hothers] at hok
          cases hok
        · rw [Run.outcome_bind_ok hothers] at hok
          cases hok
          exact .cons hanswered hrests (ih hattended hothers)

/-- A composer that is at rest is at rest again after a session that ended well. -/
theorem Network.session_rests (hw : Attended net c ⟨w, []⟩) {steps : List (Step M)}
    (hsession : (net.session depth steps).outcome w = (.ok (), w')) :
    Attended net c ⟨w', []⟩ := by
  obtain ⟨s, hattended, hend⟩ := Network.session_invariant ht (fun _ _ => Attended.move)
    (fun w hw => ⟨hw.balanced.clear, by simp⟩) depth steps w hw
  rw [hsession] at hattended hend
  cases hend
  exact hattended

/-- Between the questions of its clients a tight composer is at rest. -/
theorem Network.attended_after {steps : List (Step M)} {memory : M}
    (hsession : ((net.session depth steps).outcome (.initial memory)).1 = .ok ()) :
    Attended net c ⟨net.after depth steps memory, []⟩ :=
  Network.session_rests ht (Attended.initial memory) (Prod.ext hsession rfl)

/-- Whatever clients asked of a network before, a tight composer that is asked and answers is at
rest afterwards, and after each query about a term to which the question comes. Its depth is zero
and the answer is what it gathered. If it retains its cache, all entries are finished, the answer is
the one that is kept, and asking again gives the same answer and asks nobody. Otherwise the cache is
empty. -/
theorem Tight.rests_after_answers {sessionDepth : Nat} {steps : List (Step M)} {memory : M}
    (hsession : ((net.session sessionDepth steps).outcome (.initial memory)).1 = .ok ())
    {r : Request} (hr : r.composer = c) {answer : Object V R r.family}
    (hanswer : (net.answer depth r).outcome (net.after sessionDepth steps memory) =
      (.ok answer, w')) :
    RestsThrough net depth c t (net.after sessionDepth steps memory) (t.parts r) w' := by
  have hattended := Network.attended_after ht hsession
  cases depth with
  | zero => cases hanswer
  | succ depth =>
      have hrespond : (net.answer (depth + 1) r) =
          (Composer.tight t).respond (net.answer depth) r := by
        rw [Network.answer, hr, ht]
      rw [hrespond] at hanswer
      rcases t.respond_cases r with
        ⟨hparts, hrespond⟩ | ⟨term, edge, hparts, hrespond⟩ | ⟨term, edges, hparts, hrespond⟩
      · rw [hrespond] at hanswer
        rw [hparts]
        cases hanswer
        exact .nil
      · rw [hrespond] at hanswer
        rw [hparts]
        have hanswered := hanswer
        rw [← Network.answer_tight ht (r := r.about term edge) hr rfl] at hanswered
        exact .cons hanswered (query_rests ht (r := r.about term edge) hr rfl hattended hanswer).2
          .nil
      · rw [hrespond] at hanswer
        rw [hparts]
        rcases hmap : (t.queryAlong (net.answer depth) r term edges).outcome
            (net.after sessionDepth steps memory) with ⟨halt | answers, w₁⟩
        · rw [Run.outcome_bind_error hmap] at hanswer
          cases hanswer
        · rw [Run.outcome_bind_ok hmap] at hanswer
          cases hanswer
          exact queries_rest ht hr term edges hattended hmap

end Networks

namespace Circle

/-- The composer of the circle rests after it was asked about an operand. -/
theorem rests_after_operand :
    ((network.session 9 [.ask question]).outcome (.initial ())).1 = .ok () ∧
    ∃ answer w', (network.answer 9 { question with operand := some ⟨1⟩ }).outcome
        (network.after 9 [.ask question] ()) = (.ok answer, w') ∧
      RestsThrough network 9 ⟨0⟩ composer (network.after 9 [.ask question] ())
        [question.about ⟨1⟩ ⟨0⟩] w' := by
  have hsession : ((network.session 9 [.ask question]).outcome (.initial ())).1 = .ok () := by
    decide +kernel
  have hok : ((network.answer 9 { question with operand := some ⟨1⟩ }).outcome
      (network.after 9 [.ask question] ())).1.toBool = true := by
    decide +kernel
  rcases hanswer : (network.answer 9 { question with operand := some ⟨1⟩ }).outcome
      (network.after 9 [.ask question] ()) with ⟨halt | answer, w'⟩
  · rw [hanswer] at hok
    cases hok
  · exact ⟨hsession, answer, w', rfl, Tight.rests_after_answers (c := ⟨0⟩) (t := composer) rfl
      hsession rfl hanswer⟩

end Circle

end JointAnalysis
