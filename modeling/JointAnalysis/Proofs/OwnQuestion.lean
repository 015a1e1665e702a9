import JointAnalysis.Proofs.Nesting

/-!
# Members that ask their own question

A member that is asked about a query may ask the composer about the same query before it answers. A
tight composer cuts this off, but it remembers only the member to which a query was handed last.
With at most one further resolution of a query allowed while one is under way, this is enough: a
member that has been forgotten is asking inside a second resolution, and then the number of
resolutions cuts it off. `Tight.answered_at_once` says so, on the trail of a session.
-/

namespace JointAnalysis

open Lookup Tight

variable {V R M : Type}

/-- The members of a composer that were asked and have not answered, each with the query about which
it was asked, the latest first. -/
def pending (c : ComposerId) : List (Event V R) → List (AnalysisId × QueryKey)
  | [] => []
  | .asked _ family q :: past =>
    if q.composer = c then (q.self, ⟨q.term, q.edge, family.kind⟩) :: pending c past
    else pending c past
  | .answered _ q _ :: past => if q.composer = c then (pending c past).tail else pending c past
  | .requested _ :: past => pending c past
  | .dispatched _ _ :: past => pending c past
  | .returned _ _ :: past => pending c past
  | .cleared _ :: past => pending c past

/-- A request was made, and the cache of a composer was not cleared since. -/
def Recent (c : ComposerId) (r : Request) (trail : List (Event V R)) : Prop :=
  ∃ recent past, trail = recent ++ .requested r :: past ∧ ∀ e ∈ recent, e.clears c = false

/-- A composer gave this answer to a request about a query, and its cache was not cleared since the
request. -/
def Answered (c : ComposerId) (k : QueryKey) (o : AnyObject V R) (trail : List (Event V R)) :
    Prop :=
  ∃ recent r past, trail = recent ++ .requested r :: past ∧ r.composer = c ∧ r.key = k ∧
    .returned r o ∈ recent ∧ ∀ e ∈ recent, e.clears c = false

/-- Wherever a member asks about a query about which it was asked and has not answered, the composer
answers at once, with the full object or with an answer that it gave to the query before. -/
def AnsweredAtOnce (c : ComposerId) (trail : List (Event V R)) : Prop :=
  ∀ later r past, trail = later ++ .requested r :: past → r.composer = c →
    (r.client, r.key) ∈ pending c past →
    ∃ rest o, later = rest ++ [.returned r o] ∧ (o = ⟨r.family, .full⟩ ∨ Answered c r.key o past)

section Trails

variable {c : ComposerId} {e : Event V R} {trail : List (Event V R)}

/-- Events about other composers leave the members of a composer alone. -/
theorem pending_cons_of_ne (he : e.composer ≠ c) : pending c (e :: trail) = pending c trail := by
  cases e with
  | asked _ _ q => exact if_neg he
  | answered _ q _ => exact if_neg he
  | requested | dispatched | returned | cleared => rfl

/-- A recent request stays so until the cache is cleared. -/
theorem Recent.cons {r : Request} (h : Recent c r trail) (he : e.clears c = false) :
    Recent c r (e :: trail) := by
  obtain ⟨recent, past, rfl, hkept⟩ := h
  refine ⟨e :: recent, past, rfl, fun e' he' => ?_⟩
  rcases List.mem_cons.1 he' with rfl | he'
  · exact he
  · exact hkept e' he'

/-- An answer stays known until the cache is cleared. -/
theorem Answered.cons {k : QueryKey} {o : AnyObject V R} (h : Answered c k o trail)
    (he : e.clears c = false) : Answered c k o (e :: trail) := by
  obtain ⟨recent, r, past, rfl, hr, hk, hmem, hkept⟩ := h
  refine ⟨e :: recent, r, past, rfl, hr, hk, List.mem_cons_of_mem _ hmem, fun e' he' => ?_⟩
  rcases List.mem_cons.1 he' with rfl | he'
  · exact he
  · exact hkept e' he'

/-- The answer to a recent request is known. -/
theorem Recent.answered {r : Request} (h : Recent c r trail) (hr : r.composer = c)
    (o : AnyObject V R) : Answered c r.key o (.returned r o :: trail) := by
  obtain ⟨recent, past, rfl, hkept⟩ := h
  refine ⟨.returned r o :: recent, r, past, rfl, hr, rfl, List.mem_cons_self, fun e he => ?_⟩
  rcases List.mem_cons.1 he with rfl | he
  · rfl
  · exact hkept e he

/-- Nothing was asked on an empty trail. -/
theorem AnsweredAtOnce.nil : AnsweredAtOnce c ([] : List (Event V R)) := by
  intro later r past h
  simp at h

/-- Only a request of a member about a query of its own has to be answered at once. -/
theorem AnsweredAtOnce.cons (h : AnsweredAtOnce c trail)
    (he : ∀ r, e = .requested r → r.composer = c → (r.client, r.key) ∉ pending c trail) :
    AnsweredAtOnce c (e :: trail) := by
  intro later r past htrail hr hpending
  cases later with
  | nil =>
      obtain ⟨rfl, rfl⟩ := List.cons.inj htrail
      exact absurd hpending (he r rfl hr)
  | cons e' later =>
      obtain ⟨rfl, rfl⟩ := List.cons.inj htrail
      obtain ⟨rest, o, rfl, hgood⟩ := h later r past rfl hr hpending
      exact ⟨e :: rest, o, rfl, hgood⟩

/-- A request that is answered right away is answered at once. -/
theorem AnsweredAtOnce.answer {r : Request} {o : AnyObject V R} (h : AnsweredAtOnce c trail)
    (hgood : o = ⟨r.family, .full⟩ ∨ Answered c r.key o trail) :
    AnsweredAtOnce c (.returned r o :: .requested r :: trail) := by
  intro later r' past htrail hr hpending
  match later with
  | [] => cases htrail
  | [e] =>
      cases htrail
      exact ⟨[], o, rfl, hgood⟩
  | e₁ :: e₂ :: later =>
      cases htrail
      obtain ⟨rest, o', rfl, hgood'⟩ := h later r' past rfl hr hpending
      exact ⟨_ :: _ :: rest, o', rfl, hgood'⟩

end Trails

/-- The members on a stack that have not answered, each with its query. -/
def askedMembers : List (Frame V R M) → List (AnalysisId × QueryKey)
  | [] => []
  | .query _ :: s => askedMembers s
  | .dispatch _ _ :: s => askedMembers s
  | .settled _ :: s => askedMembers s
  | .member m r :: s => (m.id, r.key) :: askedMembers s

/-- A member that has not answered belongs to a resolution of its query. -/
theorem WellNested.resolutions_pos {s : List (Frame V R M)} (h : WellNested s) {m : AnalysisId}
    {k : QueryKey} (hm : (m, k) ∈ askedMembers s) : 1 ≤ resolutions k s := by
  induction s with
  | nil => cases hm
  | cons frame s ih =>
      cases frame with
      | query r => exact ih h hm
      | dispatch r rest => exact Nat.le_add_right_of_le (ih h.2 hm)
      | settled r => exact Nat.le_add_right_of_le (ih h.2 hm)
      | member m' r =>
          obtain ⟨⟨rest, below, rfl⟩, hs⟩ := h
          rcases List.mem_cons.1 hm with heq | hm
          · cases heq
            simp [resolutions]
          · exact ih hs hm

/-- An answer that a composer can keep for a query. -/
def Intact (k : QueryKey) (o : AnyObject V R) : Prop :=
  ∃ family answers, family.kind = k.kind ∧ o = ⟨family, .combined .intersect answers⟩

/-- A request about a query with an intact answer finds it settled. -/
theorem Intact.not_corrupt {w : World V R M} {r : Request}
    (h : ∀ o, (w.cache r.composer).finished? r.key = some o → Intact r.key o) : ¬ Corrupt w r := by
  rintro ⟨o, ho, hne⟩
  obtain ⟨family, answers, hkind, rfl⟩ := h o ho
  have hfamily : family = r.family := by
    cases family <;> cases hf : r.family <;> simp [Request.key, hf, Family.kind] at hkind ⊢
  subst hfamily
  exact hne answers rfl

/-- The last event is a request of a member about a query of its own, and it will be answered with
what is kept or cut off. -/
def Cornered (c : ComposerId) (t : Tight V R M) (p : Moment V R M) : Prop :=
  ∃ r past s, p.world.trail = .requested r :: past ∧ p.stack = .query r :: s ∧ r.composer = c ∧
    (r.client, r.key) ∈ pending c past ∧ AnsweredAtOnce c past ∧
    ((∃ o, (p.world.cache c).finished? r.key = some o ∧ Answered c r.key o past) ∨
      (Open p.world r ∧ t.Cut p.world r))

/-- What holds at every moment if at most one further resolution is allowed. -/
structure Guarded (net : Network V R M) (c : ComposerId) (t : Tight V R M) (p : Moment V R M) :
    Prop where
  balanced : Balanced net c 0 (fun _ => 0) p
  /-- The trail tells which members have not answered. -/
  pending_eq : pending c p.world.trail = askedMembers p.stack
  /-- What is kept is not corrupt. -/
  intact : ∀ k o, (p.world.cache c).finished? k = some o → Intact k o
  /-- The cache was not cleared during the queries on the stack. -/
  recent : ∀ r, .query r ∈ p.stack → Recent c r p.world.trail
  /-- What is kept has been given as an answer, except right after it was found. -/
  answered : ∀ k o, (p.world.cache c).finished? k = some o → Answered c k o p.world.trail ∨
    ∃ r s, (p.stack = .settled r :: s ∨ p.stack = .query r :: s) ∧ r.key = k
  /-- A member that has not answered would not have its own question resolved. -/
  barred : ∀ m k, (m, k) ∈ askedMembers p.stack → (p.world.cache c).finished? k ≠ none ∨
    (p.world.cache c).isCycle k m = true ∨ 2 ≤ (p.world.cache c).active k
  prompt : AnsweredAtOnce c p.world.trail ∨ Cornered c t p

section Moves

variable {net : Network V R M} {c : ComposerId} {t : Tight V R M} {p q : Moment V R M}

/-- A query is finished by keeping an answer, in a resolution that has asked all members. -/
theorem Move.finished_cases (h : Move net c t p q) {k : QueryKey} {o : AnyObject V R}
    (ho : (q.world.cache c).finished? k = some o) :
    (p.world.cache c).finished? k = some o ∨
      ∃ r s answers, p.stack = .dispatch r [] :: s ∧ q.stack = .settled r :: s ∧ r.key = k ∧
        o = ⟨r.family, .combined .intersect answers⟩ := by
  cases h with
  | @elsewhere w w' s hidle hdesk =>
      have hcache : w'.cache c = w.cache c := congrArg Desk.cache hdesk
      exact .inl (hcache ▸ ho)
  | wipe => simp [QueryCache.finished?_eq] at ho
  | request => exact .inl (by simpa using ho)
  | dispatch hr =>
      subst hr
      exact .inl (by simpa using ho)
  | skip => exact .inl ho
  | consult hr hopen hm hmark =>
      exact .inl (by simpa [QueryCache.finished?_mark hmark] using ho)
  | answer => exact .inl ho
  | @keep w s r answers cache hr hopen hfinish =>
      simp only [World.putCache_cache, if_true, QueryCache.finished?_finish hfinish] at ho
      split at ho
      · next hk => exact .inr ⟨r, s, answers, rfl, rfl, hk.symm, (Option.some.inj ho).symm⟩
      · exact .inl ho
  | withdraw => exact .inl ho
  | leave hr =>
      subst hr
      exact .inl (by simpa using ho)
  | @giveBack w s r hr o' hreason =>
      rcases t.concluded_cases w c with hconcluded | ⟨_, hconcluded⟩
      · exact .inl (by simpa [hconcluded] using ho)
      · simp [hconcluded, QueryCache.finished?_eq] at ho

/-- A move keeps track of the members that have not answered. -/
theorem Guarded.pending_move (h : Move net c t p q)
    (hp : pending c p.world.trail = askedMembers p.stack) :
    pending c q.world.trail = askedMembers q.stack := by
  cases h with
  | elsewhere hidle hdesk htrail =>
      rcases htrail with htrail | ⟨e, he, htrail⟩
      · rw [htrail]
        exact hp
      · rw [htrail, pending_cons_of_ne he]
        exact hp
  | wipe => exact hp
  | request => exact hp
  | dispatch => exact hp
  | skip => exact hp
  | @consult w s r m rest cache hr hopen hm hmark =>
      subst hr
      exact (if_pos rfl).trans (congrArg _ hp)
  | @answer w s m r hr o =>
      subst hr
      have htail : (pending r.composer w.trail).tail = askedMembers s := congrArg List.tail hp
      exact (if_pos rfl).trans htail
  | keep => exact hp
  | withdraw => exact hp
  | leave => exact hp
  | @giveBack w s r hr o hreason =>
      rcases t.concluded_cases w c with hconcluded | ⟨_, hconcluded⟩
      · rw [hconcluded]
        exact hp
      · rw [hconcluded]
        exact hp

/-- A move keeps the answers intact. -/
theorem Guarded.intact_move (h : Move net c t p q)
    (hp : ∀ k o, (p.world.cache c).finished? k = some o → Intact k o) (k : QueryKey)
    (o : AnyObject V R) (ho : (q.world.cache c).finished? k = some o) : Intact k o := by
  rcases h.finished_cases ho with ho | ⟨r, s, answers, _, _, rfl, rfl⟩
  · exact hp k o ho
  · exact ⟨r.family, answers, rfl, rfl⟩

/-- In a network that spares the composer, a move that empties the cache leaves nothing to do, and
all other moves add at most an event that does not clear the cache. -/
theorem Balanced.kept_or_dropped (hspares : net.Spares c) (h : Move net c t p q)
    (hp : Balanced net c 0 (fun _ => 0) p) :
    (q.world.trail = p.world.trail ∨ ∃ e, e.clears c = false ∧ q.world.trail = e :: p.world.trail) ∨
      (q.stack = [] ∧ q.world.cache c = .empty) := by
  obtain ⟨w, s⟩ := p
  rcases h.trail_cases with htrail | ⟨e, he, htrail⟩ | ⟨e, r, hs, hlast, hcache, _⟩
  · exact .inl (.inl htrail)
  · exact .inl (.inr ⟨e, he hspares, htrail⟩)
  · subst hs
    exact .inr ⟨hp.outermost hlast, hcache⟩

/-- A query on the stack was there before, or has just been requested. -/
theorem Move.query_cases (h : Move net c t p q) {r : Request} (hr : .query r ∈ q.stack) :
    .query r ∈ p.stack ∨ q.world.trail = .requested r :: p.world.trail := by
  cases h with
  | elsewhere | wipe => exact .inl hr
  | request r' =>
      rcases List.mem_cons.1 hr with heq | hr
      · cases heq
        exact .inr rfl
      · exact .inl hr
  | giveBack => exact .inl (List.mem_cons_of_mem _ hr)
  | _ => exact .inl (by simpa using hr)

/-- A move leaves the requests of the queries on the stack recent. -/
theorem Guarded.recent_move (hspares : net.Spares c) (h : Move net c t p q)
    (hp : Guarded net c t p) (r : Request) (hr : .query r ∈ q.stack) :
    Recent c r q.world.trail := by
  rcases h.query_cases hr with hold | hnew
  · have hrecent := hp.recent r hold
    rcases hp.balanced.kept_or_dropped hspares h with (htrail | ⟨e, he, htrail⟩) | ⟨hs, _⟩
    · rwa [htrail]
    · rw [htrail]
      exact hrecent.cons he
    · rw [hs] at hr
      cases hr
  · exact ⟨[], p.world.trail, hnew, by simp⟩

/-- What has just been found is given as an answer next. -/
theorem Guarded.answered_next (h : Move net c t p q) (hp : Guarded net c t p) {r : Request}
    {s : List (Frame V R M)} (hstack : p.stack = .settled r :: s ∨ p.stack = .query r :: s)
    {o : AnyObject V R} (hold : (p.world.cache c).finished? r.key = some o)
    (ho : (q.world.cache c).finished? r.key = some o) : Answered c r.key o q.world.trail ∨
      ∃ s, q.stack = .query r :: s := by
  cases h with
  | elsewhere hidle | wipe hidle | request _ hidle =>
      rcases hstack with rfl | rfl <;> exact absurd hidle id
  | dispatch hr hopen =>
      subst hr
      rcases hstack with hstack | hstack <;> cases hstack
      rw [hopen] at hold
      cases hold
  | skip | consult | answer | keep | withdraw => rcases hstack with hstack | hstack <;> cases hstack
  | leave =>
      rcases hstack with hstack | hstack <;> cases hstack
      obtain ⟨below, rfl⟩ := hp.balanced.nested.1
      exact .inr ⟨below, rfl⟩
  | @giveBack w s r' hr o' hreason =>
      rcases hstack with hstack | hstack <;> cases hstack
      subst hr
      rcases hreason with ⟨kept, hsettled, rfl⟩ | ⟨hopen, _⟩
      · rcases t.concluded_cases w r.composer with hconcluded | ⟨_, hconcluded⟩
        · obtain rfl : ⟨r.family, .combined .intersect kept⟩ = o :=
            Option.some.inj (hsettled.symm.trans hold)
          rw [hconcluded]
          exact .inl ((hp.recent r List.mem_cons_self).answered rfl _)
        · simp [hconcluded, QueryCache.finished?_eq] at ho
      · rw [hopen] at hold
        cases hold

/-- What is kept after a move has been given as an answer, except right after it was found. -/
theorem Guarded.answered_move (hspares : net.Spares c) (h : Move net c t p q)
    (hp : Guarded net c t p) (k : QueryKey) (o : AnyObject V R)
    (ho : (q.world.cache c).finished? k = some o) : Answered c k o q.world.trail ∨
      ∃ r s, (q.stack = .settled r :: s ∨ q.stack = .query r :: s) ∧ r.key = k := by
  rcases h.finished_cases ho with hold | ⟨r, s, _, _, hq, hk, _⟩
  · -- an answer is forgotten together with the cache, so as long as it is kept it is known
    have hkept : Answered c k o p.world.trail → Answered c k o q.world.trail := by
      intro hanswered
      rcases hp.balanced.kept_or_dropped hspares h with (htrail | ⟨e, he, htrail⟩) | ⟨_, hcache⟩
      · rwa [htrail]
      · rw [htrail]
        exact hanswered.cons he
      · rw [hcache] at ho
        cases ho
    rcases hp.answered k o hold with hanswered | ⟨r, s, hstack, rfl⟩
    · exact .inl (hkept hanswered)
    · rcases hp.answered_next h hstack hold ho with hanswered | ⟨s', hs'⟩
      · exact .inl hanswered
      · exact .inr ⟨r, s', .inr hs', rfl⟩
  · exact .inr ⟨r, s, .inl hq, hk⟩

/-- A member that has not answered stays barred from its own question. When another member is asked
about the query, this happens in a second resolution of it. -/
theorem Guarded.barred_move (hspares : net.Spares c) (h : Move net c t p q)
    (hp : Guarded net c t p) (m : AnalysisId) (k : QueryKey) (hm : (m, k) ∈ askedMembers q.stack) :
    (q.world.cache c).finished? k ≠ none ∨ (q.world.cache c).isCycle k m = true ∨
      2 ≤ (q.world.cache c).active k := by
  have hbarred := hp.barred m k
  cases h with
  | @elsewhere w w' s hidle hdesk =>
      have hcache : w'.cache c = w.cache c := congrArg Desk.cache hdesk
      simp only [hcache]
      exact hbarred hm
  | wipe hidle hwiped => exact absurd hspares hwiped
  | request => simpa using hbarred hm
  | @dispatch w s r hr hopen =>
      subst hr
      have hbarred : _ ∨ _ ∨ 2 ≤ (w.cache r.composer).active k := hbarred hm
      simp only [started_cache, QueryCache.finished?_enter, QueryCache.isCycle_enter,
        QueryCache.active_enter]
      refine hbarred.imp_right (Or.imp_right fun hactive => ?_)
      split
      · next hk => subst hk; omega
      · exact hactive
  | skip => exact hbarred hm
  | @consult w s r m' rest cache hr hopen hm' hmark =>
      subst hr
      simp only [World.note_cache, World.putCache_cache, if_true, QueryCache.finished?_mark hmark,
        QueryCache.isCycle_mark hmark, QueryCache.active_mark hmark]
      by_cases hsame : m'.id = m ∧ k = r.key
      · exact .inr (.inl (by simp [hsame]))
      · have hbelow : (m, k) ∈ askedMembers s := by
          rcases List.mem_cons.1 hm with heq | hm
          · cases heq
            exact absurd ⟨rfl, rfl⟩ hsame
          · exact hm
        by_cases hk : k = r.key
        · -- the mark now names another member, but `m` waits in a resolution further down
          have hactive : (w.cache r.composer).active k =
              0 + (resolutions k s + if r.key = k then 1 else 0) :=
            hp.balanced.active_eq hspares k
          have hnested : WellNested s := hp.balanced.nested.2
          have hother : 1 ≤ resolutions k s := hnested.resolutions_pos hbelow
          rw [if_pos hk.symm] at hactive
          exact .inr (.inr (by omega))
        · rw [if_neg hk]
          exact hbarred hbelow
  | answer => exact hbarred (List.mem_cons_of_mem _ hm)
  | @keep w s r answers cache hr hopen hfinish =>
      simp only [World.putCache_cache, if_true, QueryCache.finished?_finish hfinish,
        QueryCache.active_finish hfinish]
      by_cases hk : k = r.key
      · exact .inl (by simp [hk])
      · rw [if_neg hk, QueryCache.isCycle_finish hfinish hk]
        exact hbarred hm
  | withdraw => exact hbarred hm
  | @leave w s r answers hr hfound =>
      subst hr
      simp only [ended_cache, QueryCache.finished?_leave, QueryCache.isCycle_leave,
        QueryCache.active_leave]
      by_cases hk : k = r.key
      · subst hk
        exact .inl (by rw [hfound]; exact Option.some_ne_none _)
      · rw [if_neg hk]
        exact hbarred hm
  | @giveBack w s r hr o hreason =>
      rcases t.concluded_cases w c with hconcluded | ⟨hlast, hconcluded⟩
      · simpa [hconcluded] using hbarred hm
      · obtain rfl := hp.balanced.outermost hlast
        cases hm

/-- A request of a member about a query of its own is cornered. -/
theorem Guarded.cornered (hbound : t.config.reentrantResolutions ≤ 1) {w : World V R M}
    {s : List (Frame V R M)} (hp : Guarded net c t ⟨w, s⟩) (hidle : Idle s) {r : Request}
    (hr : r.composer = c) (hpending : (r.client, r.key) ∈ pending c w.trail)
    (hprompt : AnsweredAtOnce c w.trail) :
    Cornered c t ⟨begun (w.note (.requested r)) c, .query r :: s⟩ := by
  refine ⟨r, w.trail, s, rfl, rfl, hr, hpending, hprompt, ?_⟩
  rw [hp.pending_eq] at hpending
  subst hr
  unfold Open Cut
  simp only [begun_cache, World.note_cache]
  cases hfinished : (w.cache r.composer).finished? r.key with
  | some o =>
      refine .inl ⟨o, rfl, (hp.answered r.key o hfinished).resolve_right ?_⟩
      rintro ⟨r', s', hstack | hstack, _⟩ <;> cases hstack <;> exact hidle
  | none =>
      -- a forgotten member asks inside a second resolution, which is one too many for a third
      refine .inr ⟨rfl, ?_⟩
      rcases hp.barred r.client r.key hpending with hfound | hcycle | hactive
      · exact absurd hfinished hfound
      · exact .inl hcycle
      · exact .inr (Nat.lt_of_le_of_lt hbound hactive)

/-- A cornered request is answered at once. -/
theorem Guarded.answer_cornered (h : Move net c t p q) (hp : Guarded net c t p)
    (hcornered : Cornered c t p) : AnsweredAtOnce c q.world.trail := by
  obtain ⟨r, past, s, htrail, hstack, hr, hpending, hprompt, hreply⟩ := hcornered
  cases h with
  | elsewhere hidle | wipe hidle | request _ hidle =>
      cases hstack
      exact absurd hidle id
  | dispatch _ hopen huncut =>
      cases hstack
      subst hr
      rcases hreply with ⟨o, ho, _⟩ | ⟨_, hcut⟩
      · rw [hopen] at ho
        cases ho
      · exact absurd hcut huncut
  | skip | consult | answer | keep | withdraw | leave => cases hstack
  | @giveBack w s' r' _ o hreason =>
      cases hstack
      rcases t.concluded_cases w c with hconcluded | ⟨hlast, hconcluded⟩
      · rw [hconcluded]
        show AnsweredAtOnce c (.returned r ⟨r.family, o⟩ :: w.trail)
        change w.trail = _ at htrail
        rw [htrail]
        refine hprompt.answer ?_
        subst hr
        rcases hreply with ⟨kept, hkept, hanswered⟩ | ⟨hopen, _⟩
        · rcases hreason with ⟨answers, hsettled, rfl⟩ | ⟨hopen, _⟩
          · cases hsettled.symm.trans hkept
            exact .inr hanswered
          · rw [hopen] at hkept
            cases hkept
        · rcases hreason with ⟨answers, hsettled, _⟩ | ⟨_, _, rfl⟩
          · cases hopen.symm.trans hsettled
          · exact .inl rfl
      · -- the outermost query is not the request of a member
        obtain rfl := hp.balanced.outermost hlast
        have hnobody : pending c w.trail = [] := hp.pending_eq
        change w.trail = _ at htrail
        rw [htrail] at hnobody
        rw [show pending c past = [] from hnobody] at hpending
        cases hpending

/-- After a move all members were answered at once that asked their own question, or one of them has
just asked and is cornered. -/
theorem Guarded.prompt_move (hbound : t.config.reentrantResolutions ≤ 1) (h : Move net c t p q)
    (hp : Guarded net c t p) : AnsweredAtOnce c q.world.trail ∨ Cornered c t q := by
  rcases hp.prompt with hprompt | hcornered
  · cases h with
    | elsewhere hidle hdesk htrail =>
        rcases htrail with htrail | ⟨e, he, htrail⟩
        · rw [htrail]
          exact .inl hprompt
        · rw [htrail]
          exact .inl (hprompt.cons fun r hr hc => absurd (hr ▸ hc) he)
    | @request w s r hidle hr =>
        by_cases hpending : (r.client, r.key) ∈ pending c w.trail
        · exact .inr (hp.cornered hbound hidle hr hpending hprompt)
        · exact .inl (hprompt.cons fun r' hr' _ => by cases hr'; exact hpending)
    | wipe | dispatch | consult | answer => exact .inl (hprompt.cons fun _ hr => nomatch hr)
    | skip | keep | withdraw | leave => exact .inl hprompt
    | @giveBack w s r hr o hreason =>
        rcases t.concluded_cases w c with hconcluded | ⟨_, hconcluded⟩
        · rw [hconcluded]
          exact .inl (hprompt.cons fun _ hr => nomatch hr)
        · rw [hconcluded]
          exact .inl ((hprompt.cons (e := .cleared c) fun _ hr => nomatch hr).cons
            fun _ hr => nomatch hr)
  · exact .inl (hp.answer_cornered h hcornered)

/-- A move keeps the members guarded from their own questions. -/
theorem Guarded.move (hspares : net.Spares c) (hbound : t.config.reentrantResolutions ≤ 1)
    (h : Move net c t p q) (hp : Guarded net c t p) : Guarded net c t q where
  balanced := hp.balanced.move (fun _ _ => rfl) h
  pending_eq := pending_move h hp.pending_eq
  intact := intact_move h hp.intact
  recent := hp.recent_move hspares h
  answered := hp.answered_move hspares h
  barred := hp.barred_move hspares h
  prompt := hp.prompt_move hbound h

/-- Nobody has asked anything in a world in which nothing happened. -/
theorem Guarded.initial (memory : M) :
    Guarded net c t ⟨(.initial memory : World V R M), []⟩ where
  balanced := .initial memory
  pending_eq := rfl
  intact _ _ ho := by cases ho
  recent _ hr := by cases hr
  answered _ _ ho := by cases ho
  barred _ _ hm := by cases hm
  prompt := .inl .nil

/-- Members stay guarded when a client clears the cache. -/
theorem Guarded.clear {w : World V R M} (hp : Guarded net c t ⟨w, []⟩) :
    Guarded net c t ⟨w.clear c, []⟩ where
  balanced := hp.balanced.clear
  pending_eq := hp.pending_eq
  intact k o ho := by simp [QueryCache.finished?_eq] at ho
  recent _ hr := by cases hr
  answered k o ho := by simp [QueryCache.finished?_eq] at ho
  barred _ _ hm := by cases hm
  prompt := by
    rcases hp.prompt with hprompt | ⟨_, _, _, _, hstack, _⟩
    · exact .inl (hprompt.cons fun _ hr => nomatch hr)
    · cases hstack

end Moves

/-- If at most one further resolution of a query is allowed while one is under way, members that ask
their own question are answered at once. -/
theorem Tight.answered_at_once {net : Network V R M} {c : ComposerId} {t : Tight V R M}
    (ht : net.composer? c = some (.tight t)) (hspares : net.Spares c)
    (hbound : t.config.reentrantResolutions ≤ 1) (depth : Nat) (steps : List (Step M))
    (memory : M) : AnsweredAtOnce c (net.after depth steps memory).trail := by
  obtain ⟨s, hguarded, hend⟩ := Network.session_invariant ht
    (fun _ _ => Guarded.move hspares hbound) (fun _ => Guarded.clear) depth steps (.initial memory)
    (.initial memory)
  rcases hguarded.prompt with hprompt | ⟨r, past, s', _, rfl, hr, _⟩
  · exact hprompt
  · rcases hresult : ((net.session depth steps).outcome (.initial memory)).1 with halt | _
    · rw [hresult] at hend
      subst hr
      exact absurd hend (Intact.not_corrupt fun o ho => hguarded.intact r.key o ho)
    · rw [hresult] at hend
      cases hend

end JointAnalysis
