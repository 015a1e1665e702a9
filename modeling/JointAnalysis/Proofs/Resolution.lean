import JointAnalysis.Proofs.Outcome

/-!
# What a tight composer does with a question

The outcome of each part of a tight composer, by cases. A question is answered at once when the
query is finished, when the asker was handed it last, or when too many resolutions of it are under
way; in these cases the desk stays as it is. Otherwise a resolution is started and all members are
asked in turn. The cases are those of `Lookup.cases` throughout: the query is open, it is settled by
an intersection, or its answer is corrupt.
-/

namespace JointAnalysis

variable {V R M : Type}

/-- An object that belongs to a family is known by it. -/
theorem AnyObject.as?_eq_some_iff {a : AnyObject V R} {family : Family}
    {o : Object V R family} : a.as? family = some o ↔ a = ⟨family, o⟩ := by
  obtain ⟨f, x⟩ := a
  constructor
  · intro h
    cases f <;> cases family <;> simp only [as?, Option.some.injEq, reduceCtorEq] at h <;> rw [h]
  · intro h
    cases h
    cases family <;> rfl

namespace Lookup

variable (w : World V R M) (r : Request)

/-- The query of a request has no answer yet. -/
def Open : Prop := (w.cache r.composer).finished? r.key = none

/-- The query of a request is finished, and the answer is the intersection of these objects. -/
def Settled (answers : List (Object V R r.family)) : Prop :=
  (w.cache r.composer).finished? r.key = some ⟨r.family, .combined .intersect answers⟩

/-- The query of a request is finished, but not with an intersection of its family. -/
def Corrupt : Prop :=
  ∃ kept, (w.cache r.composer).finished? r.key = some kept ∧
    ∀ answers, kept ≠ ⟨r.family, .combined .intersect answers⟩

/-- A query is open, settled or corrupt. -/
theorem cases : Open w r ∨ (∃ answers, Settled w r answers) ∨ Corrupt w r := by
  unfold Open Settled Corrupt
  cases h : (w.cache r.composer).finished? r.key with
  | none => exact .inl rfl
  | some kept =>
      by_cases hkept : ∃ answers, kept = ⟨r.family, .combined .intersect answers⟩
      · obtain ⟨answers, rfl⟩ := hkept
        exact .inr (.inl ⟨answers, rfl⟩)
      · exact .inr (.inr ⟨kept, rfl, fun answers heq => hkept ⟨answers, heq⟩⟩)

variable {w r}

/-- What is kept for the query of a request, if it is finished, is the intersection of objects of
which `holds` is true. -/
def Sealed (w : World V R M) (r : Request) (holds : List (Object V R r.family) → Prop) : Prop :=
  ∀ e, (w.cache r.composer).get? r.key = some e → e.state = .finished →
    ∃ answers, e.answer = some ⟨r.family, .combined .intersect answers⟩ ∧ holds answers

section Sealing

variable {holds : List (Object V R r.family) → Prop} (h : Sealed w r holds)

include h

/-- What is kept for a settled query is as it should be. -/
theorem Sealed.settled {answers : List (Object V R r.family)} (hsettled : Settled w r answers) :
    holds answers := by
  obtain ⟨e, he, hstate, hanswer⟩ := QueryCache.finished?_eq_some.1 hsettled
  obtain ⟨answers', hanswer', hholds⟩ := h e he hstate
  rw [hanswer] at hanswer'
  cases hanswer'
  exact hholds

/-- What is kept is not corrupt. -/
theorem Sealed.not_corrupt : ¬ Corrupt w r := by
  rintro ⟨kept, hfinished, hne⟩
  obtain ⟨e, he, hstate, hanswer⟩ := QueryCache.finished?_eq_some.1 hfinished
  obtain ⟨answers, hanswer', _⟩ := h e he hstate
  rw [hanswer] at hanswer'
  exact hne answers (Option.some.inj hanswer')

/-- An open query is not in the finished state, since a finished one has an answer. -/
theorem Sealed.unfinished (hopen : Open w r) :
    ((w.cache r.composer).entryOrFresh r.key).state ≠ .finished := by
  intro hstate
  cases he : (w.cache r.composer).get? r.key with
  | none => simp [QueryCache.entryOrFresh, he, CacheEntry.fresh] at hstate
  | some e =>
      simp only [QueryCache.entryOrFresh, he, Option.getD_some] at hstate
      obtain ⟨_, hanswer, _⟩ := h e he hstate
      have hfinished := QueryCache.finished?_eq_some.2 ⟨e, he, hstate, hanswer⟩
      rw [hopen] at hfinished
      cases hfinished

end Sealing

/-- Nothing is found for an open query. -/
theorem Open.outcome (h : Open w r) :
    (Tight.cached? r : Run V R M _).outcome w = (.ok none, w) := by
  unfold Open at h
  rw [Tight.cached?, Run.outcome_bind_ok (Run.outcome_cache w r.composer), h]
  rfl

/-- The answer of a settled query is found. -/
theorem Settled.outcome {answers : List (Object V R r.family)} (h : Settled w r answers) :
    (Tight.cached? r : Run V R M _).outcome w = (.ok (some (.combined .intersect answers)), w) := by
  unfold Settled at h
  rw [Tight.cached?, Run.outcome_bind_ok (Run.outcome_cache w r.composer), h]
  have has : (⟨r.family, .combined .intersect answers⟩ : AnyObject V R).as? r.family =
      some (.combined .intersect answers) := AnyObject.as?_eq_some_iff.2 rfl
  simp only [has]
  rfl

/-- Looking up a corrupt query is a fault. -/
theorem Corrupt.outcome (h : Corrupt w r) :
    (Tight.cached? r : Run V R M _).outcome w =
      (.error (.fault (.corruptAnswer r.key.kind)), w) := by
  obtain ⟨kept, hkept, hne⟩ := h
  rw [Tight.cached?, Run.outcome_bind_ok (Run.outcome_cache w r.composer), hkept]
  cases has : kept.as? r.family with
  | none => simp only [has]; rfl
  | some o =>
      have hkept' := AnyObject.as?_eq_some_iff.1 has
      match o with
      | .full => simp only [has]; rfl
      | .empty => simp only [has]; rfl
      | .plain _ => simp only [has]; rfl
      | .combined .union _ => simp only [has]; rfl
      | .combined .intersect answers => exact absurd hkept' (hne answers)

end Lookup

namespace Tight

open Lookup

variable (t : Tight V R M) (ask : Answerer V R M) {r : Request} {w : World V R M}

/-- How a member is asked on behalf of a request. -/
def inquiry (r : Request) (m : Member V R M) : Inquiry := ⟨r.term, r.edge, r.composer, m.id⟩

/-- Keep the answers to an open query. -/
theorem keep_open (h : Open w r) (answers : List (Object V R r.family)) :
    (keep r answers : Run V R M _).outcome w =
      match (w.cache r.composer).finish r.key ⟨r.family, .combined .intersect answers⟩ with
      | .ok cache => (.ok (.combined .intersect answers), w.putCache r.composer cache)
      | .error fault => (.error (.fault fault), w) := by
  rw [keep, Run.outcome_bind_ok h.outcome]
  show Run.outcome (Run.cache r.composer >>= fun _ => _) w = _
  rw [Run.outcome_bind_ok (Run.outcome_cache w r.composer)]
  cases (w.cache r.composer).finish r.key ⟨r.family, .combined .intersect answers⟩ <;> rfl

/-- An answer that was kept meanwhile is not replaced. -/
theorem keep_settled {kept : List (Object V R r.family)} (h : Settled w r kept)
    (answers : List (Object V R r.family)) :
    (keep r answers : Run V R M _).outcome w = (.ok (.combined .intersect kept), w) := by
  rw [keep, Run.outcome_bind_ok h.outcome]
  rfl

/-- A corrupt answer ends the query before anything is kept. -/
theorem keep_corrupt (h : Corrupt w r) (answers : List (Object V R r.family)) :
    (keep r answers : Run V R M _).outcome w =
      (.error (.fault (.corruptAnswer r.key.kind)), w) := by
  rw [keep, Run.outcome_bind_error h.outcome]

variable {m : Member V R M} (rest : List (Member V R M)) (answers : List (Object V R r.family))

/-- A member that does not handle the family is passed over. -/
theorem gather_skip (hm : m.analysis.handles r.family = false) :
    t.gather ask r (m :: rest) answers = t.gather ask r rest answers := by
  rw [gather]
  simp [hm]

/-- A member that handles the family is asked about an open query. -/
theorem gather_open (hm : m.analysis.handles r.family = true) (h : Open w r) :
    (t.gather ask r (m :: rest) answers).outcome w =
      match (w.cache r.composer).mark r.key m.id with
      | .ok cache =>
        (do
          let answer ← m.analysis.consult ask r.family (inquiry r m)
          t.gather ask r rest (answers ++ [answer])).outcome (w.putCache r.composer cache)
      | .error fault => (.error (.fault fault), w) := by
  rw [gather]
  simp only [hm, if_true]
  rw [Run.outcome_bind_ok h.outcome]
  show Run.outcome (Run.cache r.composer >>= fun _ => _) w = _
  rw [Run.outcome_bind_ok (Run.outcome_cache w r.composer)]
  cases (w.cache r.composer).mark r.key m.id <;> rfl

/-- Nobody else is asked about a settled query. -/
theorem gather_settled (hm : m.analysis.handles r.family = true)
    {kept : List (Object V R r.family)} (h : Settled w r kept) :
    (t.gather ask r (m :: rest) answers).outcome w = (.ok (.combined .intersect kept), w) := by
  rw [gather]
  simp only [hm, if_true]
  rw [Run.outcome_bind_ok h.outcome]
  rfl

/-- A corrupt answer ends the query before anyone else is asked. -/
theorem gather_corrupt (hm : m.analysis.handles r.family = true) (h : Corrupt w r) :
    (t.gather ask r (m :: rest) answers).outcome w =
      (.error (.fault (.corruptAnswer r.key.kind)), w) := by
  rw [gather]
  simp only [hm, if_true]
  rw [Run.outcome_bind_error h.outcome]

section Client

variable (r : Request) (asker : AnalysisId)

/-- What is kept for a query is found whoever asks. -/
theorem cached?_client : (cached? { r with client := asker } : Run V R M _) = cached? r := by
  refine bind_congr fun cache => ?_
  rw [show Request.key { r with client := asker } = r.key from rfl]
  cases cache.finished? r.key with
  | none => rfl
  | some kept =>
      dsimp only
      rcases kept.as? r.family with _ | (_ | _ | _ | ⟨_ | _, _⟩) <;> rfl

/-- The same answer is kept whoever asks. -/
theorem keep_client (answers : List (Object V R r.family)) :
    (keep { r with client := asker } answers : Run V R M _) = keep r answers := by
  unfold keep
  rw [cached?_client]
  refine bind_congr fun found => ?_
  cases found <;> rfl

/-- The members are asked in the same way whoever asks. -/
theorem gather_client (rest : List (Member V R M)) (answers : List (Object V R r.family)) :
    t.gather ask { r with client := asker } rest answers = t.gather ask r rest answers := by
  induction rest generalizing answers with
  | nil => exact bind_congr fun above => keep_client r asker (above ++ answers)
  | cons m rest ih =>
      rw [gather, gather, cached?_client, ih]
      refine ite_congr rfl (fun _ => bind_congr fun found => ?_) fun _ => rfl
      cases found with
      | none =>
          simp only [ih]
          rfl
      | some answer => rfl

end Client

/-- Whether a request about an open query is answered at once: the asker was handed the query last,
or too many resolutions of it are under way. -/
def Cut (w : World V R M) (r : Request) : Prop :=
  (w.cache r.composer).isCycle r.key r.client = true ∨
    t.config.reentrantResolutions < (w.cache r.composer).active r.key

/-- The world in which a resolution has been started. -/
def started (w : World V R M) (r : Request) : World V R M :=
  (w.putCache r.composer ((w.cache r.composer).enter r.key).2).note (.dispatched r.composer r.key)

/-- The world in which a resolution has been ended. -/
def ended (w : World V R M) (r : Request) : World V R M :=
  w.putCache r.composer ((w.cache r.composer).leave r.key)

/-- A resolution that is counted and uncounted while others are under way changes nothing: its entry
was there before, and the cache ends as it began. -/
theorem ended_entered (h : 0 < (w.cache r.composer).active r.key) :
    ended (w.putCache r.composer ((w.cache r.composer).enter r.key).2) r = w := by
  rw [ended, World.putCache_putCache, World.putCache_cache, if_pos rfl, QueryCache.leave_enter h,
    World.putCache_cache_self]

/-- End a resolution. -/
def depart (r : Request) : Run V R M Unit := do
  Run.setCache r.composer ((← Run.cache r.composer).leave r.key)

/-- A settled query is answered from the cache. -/
theorem resolve_settled {kept : List (Object V R r.family)} (h : Settled w r kept) :
    (t.resolve ask r).outcome w = (.ok (.combined .intersect kept), w) := by
  rw [resolve, Run.outcome_bind_ok h.outcome]
  rfl

/-- A corrupt query is not answered. -/
theorem resolve_corrupt (h : Corrupt w r) :
    (t.resolve ask r).outcome w = (.error (.fault (.corruptAnswer r.key.kind)), w) := by
  rw [resolve, Run.outcome_bind_error h.outcome]

/-- A request that is cut off is answered with the full object, and nothing changes. -/
theorem resolve_cut (h : Open w r) (hcut : t.Cut w r) :
    (t.resolve ask r).outcome w = (.ok .full, w) := by
  rw [resolve, Run.outcome_bind_ok h.outcome]
  show Run.outcome (Run.cache r.composer >>= fun _ => _) w = _
  rw [Run.outcome_bind_ok (Run.outcome_cache w r.composer)]
  by_cases hcycle : (w.cache r.composer).isCycle r.key r.client = true
  · simp only [hcycle, if_true]
    rfl
  · have hbound := hcut.resolve_left hcycle
    have hattempt : t.attempt ask r ((w.cache r.composer).active r.key) = pure .full := by
      rw [attempt, if_pos hbound]
    simp only [hcycle, Bool.false_eq_true, if_false]
    rw [Run.outcome_bind_ok (Run.outcome_setCache w r.composer _)]
    simp only [QueryCache.enter_fst, hattempt]
    rw [Run.outcome_bind_ok (Run.outcome_pure _ _),
      Run.outcome_bind_ok (Run.outcome_cache _ r.composer),
      Run.outcome_bind_ok (Run.outcome_setCache _ r.composer _), Run.outcome_pure]
    show (_, ended _ r) = _
    rw [ended_entered (Nat.zero_lt_of_lt hbound)]

/-- A request that is not cut off has everyone asked in a resolution of its own. -/
theorem resolve_open (h : Open w r) (hcut : ¬ t.Cut w r) :
    (t.resolve ask r).outcome w =
      (do
        let answer ← t.gather ask r t.members []
        depart r
        pure answer).outcome (started w r) := by
  obtain ⟨hcycle, hbound⟩ := not_or.1 hcut
  have hattempt : t.attempt ask r ((w.cache r.composer).active r.key) = t.convene ask r := by
    rw [attempt, if_neg hbound]
  rw [resolve, Run.outcome_bind_ok h.outcome]
  show Run.outcome (Run.cache r.composer >>= fun _ => _) w = _
  rw [Run.outcome_bind_ok (Run.outcome_cache w r.composer)]
  simp only [hcycle, Bool.false_eq_true, if_false]
  rw [Run.outcome_bind_ok (Run.outcome_setCache w r.composer _)]
  simp only [QueryCache.enter_fst, hattempt, convene, depart, bind_assoc]
  exact Run.outcome_bind_ok (Run.outcome_record _ _)

/-- The world in which a query of a composer has begun. -/
def begun (w : World V R M) (c : ComposerId) : World V R M := w.putDepth c (w.depth c + 1)

/-- The world in which a query of a composer is over. -/
def concluded (w : World V R M) (c : ComposerId) : World V R M :=
  let w' := w.putDepth c (w.depth c - 1)
  if w.depth c - 1 = 0 ∧ t.config.cachePolicy = .perTopLevelQuery then w'.clear c else w'

/-- A query that is over is counted off, and the cache is as it was or dropped after the outermost
query. -/
theorem concluded_cases (w : World V R M) (c : ComposerId) :
    t.concluded w c = w.putDepth c (w.depth c - 1) ∨
      w.depth c - 1 = 0 ∧ t.concluded w c = (w.putDepth c (w.depth c - 1)).clear c := by
  unfold concluded
  split
  · next h => exact .inr ⟨h.1, rfl⟩
  · exact .inl rfl

section Projections

variable (w : World V R M) (r : Request) (c d : ComposerId)

@[simp] theorem started_depth : (started w r).depth d = w.depth d := by simp [started]
@[simp] theorem started_trail :
    (started w r).trail = .dispatched r.composer r.key :: w.trail := rfl
@[simp] theorem started_cache :
    (started w r).cache r.composer = ((w.cache r.composer).enter r.key).2 := by simp [started]

@[simp] theorem ended_depth : (ended w r).depth d = w.depth d := by simp [ended]
@[simp] theorem ended_trail : (ended w r).trail = w.trail := rfl
@[simp] theorem ended_cache :
    (ended w r).cache r.composer = (w.cache r.composer).leave r.key := by simp [ended]

@[simp] theorem begun_depth : (begun w c).depth c = w.depth c + 1 := by simp [begun]
@[simp] theorem begun_trail : (begun w c).trail = w.trail := rfl
@[simp] theorem begun_cache : (begun w c).cache d = w.cache d := by simp [begun]

@[simp]
theorem concluded_depth : (t.concluded w c).depth c = w.depth c - 1 := by
  rcases t.concluded_cases w c with h | ⟨_, h⟩ <;> simp [h]

/-- Ending a query may add to the trail. -/
theorem trail_concluded : w.trail <:+ (t.concluded w c).trail := by
  rcases t.concluded_cases w c with h | ⟨_, h⟩
  · rw [h]
    exact List.suffix_rfl
  · rw [h]
    exact List.suffix_cons _ _

/-- A query that is over as soon as it has begun changes nothing, if the cache is retained. -/
theorem concluded_begun (hretain : t.config.cachePolicy = .retain) :
    t.concluded (begun w c) c = w := by
  have hkept : ¬ ((begun w c).depth c - 1 = 0 ∧ t.config.cachePolicy = .perTopLevelQuery) := by
    simp [hretain]
  rw [concluded, if_neg hkept, begun_depth, Nat.add_sub_cancel]
  obtain ⟨desk, memory, trail⟩ := w
  simp only [begun, World.putDepth, World.putDesk, World.cache, World.depth, World.mk.injEq,
    and_true]
  funext d
  split
  · next h => rw [h]; rfl
  · rfl

end Projections

/-- Ending a query counts it off and may drop the cache. -/
theorem closed_outcome (c : ComposerId) : (t.closed c).outcome w = (.ok (), t.concluded w c) := by
  rw [closed, Run.outcome_bind_ok (Run.outcome_desk w c),
    Run.outcome_bind_ok (Run.outcome_setDesk w c _)]
  by_cases h : (w.desk c).depth - 1 = 0 ∧ t.config.cachePolicy = .perTopLevelQuery
  · rw [if_pos h, concluded, if_pos (by exact h)]
    rfl
  · rw [if_neg h, concluded, if_neg (by exact h)]
    rfl

/-- A query is a resolution between its beginning and its end. -/
theorem query_outcome :
    (t.query ask r).outcome w =
      (do
        let answer ← t.resolve ask r
        t.closed r.composer
        pure answer).outcome (begun w r.composer) := by
  have hopened : (opened r.composer : Run V R M Unit).outcome w =
      (.ok (), begun w r.composer) := rfl
  rw [query, Run.outcome_bind_ok hopened]

/-- A query on the trail is a resolution between its beginning and its end. -/
theorem noted_query_outcome :
    ((Composer.tight t).query ask r).outcome w =
      (do
        let answer ← t.resolve ask r
        t.closed r.composer
        Run.record (.returned r ⟨r.family, answer⟩)
        pure answer).outcome (begun (w.note (.requested r)) r.composer) := by
  rw [Composer.query, Run.outcome_bind_ok (Run.outcome_record w _)]
  refine (Run.outcome_bind_congr (t.query_outcome ask) _).trans ?_
  simp only [bind_assoc, pure_bind]

end Tight

/-- The member that speaks for a chain handles the family. -/
theorem Chain.speaker?_eq_some {x : Chain V R M} {family : Family} {client : AnalysisId}
    {m : Member V R M} (h : x.speaker? family client = some m) :
    m ∈ x.members ∧ m.analysis.handles family = true := by
  refine ⟨?_, by simpa using List.find?_some h⟩
  exact (List.takeWhile_sublist _).subset (List.mem_reverse.1 (List.mem_of_find?_eq_some h))

/-- The same request about a term itself. -/
abbrev Request.about (r : Request) (term : TermId) (edge : EdgeId) : Request :=
  { r with term, edge, operand := none }

namespace Tight

variable (t : Tight V R M)

/-- The questions about terms themselves that a question comes to. -/
def parts (r : Request) : List Request :=
  match r.operand with
  | none => [r]
  | some operand =>
    match t.source r.term operand r.edge with
    | .unknown => []
    | .here => [r.about operand r.edge]
    | .along edges => edges.map (r.about operand)

/-- The parts of a question go to the same composer. -/
theorem composer_of_mem_parts {t : Tight V R M} {r q : Request} (h : q ∈ t.parts r) :
    q.composer = r.composer := by
  unfold parts at h
  split at h
  · rw [List.mem_singleton.1 h]
  · split at h
    · cases h
    · rw [List.mem_singleton.1 h]
    · obtain ⟨edge, _, rfl⟩ := List.mem_map.1 h
      rfl

/-- Ask about a term at each of some edges. -/
def queryAlong (ask : Answerer V R M) (r : Request) (term : TermId) (edges : List EdgeId) :
    Run V R M (List (Object V R r.family)) :=
  edges.mapM fun edge => (Composer.tight t).query ask (r.about term edge)

/-- The edges are taken in turn. -/
theorem queryAlong_cons (ask : Answerer V R M) (r : Request) (term : TermId) (edge : EdgeId)
    (rest : List EdgeId) :
    t.queryAlong ask r term (edge :: rest) = (do
      let answer ← (Composer.tight t).query ask (r.about term edge)
      let others ← t.queryAlong ask r term rest
      pure (answer :: others)) :=
  List.mapM_cons

variable {t} in
/-- If all questions are answered, so is the first one, and then the others. -/
theorem queryAlong_cons_ok {ask : Answerer V R M} {r : Request} {term : TermId} {edge : EdgeId}
    {rest : List EdgeId} {w w' : World V R M} {answers : List (Object V R r.family)}
    (h : (t.queryAlong ask r term (edge :: rest)).outcome w = (.ok answers, w')) :
    ∃ answer others w₁, ((Composer.tight t).query ask (r.about term edge)).outcome w =
        (.ok answer, w₁) ∧
      (t.queryAlong ask r term rest).outcome w₁ = (.ok others, w') ∧
      answers = answer :: others := by
  rw [queryAlong_cons] at h
  obtain ⟨answer, w₁, hfirst, h⟩ := Run.outcome_bind_eq_ok h
  obtain ⟨others, _, hothers, hpure⟩ := Run.outcome_bind_eq_ok h
  cases hpure
  exact ⟨answer, others, w₁, hfirst, hothers, rfl⟩

/-- A question has no parts and nothing is known, or it has one part and the same answer, or the
answers to its parts are combined. -/
theorem respond_cases (r : Request) :
    (t.parts r = [] ∧ ∀ ask, (Composer.tight t).respond ask r = pure .full) ∨
    (∃ term edge, t.parts r = [r.about term edge] ∧ ∀ ask,
      (Composer.tight t).respond ask r = (Composer.tight t).query ask (r.about term edge)) ∨
    ∃ term, ∃ edges : List EdgeId, t.parts r = edges.map (r.about term) ∧ ∀ ask,
      (Composer.tight t).respond ask r = (do
        let answers ← t.queryAlong ask r term edges
        pure (.combined t.config.operandMode answers)) := by
  obtain ⟨c, family, term, edge, client, operand⟩ := r
  cases operand with
  | none => exact .inr (.inl ⟨term, edge, rfl, fun _ => rfl⟩)
  | some operand =>
      simp only [parts, Composer.respond]
      match t.source term operand edge with
      | .unknown => exact .inl ⟨rfl, fun _ => rfl⟩
      | .here => exact .inr (.inl ⟨operand, edge, rfl, fun _ => rfl⟩)
      | .along [edge'] => exact .inr (.inl ⟨operand, edge', rfl, fun _ => rfl⟩)
      | .along [] => exact .inr (.inr ⟨operand, [], rfl, fun _ => rfl⟩)
      | .along (e₁ :: e₂ :: rest) =>
          exact .inr (.inr ⟨operand, e₁ :: e₂ :: rest, rfl, fun _ => rfl⟩)

end Tight

/-- The questions about terms themselves that a question to a composer comes to. -/
def Composer.parts (r : Request) : Composer V R M → List Request
  | .tight t => t.parts r
  | _ =>
    match r.operand with
    | none => [r]
    | some operand => [r.about operand r.edge]

/-- A question about a term is its own only part. -/
theorem Composer.parts_eq_self (c : Composer V R M) {r : Request} (ho : r.operand = none) :
    c.parts r = [r] := by
  cases c <;> simp [Composer.parts, Tight.parts, ho]

/-- The parts of a question go to the same composer and ask about terms. -/
theorem Composer.of_mem_parts {c : Composer V R M} {r q : Request} (h : q ∈ c.parts r) :
    q.composer = r.composer ∧ q.operand = none := by
  cases ho : r.operand with
  | none =>
      rw [c.parts_eq_self ho, List.mem_singleton] at h
      subst h
      exact ⟨rfl, ho⟩
  | some operand =>
      cases c with
      | tight t =>
          simp only [Composer.parts, Tight.parts, ho] at h
          split at h
          · cases h
          · rw [List.mem_singleton.1 h]
            exact ⟨rfl, rfl⟩
          · obtain ⟨edge, _, rfl⟩ := List.mem_map.1 h
            exact ⟨rfl, rfl⟩
      | chain x =>
          simp only [Composer.parts, ho, List.mem_singleton] at h
          rw [h]
          exact ⟨rfl, rfl⟩
      | relay x =>
          simp only [Composer.parts, ho, List.mem_singleton] at h
          rw [h]
          exact ⟨rfl, rfl⟩

/-- A question to any composer has no parts and nothing is known, or it has one part and the same
answer, or the answers to its parts are combined. -/
theorem Composer.respond_cases (c : Composer V R M) (r : Request) :
    (c.parts r = [] ∧ ∀ ask, c.respond ask r = pure .full) ∨
    (∃ term edge, c.parts r = [r.about term edge] ∧ ∀ ask,
      c.respond ask r = c.query ask (r.about term edge)) ∨
    ∃ term mode, ∃ edges : List EdgeId, c.parts r = edges.map (r.about term) ∧ ∀ ask,
      c.respond ask r = (do
        let answers ← edges.mapM fun edge => c.query ask (r.about term edge)
        pure (.combined mode answers)) := by
  cases c with
  | tight t =>
      rcases t.respond_cases r with hnone | hone | ⟨term, edges, hmany⟩
      · exact .inl hnone
      · exact .inr (.inl hone)
      · exact .inr (.inr ⟨term, _, edges, hmany⟩)
  | chain x =>
      obtain ⟨d, family, term, edge, client, _ | operand⟩ := r
      · exact .inr (.inl ⟨term, edge, rfl, fun _ => rfl⟩)
      · exact .inr (.inl ⟨operand, edge, rfl, fun _ => rfl⟩)
  | relay x =>
      obtain ⟨d, family, term, edge, client, _ | operand⟩ := r
      · exact .inr (.inl ⟨term, edge, rfl, fun _ => rfl⟩)
      · exact .inr (.inl ⟨operand, edge, rfl, fun _ => rfl⟩)

/-- A network answers a question about a term by a query of the composer. -/
theorem Network.answer_tight {net : Network V R M} {c : ComposerId} {t : Tight V R M}
    (ht : net.composer? c = some (.tight t)) {r : Request} (hr : r.composer = c)
    (hplain : r.operand = none) (depth : Nat) :
    net.answer (depth + 1) r = (Composer.tight t).query (net.answer depth) r := by
  subst hr
  rw [Network.answer, ht]
  simp only [Composer.respond, hplain]

end JointAnalysis
