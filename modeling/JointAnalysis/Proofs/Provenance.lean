import JointAnalysis.Proofs.Machine
import JointAnalysis.Proofs.Walk
import Mathlib.Data.List.Forall2

/-!
# Where answers come from

Every answer of a composer can be traced back on the trail. What a tight composer keeps for a query
was put together from one answer of the parent and one of each member that handles the family, in
the order of the members; and what a member answered is what its plan comes to with the answers that
it was told. `World.Accounted` says this of everything that is kept and was given, at any moment and
whichever way a session ends. A composer therefore never finds a corrupt answer, nor a query that it
cannot hand over or finish: a fault is always an analysis's own. `Tight.keeps_what_it_gathered` is
the result.
-/

namespace JointAnalysis

open Lookup Tight

variable {V R M β γ : Type}

/-- A family is known by the kind of its queries. -/
theorem Family.kind_injective {f g : Family} (h : f.kind = g.kind) : f = g := by
  cases f <;> cases g <;> first | rfl | cases h

namespace Plan

/-- A plan may end with this fault. -/
def MayFail (fault : Fault) : Plan V R M β → Prop
  | .give _ => False
  | .fail f => f = fault
  | .ask _ next => ∃ answer, (next answer).MayFail fault
  | .recollect next => ∃ memory, (next memory).MayFail fault
  | .remember _ next => next.MayFail fault
  | .inspect _ _ next => ∃ state size, (next state size).MayFail fault
  | .clear _ next => next.MayFail fault

/-- A plan comes to this result when it is told such answers. -/
def Yields (told : (r : Request) → Object V R r.family → Prop) : Plan V R M β → β → Prop
  | .give result, b => b = result
  | .fail _, _ => False
  | .ask r next, b => ∃ answer, told r answer ∧ (next answer).Yields told b
  | .recollect next, b => ∃ memory, (next memory).Yields told b
  | .remember _ next, b => next.Yields told b
  | .inspect _ _ next, b => ∃ state size, (next state size).Yields told b
  | .clear _ next, b => next.Yields told b

/-- A plan that is told more comes to all results to which it came before. -/
theorem Yields.mono {told told' : (r : Request) → Object V R r.family → Prop}
    (h : ∀ r o, told r o → told' r o) {p : Plan V R M β} {b : β} (hp : p.Yields told b) :
    p.Yields told' b := by
  induction p with
  | give result => exact hp
  | fail fault => exact hp
  | ask r next ih =>
      obtain ⟨answer, htold, hnext⟩ := hp
      exact ⟨answer, h r answer htold, ih answer hnext⟩
  | recollect next ih =>
      obtain ⟨memory, hnext⟩ := hp
      exact ⟨memory, ih memory hnext⟩
  | remember update next ih => exact ih hp
  | inspect c key next ih =>
      obtain ⟨state, size, hnext⟩ := hp
      exact ⟨state, size, ih state size hnext⟩
  | clear c next ih => exact ih hp

end Plan

/-- A composer may ask this analysis about this family. Only a relay asks for what is not
handled. -/
def Composer.Consults (family : Family) (a : Analysis V R M) : Composer V R M → Prop
  | .chain x => a.handles family = true ∧ ∃ m ∈ x.members, m.analysis = a
  | .tight x => a.handles family = true ∧ ∃ m ∈ x.members, m.analysis = a
  | .relay x => x.analysis = a

/-- Some analysis of a network may end with this fault when a composer asks it. -/
def Network.Blames (net : Network V R M) (fault : Fault) : Prop :=
  ∃ composer ∈ net.composers, ∃ family a, composer.Consults family a ∧
    ∃ q, (a.answer family q).MayFail fault

section Trails

variable (net : Network V R M) (trail : List (Event V R))

/-- A question about a term was answered with this object. A composer that does not exist leaves
nothing on the trail. -/
def Network.Told (r : Request) (answer : Object V R r.family) : Prop :=
  r.operand = none → (net.composer? r.composer).isSome = true →
    .returned r ⟨r.family, answer⟩ ∈ trail

/-- A member of the composer `c` gave this answer, and its plan comes to it with what was
answered. -/
def Member.Gave (c : ComposerId) {family : Family} (term : TermId) (edge : EdgeId)
    (m : Member V R M) (answer : Object V R family) : Prop :=
  .answered m.analysis.name ⟨term, edge, c, m.id⟩ ⟨family, answer⟩ ∈ trail ∧
    (m.analysis.answer family ⟨term, edge, c, m.id⟩).Yields (net.Told trail) answer

/-- What the parent of a tight composer answered: one object, if there is a parent. -/
def Tight.Inherited (t : Tight V R M) {family : Family} (term : TermId) (edge : EdgeId)
    (above : List (Object V R family)) : Prop :=
  match t.parent with
  | none => above = []
  | some p => ∃ answer, above = [answer] ∧ net.Told trail ⟨p, family, term, edge, t.id, none⟩ answer

/-- These are the answer of the parent, if there is one, and then the answers of all members that
handle the family, one of each, in the order of the members. -/
def Tight.Gathered (c : ComposerId) (t : Tight V R M) {family : Family} (term : TermId)
    (edge : EdgeId) (children : List (Object V R family)) : Prop :=
  ∃ above answers, children = above ++ answers ∧ t.Inherited net trail term edge above ∧
    List.Forall₂ (Member.Gave net trail c term edge)
      (t.members.filter (·.analysis.handles family)) answers

/-- The entry of a query, if it is finished, holds an intersection of the family of the query, and
its children were gathered. -/
def Tight.KeepsGathered (c : ComposerId) (t : Tight V R M) (k : QueryKey)
    (e : CacheEntry (AnyObject V R)) : Prop :=
  e.state = .finished → ∃ family children, family.kind = k.kind ∧
    e.answer = some ⟨family, .combined .intersect children⟩ ∧
    t.Gathered net trail c k.term k.edge children

/-- A composer may give this answer: a chain that of the member who speaks for it, a tight composer
what it gathered or the full object, and a relay that of its analysis. -/
def Composer.Justifies (r : Request) (answer : Object V R r.family) : Composer V R M → Prop
  | .chain x =>
    match x.speaker? r.family r.client with
    | none => answer = .full
    | some m => m.Gave net trail r.composer r.term r.edge answer
  | .tight t =>
    answer = .full ∨ ∃ children, answer = .combined .intersect children ∧
      t.Gathered net trail r.composer r.term r.edge children
  | .relay x =>
    (x.analysis.answer r.family ⟨r.term, r.edge, r.composer, r.client⟩).Yields (net.Told trail)
      answer

end Trails

section Growth

variable {net : Network V R M} {past trail : List (Event V R)} (h : past <:+ trail)

include h

/-- What was told stays so. -/
theorem Network.Told.mono {r : Request} {o : Object V R r.family} (ho : net.Told past r o) :
    net.Told trail r o :=
  fun hplain hsome => h.subset (ho hplain hsome)

/-- What a member gave stays so. -/
theorem Member.Gave.mono {c : ComposerId} {family : Family} {term : TermId} {edge : EdgeId}
    {m : Member V R M} {o : Object V R family} (ho : m.Gave net past c term edge o) :
    m.Gave net trail c term edge o :=
  ⟨h.subset ho.1, ho.2.mono fun _ _ => Network.Told.mono h⟩

/-- What was gathered stays so. -/
theorem Tight.Gathered.mono {c : ComposerId} {t : Tight V R M} {family : Family} {term : TermId}
    {edge : EdgeId} {children : List (Object V R family)}
    (hchildren : t.Gathered net past c term edge children) :
    t.Gathered net trail c term edge children := by
  obtain ⟨above, answers, rfl, habove, hanswers⟩ := hchildren
  refine ⟨above, answers, rfl, ?_, hanswers.imp fun _ _ => Member.Gave.mono h⟩
  unfold Tight.Inherited at habove ⊢
  cases hp : t.parent with
  | none => simpa only [hp] using habove
  | some p =>
      simp only [hp] at habove ⊢
      obtain ⟨answer, rfl, htold⟩ := habove
      exact ⟨answer, rfl, htold.mono h⟩

end Growth

/-- Everything that is kept and everything that was given is accounted for by what happened
before. -/
structure World.Accounted (net : Network V R M) (w : World V R M) : Prop where
  kept : ∀ c t, net.composer? c = some (.tight t) → ∀ k e, (w.cache c).get? k = some e →
    t.KeepsGathered net w.trail c k e
  given : ∀ r o past, (.returned r o :: past) <:+ w.trail → ∃ composer answer,
    net.composer? r.composer = some composer ∧ o = ⟨r.family, answer⟩ ∧
      composer.Justifies net past r answer

namespace World.Accounted

variable {net : Network V R M} {w : World V R M}

/-- A world in which nothing happened is accounted for. -/
theorem initial (memory : M) : (World.initial memory : World V R M).Accounted net where
  kept c t ht k e he := by cases he
  given r o past h := by cases List.suffix_nil.1 h

/-- More on the trail keeps the entries accounted for. -/
theorem kept_cons (h : w.Accounted net) (event : Event V R) {c : ComposerId} {t : Tight V R M}
    (ht : net.composer? c = some (.tight t)) {k : QueryKey} {e : CacheEntry (AnyObject V R)}
    (he : (w.cache c).get? k = some e) : t.KeepsGathered net (event :: w.trail) c k e := by
  intro hstate
  obtain ⟨family, children, hkind, hanswer, hgathered⟩ := h.kept c t ht k e he hstate
  exact ⟨family, children, hkind, hanswer, hgathered.mono (List.suffix_cons event w.trail)⟩

/-- Noting what is no answer of a composer keeps a world accounted for. -/
theorem note (h : w.Accounted net) {event : Event V R} (hevent : ∀ r o, event ≠ .returned r o) :
    (w.note event).Accounted net where
  kept c t ht k e he := h.kept_cons event ht he
  given r o past hsuffix := by
    rcases List.suffix_cons_iff.1 hsuffix with heq | hsuffix
    · exact absurd (List.cons.inj heq).1.symm (hevent r o)
    · exact h.given r o past hsuffix

/-- Noting an answer that a composer may give keeps a world accounted for. -/
theorem note_returned (h : w.Accounted net) {r : Request} {composer : Composer V R M}
    (hcomposer : net.composer? r.composer = some composer) {answer : Object V R r.family}
    (hanswer : composer.Justifies net w.trail r answer) :
    (w.note (.returned r ⟨r.family, answer⟩)).Accounted net where
  kept c t ht k e he := h.kept_cons _ ht he
  given r' o past hsuffix := by
    rcases List.suffix_cons_iff.1 hsuffix with heq | hsuffix
    · cases heq
      exact ⟨composer, answer, hcomposer, rfl, hanswer⟩
    · exact h.given r' o past hsuffix

/-- A new cache keeps a world accounted for if its entries are. -/
theorem put_cache (h : w.Accounted net) (d : ComposerId) (cache : QueryCache (AnyObject V R))
    (hcache : ∀ t, net.composer? d = some (.tight t) → ∀ k e, cache.get? k = some e →
      t.KeepsGathered net w.trail d k e) :
    (w.putCache d cache).Accounted net where
  kept c t ht k e he := by
    rw [World.putCache_cache] at he
    split at he
    · next heq =>
        subst heq
        exact hcache t ht k e he
    · exact h.kept c t ht k e he
  given := h.given

/-- A cache whose entries have the states and answers of the ones before keeps a world accounted
for. -/
theorem put_same (h : w.Accounted net) (d : ComposerId) {cache : QueryCache (AnyObject V R)}
    (hcache : ∀ k e, cache.get? k = some e → e.state = .finished →
      ∃ e', (w.cache d).get? k = some e' ∧ e'.state = .finished ∧ e'.answer = e.answer) :
    (w.putCache d cache).Accounted net := by
  refine h.put_cache d cache fun t ht k e he hstate => ?_
  obtain ⟨e', he', hstate', hanswer⟩ := hcache k e he hstate
  rw [← hanswer]
  exact h.kept d t ht k e' he' hstate'

/-- Clearing a cache keeps a world accounted for. -/
theorem clear (h : w.Accounted net) (d : ComposerId) : (w.clear d).Accounted net := by
  have hempty : (w.putCache d .empty).Accounted net := h.put_same d (by simp)
  exact hempty.note (by simp)

/-- Counting queries keeps a world accounted for. -/
theorem put_depth (h : w.Accounted net) (d : ComposerId) (depth : Nat) :
    (w.putDepth d depth).Accounted net where
  kept c t ht k e he := by
    rw [World.putDepth_cache] at he
    exact h.kept c t ht k e he
  given := h.given

/-- What analyses remember is no matter of account. -/
theorem put_memory (h : w.Accounted net) (memory : M) : { w with memory }.Accounted net :=
  ⟨h.kept, h.given⟩

/-- Starting a resolution keeps a world accounted for. -/
theorem started (h : w.Accounted net) (r : Request) : (Tight.started w r).Accounted net := by
  unfold Tight.started
  refine (h.put_same r.composer fun k e he hstate => ?_).note (by simp)
  rw [QueryCache.get?_enter] at he
  split at he
  · next hk =>
      subst hk
      cases he
      -- a query that was not met before starts in the initial state
      cases hold : (w.cache r.composer).get? r.key with
      | none => simp [QueryCache.entryOrFresh, hold, CacheEntry.fresh] at hstate
      | some e' =>
          simp only [QueryCache.entryOrFresh, hold, Option.getD_some] at hstate ⊢
          exact ⟨e', rfl, hstate, rfl⟩
  · exact ⟨e, he, hstate, rfl⟩

/-- Ending a resolution keeps a world accounted for. -/
theorem ended (h : w.Accounted net) (r : Request) : (Tight.ended w r).Accounted net := by
  unfold Tight.ended
  refine h.put_same r.composer fun k e he hstate => ?_
  rw [QueryCache.get?_leave] at he
  split at he
  · next hk =>
      subst hk
      obtain ⟨e', he', rfl⟩ := Option.map_eq_some_iff.1 he
      exact ⟨e', he', hstate, rfl⟩
  · exact ⟨e, he, hstate, rfl⟩

/-- Ending a query keeps a world accounted for. -/
theorem concluded (h : w.Accounted net) (t : Tight V R M) (c : ComposerId) :
    (t.concluded w c).Accounted net := by
  unfold Tight.concluded
  split
  · exact (h.put_depth c _).clear c
  · exact h.put_depth c _

section Finding

variable {r : Request} {t : Tight V R M} (h : w.Accounted net)
  (ht : net.composer? r.composer = some (.tight t))

include h ht

/-- What is kept for a finished query was gathered. -/
theorem kept_gathered : Sealed w r (t.Gathered net w.trail r.composer r.term r.edge) := by
  intro e he hstate
  obtain ⟨family, children, hkind, hanswer, hgathered⟩ := h.kept _ t ht _ e he hstate
  obtain rfl : family = r.family := Family.kind_injective hkind
  exact ⟨children, hanswer, hgathered⟩

/-- An open query can be handed to a member, which keeps the world accounted for. -/
theorem mark (hopen : Open w r) (m : AnalysisId) :
    ∃ cache, (w.cache r.composer).mark r.key m = .ok cache ∧
      (w.putCache r.composer cache).Accounted net := by
  cases hmark : (w.cache r.composer).mark r.key m with
  | error fault => simp [QueryCache.mark, (h.kept_gathered ht).unfinished hopen] at hmark
  | ok cache =>
      refine ⟨cache, rfl, h.put_same _ fun k e he hstate => ?_⟩
      rw [(QueryCache.mark_eq_ok hmark).2] at he
      split at he
      · cases he
        cases hstate
      · exact ⟨e, he, hstate, rfl⟩

/-- Gathered answers to an open query can be kept, which keeps the world accounted for. -/
theorem finish (hopen : Open w r) {children : List (Object V R r.family)}
    (hgathered : t.Gathered net w.trail r.composer r.term r.edge children) :
    ∃ cache, (w.cache r.composer).finish r.key ⟨r.family, .combined .intersect children⟩ =
      .ok cache ∧ (w.putCache r.composer cache).Accounted net := by
  cases hfinish : (w.cache r.composer).finish r.key
      ⟨r.family, .combined .intersect children⟩ with
  | error fault => simp [QueryCache.finish, (h.kept_gathered ht).unfinished hopen] at hfinish
  | ok cache =>
      refine ⟨cache, rfl, h.put_cache _ _ fun t' ht' k e he hstate => ?_⟩
      rw [(QueryCache.finish_eq_ok hfinish).2] at he
      split at he
      · next hk =>
          subst hk
          cases he
          rw [ht] at ht'
          cases ht'
          exact ⟨r.family, children, rfl, rfl, hgathered⟩
      · exact h.kept _ t' ht' k e he hstate

end Finding

end World.Accounted

/-- The world is accounted for, and at least `past` happened. -/
structure World.Since (net : Network V R M) (past : List (Event V R)) (w : World V R M) : Prop where
  accounted : w.Accounted net
  growth : past <:+ w.trail

namespace World.Since

variable {net : Network V R M} {past : List (Event V R)} {w w' : World V R M}

/-- What happened before an event happened since. -/
theorem trans (h : w.Since net past) (h' : w'.Since net w.trail) : w'.Since net past :=
  ⟨h'.accounted, h.growth.trans h'.growth⟩

/-- Noting what is no answer of a composer keeps a world accounted for. -/
theorem note (h : w.Since net past) {event : Event V R} (hevent : ∀ r o, event ≠ .returned r o) :
    (w.note event).Since net past :=
  ⟨h.accounted.note hevent, h.growth.trans (List.suffix_cons _ _)⟩

/-- Clearing a cache keeps a world accounted for. -/
theorem clear (h : w.Since net past) (c : ComposerId) : (w.clear c).Since net past :=
  ⟨h.accounted.clear c, h.growth.trans (List.suffix_cons _ _)⟩

end World.Since

/-- A computation is halted at a moment that is accounted for, and a fault is one with which an
analysis may end. -/
structure Network.Excuses (net : Network V R M) (past : List (Event V R)) (halt : Halt)
    (w : World V R M) : Prop where
  since : w.Since net past
  blames : ∀ fault, halt = .fault fault → net.Blames fault

/-- What is excused later is excused. -/
theorem Network.Excuses.since_trans {net : Network V R M} {past : List (Event V R)} {halt : Halt}
    {w w' : World V R M} (hw : w.Since net past) (h : net.Excuses w.trail halt w') :
    net.Excuses past halt w' :=
  ⟨hw.trans h.since, h.blames⟩

/-- Started in a world that is accounted for, a computation adds to the trail, leaves a world that
is accounted for, and ends as `post` says of the trail and the result. -/
def Run.Accounts (net : Network V R M) (post : List (Event V R) → β → Prop) (x : Run V R M β) :
    Prop :=
  ∀ w, w.Accounted net →
    x.Ends (net.Excuses w.trail) w fun b w' => w'.Since net w.trail ∧ post w'.trail b

namespace Run.Accounts

variable {net : Network V R M} {post : List (Event V R) → β → Prop} {x : Run V R M β}
  {w : World V R M} (h : x.Accounts net post)

include h

/-- What happened before the computation started is still there when it ends. -/
theorem since {past : List (Event V R)} (hw : w.Since net past) :
    x.Ends (net.Excuses past) w fun b w' => w'.Since net past ∧ post w'.trail b :=
  (h w hw.accounted).mono (fun _ _ hb => ⟨hw.trans hb.1, hb.2⟩)
    fun _ _ hhalt => .since_trans hw hhalt

/-- Whichever way the computation ends, the world is accounted for. -/
theorem accounted (hw : w.Accounted net) : (x.outcome w).2.Accounted net := by
  rcases hx : x.outcome w with ⟨halt | b, w'⟩
  · exact ((h w hw).error hx).since.accounted
  · exact ((h w hw).ok hx).1.accounted

end Run.Accounts

/-- This is left of a plan: it may only end with faults of an analysis, and what it comes to with
the answers that it is told, the whole plan comes to. -/
structure Plan.Traced (net : Network V R M) (past : List (Event V R)) (whole rest : Plan V R M β)
    (w : World V R M) : Prop where
  since : w.Since net past
  faults : ∀ fault, rest.MayFail fault → net.Blames fault
  yields : ∀ trail b, w.trail <:+ trail → rest.Yields (net.Told trail) b →
    whole.Yields (net.Told trail) b

section Walk

variable {net : Network V R M} {ask : Answerer V R M}
  (hask : ∀ r, (ask r).Accounts net fun trail o => net.Told trail r o)

include hask

/-- Carrying out a plan is accounted for by the answers that it is told. -/
theorem Plan.traced_guides (past : List (Event V R)) (p : Plan V R M β) :
    Plan.Guides (.any ask) (net.Excuses past) (p.Traced net past)
      fun b w => w.Since net past ∧ p.Yields (net.Told w.trail) b where
  give b w h := ⟨h.since, h.yields w.trail b List.suffix_rfl rfl⟩
  fail fault w h := by
    refine ⟨h.since, fun _ hfault => ?_⟩
    cases hfault
    exact h.faults fault rfl
  ask r next w h := by
    refine ⟨trivial, (hask r w h.since.accounted).mono (fun answer w' ho => ?_)
      fun _ _ hhalt => .since_trans h.since hhalt⟩
    refine ⟨h.since.trans ho.1, fun fault hfault => h.faults fault ⟨answer, hfault⟩, ?_⟩
    intro trail b hlater hb
    exact h.yields trail b (ho.1.growth.trans hlater) ⟨answer, ho.2.mono hlater, hb⟩
  recollect _ w h := ⟨h.since, fun fault hfault => h.faults fault ⟨w.memory, hfault⟩,
    fun trail b hlater hb => h.yields trail b hlater ⟨w.memory, hb⟩⟩
  remember _ _ _ h := ⟨⟨h.since.accounted.put_memory _, h.since.growth⟩, h.faults, h.yields⟩
  inspect _ _ _ _ h := ⟨h.since, fun fault hfault => h.faults fault ⟨_, _, hfault⟩,
    fun trail b hlater hb => h.yields trail b hlater ⟨_, _, hb⟩⟩
  clear c _ _ h := ⟨h.since.clear c, h.faults,
    fun trail b hlater => h.yields trail b ((List.suffix_cons _ _).trans hlater)⟩

/-- Consulting an analysis is accounted for: it answers, and its plan comes to the answer. -/
theorem Analysis.consult_accounts {a : Analysis V R M} {family : Family} {q : Inquiry}
    (ha : ∀ fault, (a.answer family q).MayFail fault → net.Blames fault)
    {past : List (Event V R)} {w : World V R M} (hw : w.Since net past) :
    (Trait.any ask).Meets (net.Excuses past) (fun ask => a.consult ask family q) w fun o w' =>
      w'.Since net past ∧ .answered a.name q ⟨family, o⟩ ∈ w'.trail ∧
        (a.answer family q).Yields (net.Told w'.trail) o := by
  refine .consult (Plan.traced_guides hask past _)
    ⟨hw.note (by simp), ha, fun _ _ _ hb => hb⟩ fun o w' ho => ?_
  refine ⟨ho.1.note (by simp), List.mem_cons_self, ho.2.mono fun _ _ => ?_⟩
  exact Network.Told.mono (List.suffix_cons _ _)

namespace Tight

/-- The answers to a query were gathered, those that are there and the one that is given. -/
def accountedStages (net : Network V R M) (past : List (Event V R)) (t : Tight V R M)
    (r : Request) : Stages V R M r where
  begun w := w.Since net past
  asking rest answers w := w.Since net past ∧ ∃ asked,
    asked ++ rest.filter (·.analysis.handles r.family) =
      t.members.filter (·.analysis.handles r.family) ∧
    List.Forall₂ (Member.Gave net w.trail r.composer r.term r.edge) asked answers
  gathered children w := w.Since net past ∧ t.Gathered net w.trail r.composer r.term r.edge children
  resolved o w := w.Since net past ∧ ∃ kept, o = .combined .intersect kept ∧
    t.Gathered net w.trail r.composer r.term r.edge kept
  answered o w := w.Since net past ∧ (Composer.tight t).Justifies net w.trail r o

/-- A resolution is accounted for: it is answered with what was gathered, or cut off. -/
theorem accounted_resolves {t : Tight V R M} {r : Request}
    (ht : net.composer? r.composer = some (.tight t))
    (hfaults : ∀ m ∈ t.members, m.analysis.handles r.family = true → ∀ fault,
      (m.analysis.answer r.family (inquiry r m)).MayFail fault → net.Blames fault)
    (past : List (Event V R)) :
    (accountedStages net past t r).Resolves (.any ask) (net.Excuses past) t where
  found w h := .of_sealed (h.accounted.kept_gathered ht) fun kept _ hkept =>
    ⟨h, .inr ⟨kept, rfl, hkept⟩⟩
  cut w h _ _ := ⟨h, .inl rfl⟩
  start w h _ _ := ⟨⟨h.accounted.started r, h.growth.trans (List.suffix_cons _ _)⟩, [], rfl, .nil⟩
  skip m rest answers w hm h := by
    obtain ⟨hsince, asked, hsplit, hanswers⟩ := h
    rw [List.filter_cons_of_neg (by simp [hm])] at hsplit
    exact ⟨hsince, asked, hsplit, hanswers⟩
  meanwhile m rest answers w h := .of_sealed (h.1.accounted.kept_gathered ht)
    fun kept _ hkept => ⟨h.1, kept, rfl, hkept⟩
  consult m hm hears rest answers w h hopen := by
    obtain ⟨hsince, asked, hsplit, hanswers⟩ := h
    rw [List.filter_cons_of_pos (by simp [hears]), List.append_cons] at hsplit
    obtain ⟨cache, hmark, hmarked⟩ := hsince.accounted.mark ht hopen m.id
    have hconsult := Analysis.consult_accounts hask (hfaults m hm hears)
      (⟨hmarked, List.suffix_rfl⟩ : (w.putCache r.composer cache).Since net w.trail)
    rw [hmark]
    refine hconsult.mono (fun answer w' ho => ?_) fun _ _ hhalt => .since_trans hsince hhalt
    -- the answer goes to the end of the list, as the member does
    refine ⟨hsince.trans ho.1, asked ++ [m], hsplit, List.rel_append ?_ (.cons ho.2 .nil)⟩
    exact hanswers.imp fun _ _ => Member.Gave.mono ho.1.growth
  orphan hp answers w h := by
    obtain ⟨hsince, asked, hsplit, hanswers⟩ := h
    rw [List.filter_nil, List.append_nil] at hsplit
    subst hsplit
    exact ⟨hsince, [], answers, rfl, by simp [Inherited, hp], hanswers⟩
  inherit p hp answers w h := by
    obtain ⟨hsince, asked, hsplit, hanswers⟩ := h
    rw [List.filter_nil, List.append_nil] at hsplit
    subst hsplit
    refine ⟨trivial, (hask _ w hsince.accounted).mono (fun answer w' ho => ?_)
      fun _ _ hhalt => .since_trans hsince hhalt⟩
    refine ⟨hsince.trans ho.1, [answer], answers, rfl, ?_, ?_⟩
    · simp only [Inherited, hp]
      exact ⟨answer, rfl, ho.2⟩
    · exact hanswers.imp fun _ _ => Member.Gave.mono ho.1.growth
  kept children w h := .of_sealed (h.1.accounted.kept_gathered ht)
    fun kept _ hkept => ⟨h.1, kept, rfl, hkept⟩
  keep children w h hopen := by
    obtain ⟨cache, hfinish, haccounted⟩ := h.1.accounted.finish ht hopen h.2
    rw [hfinish]
    exact ⟨⟨haccounted, h.1.growth⟩, children, rfl, h.2⟩
  leave o w h := ⟨⟨h.1.accounted.ended r, h.1.growth⟩, .inr h.2⟩

end Tight

/-- A query of a composer is accounted for, and its answer is on the trail. -/
theorem Composer.query_accounts {composer : Composer V R M} {r : Request}
    (hcomposer : net.composer? r.composer = some composer) {past : List (Event V R)}
    {w : World V R M} (hw : w.Since net past) :
    (Trait.any ask).Meets (net.Excuses past) (fun ask => composer.query ask r) w fun o w' =>
      w'.Since net past ∧ .returned r ⟨r.family, o⟩ ∈ w'.trail := by
  have hfaults : ∀ a, composer.Consults r.family a → ∀ q fault,
      (a.answer r.family q).MayFail fault → net.Blames fault := by
    intro a ha q fault h
    exact ⟨composer, List.mem_of_getElem? hcomposer, r.family, a, ha, q, h⟩
  have hnoted : (w.note (.requested r)).Since net past := hw.note (by simp)
  have hfind : (Trait.any ask).Meets (net.Excuses past) (fun ask => composer.find ask r)
      (w.note (.requested r)) fun o w' =>
        w'.Since net past ∧ composer.Justifies net w'.trail r o := by
    cases composer with
    | chain x =>
        refine .chain (fun hs => ⟨hnoted, ?_⟩) fun m hs => ?_
        · simp only [Composer.Justifies, hs]
        · obtain ⟨hm, hears⟩ := Chain.speaker?_eq_some hs
          refine (Analysis.consult_accounts hask (hfaults _ ⟨hears, m, hm, rfl⟩ _) hnoted).imp
            fun o w' ho => ⟨ho.1, ?_⟩
          simp only [Composer.Justifies, hs]
          exact ho.2
    | tight t =>
        refine (Tight.accounted_resolves hask hcomposer
          (fun m hm hears => hfaults _ ⟨hears, m, hm, rfl⟩ _) past).meets_query
          ⟨hnoted.accounted.put_depth _ _, hnoted.growth⟩ fun o w' ho => ?_
        have hlater := t.trail_concluded w' r.composer
        refine ⟨⟨ho.1.accounted.concluded t r.composer, ho.1.growth.trans hlater⟩, ?_⟩
        exact ho.2.imp_right fun ⟨kept, hkept, hgathered⟩ => ⟨kept, hkept, hgathered.mono hlater⟩
    | relay x =>
        exact (Analysis.consult_accounts hask (hfaults _ rfl _) hnoted).imp
          fun _ _ ho => ⟨ho.1, ho.2.2⟩
  refine .query hfind fun o w' ho => ?_
  exact ⟨⟨ho.1.accounted.note_returned hcomposer ho.2, ho.1.growth.trans (List.suffix_cons _ _)⟩,
    List.mem_cons_self⟩

/-- Whatever a composer is asked is accounted for. -/
theorem Composer.respond_accounts {composer : Composer V R M} {r : Request}
    (hcomposer : net.composer? r.composer = some composer) :
    (composer.respond ask r).Accounts net fun trail o => net.Told trail r o := by
  intro w hw
  have hstart : w.Since net w.trail := ⟨hw, List.suffix_rfl⟩
  by_cases ho : r.operand = none
  · rw [Composer.respond, ho]
    exact (Composer.query_accounts hask hcomposer hstart).2.imp fun _ _ h => ⟨h.1, fun _ _ => h.2⟩
  · have hrespond : (Trait.any ask).Meets (net.Excuses w.trail) (fun ask => composer.respond ask r)
        w fun _ w' => w'.Since net w.trail :=
      .respond (fun term edge _ w hw => (Composer.query_accounts hask (r := r.about term edge)
        hcomposer hw).imp fun _ _ h => h.1) hstart
    exact hrespond.2.imp fun _ _ h => ⟨h, fun hplain => absurd hplain ho⟩

end Walk

/-- Whatever a network is asked is accounted for. -/
theorem Network.answer_accounts (net : Network V R M) (depth : Nat) (r : Request) :
    (net.answer depth r).Accounts net fun trail o => net.Told trail r o := by
  induction depth generalizing r with
  | zero => exact fun w hw => ⟨⟨hw, List.suffix_rfl⟩, fun _ hfault => nomatch hfault⟩
  | succ depth ih =>
      rw [Network.answer]
      cases hcomposer : net.composer? r.composer with
      | none =>
          refine fun w hw => ⟨⟨hw, List.suffix_rfl⟩, fun _ hsome => ?_⟩
          simp [hcomposer] at hsome
      | some composer => exact Composer.respond_accounts ih hcomposer

/-- A session is accounted for. -/
theorem Network.session_accounts (net : Network V R M) (depth : Nat) (steps : List (Step M)) :
    (net.session depth steps).Accounts net fun _ _ => True := by
  intro w hw
  have hsession : (net.session depth steps).Ends (net.Excuses w.trail) w
      fun _ w' => w'.Since net w.trail :=
    net.session_ends
      (fun r _ _ h => ((net.answer_accounts depth r).since h).imp fun _ _ ho => ho.1)
      (fun c _ _ h => h.clear c)
      (fun _ _ _ h => ⟨h.accounted.put_memory _, h.growth⟩) ⟨hw, List.suffix_rfl⟩
  exact hsession.imp fun _ _ h => ⟨h, trivial⟩

/-- The world after a session is accounted for. -/
theorem Network.after_accounted (net : Network V R M) (depth : Nat) (steps : List (Step M))
    (memory : M) : (net.after depth steps memory).Accounted net :=
  (net.session_accounts depth steps).accounted (.initial memory)

/-- Whatever its members do, every entry of a tight composer that is finished holds an intersection
of the family of its query: the answer of the parent, if there is one, and then the answers of all
members that handle the family, one of each, in the order of the members. And a session that ends
with a fault ends with one that an analysis may raise itself when a composer asks it: no composer
finds a corrupt answer or takes a finished query back. -/
theorem Tight.keeps_what_it_gathered {net : Network V R M} {c : ComposerId} {t : Tight V R M}
    (ht : net.composer? c = some (.tight t)) (depth : Nat) (steps : List (Step M)) (memory : M) :
    (∀ k e, ((net.after depth steps memory).cache c).get? k = some e → e.state = .finished →
      ∃ family children, family.kind = k.kind ∧
        e.answer = some ⟨family, .combined .intersect children⟩ ∧
        t.Gathered net (net.after depth steps memory).trail c k.term k.edge children) ∧
    ∀ fault, ((net.session depth steps).outcome (.initial memory)).1 = .error (.fault fault) →
      net.Blames fault := by
  refine ⟨(net.after_accounted depth steps memory).kept c t ht, fun fault hfault => ?_⟩
  exact ((net.session_accounts depth steps _ (.initial memory)).error (Prod.ext hfault rfl)).blames
    fault rfl

namespace Restless

/-- Clears the cache of the composer that asks, about the first term also after it has asked for the
second one. -/
def clearing : Analysis ValueLeaf RegionLeaf Unit where
  name := "clearing"
  direction := .forward
  handles family := family = .value
  answer family q :=
    if q.term = ⟨0⟩ then
      .clear q.composer <| .ask (q.request family ⟨1⟩) fun answer =>
        .clear q.composer (.give answer)
    else .clear q.composer (.give .full)

/-- A composer with a parent that loses its cache while it asks its members. -/
def composer : Tight ValueLeaf RegionLeaf Unit where
  id := ⟨4⟩
  direction := .forward
  members := [
    ⟨⟨1⟩, clearing⟩,
    ⟨⟨2⟩, .regions "heap" fun _ => none⟩,
    ⟨⟨3⟩, .constant "five" .forward (fun _ => some 5) id⟩]
  parent := some ⟨0⟩
  config := {}
  system := none
  program := none

/-- The parent. -/
def above : Chain ValueLeaf RegionLeaf Unit where
  id := ⟨5⟩
  direction := .forward
  members := [⟨⟨0⟩, .constant "seven" .forward (fun _ => some 7) id⟩]
  system := none
  program := none

/-- The network of the two. -/
def network : Network ValueLeaf RegionLeaf Unit := ⟨[.chain above, .tight composer], 6⟩

/-- A question from outside, about the first term. -/
def question : Request where
  composer := ⟨1⟩
  family := .value
  term := ⟨0⟩
  edge := ⟨0⟩
  client := network.outsider

/-- The composer that loses its cache finishes the query with what it gathered. -/
theorem keeps_answer :
    ∃ e, ((network.after 9 [.ask question] ()).cache ⟨1⟩).get? question.key = some e ∧
      e.state = .finished ∧ ∃ family children, family.kind = .value ∧
        e.answer = some ⟨family, .combined .intersect children⟩ ∧
        composer.Gathered network (network.after 9 [.ask question] ()).trail ⟨1⟩ ⟨0⟩ ⟨0⟩
          children := by
  have hstate : ((network.after 9 [.ask question] ()).cache ⟨1⟩).state? question.key =
      some .finished := by decide +kernel
  obtain ⟨e, he, hfinished⟩ := Option.map_eq_some_iff.1 hstate
  exact ⟨e, he, hfinished,
    (Tight.keeps_what_it_gathered (t := composer) rfl 9 [.ask question] ()).1 _ e he hfinished⟩

end Restless

end JointAnalysis
