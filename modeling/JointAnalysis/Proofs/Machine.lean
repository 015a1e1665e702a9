import JointAnalysis.Proofs.Walk
import Mathlib.Logic.Relation

/-!
# A tight composer as a machine

The desk of a composer does not show which of its queries are under way and how they are nested. A
`Moment` does: it is a world together with a stack of the composer's unfinished business. `Move`
lists everything that can happen between two moments, each case with the conditions under which the
composer lets it happen. `Network.answer_returns` connects the two: whatever a network does when it
is asked is a sequence of moves, and if the question is answered, the stack is what it was. Facts
about every run of a composer then follow from what a single move preserves, by
`Network.session_invariant`.
-/

namespace JointAnalysis

variable {V R M β γ : Type}

/-- The composer that an event is about. -/
def Event.composer : Event V R → ComposerId
  | .requested r => r.composer
  | .dispatched c _ => c
  | .asked _ _ q => q.composer
  | .answered _ q _ => q.composer
  | .returned r _ => r.composer
  | .cleared c => c

/-- The cache of a composer is cleared. -/
def Event.clears (c : ComposerId) : Event V R → Bool
  | .cleared d => d = c
  | _ => false

/-- Only events about a composer clear its cache. -/
theorem Event.clears_eq_false {c : ComposerId} {e : Event V R} (he : e.composer ≠ c) :
    e.clears c = false := by
  cases e <;> simp_all [clears, Event.composer]

/-- A plan never clears the cache of a composer. -/
def Plan.Spares (c : ComposerId) : Plan V R M β → Prop
  | .give _ => True
  | .fail _ => True
  | .ask _ next => ∀ answer, (next answer).Spares c
  | .recollect next => ∀ memory, (next memory).Spares c
  | .remember _ next => next.Spares c
  | .inspect _ _ next => ∀ state size, (next state size).Spares c
  | .clear d next => d ≠ c ∧ next.Spares c

/-- The analyses that a composer may consult. -/
def Composer.analyses : Composer V R M → List (Analysis V R M)
  | .chain x => x.members.map (·.analysis)
  | .tight x => x.members.map (·.analysis)
  | .relay x => [x.analysis]

/-- No analysis of a network clears the cache of a composer. -/
def Network.Spares (net : Network V R M) (c : ComposerId) : Prop :=
  ∀ composer ∈ net.composers, ∀ a ∈ composer.analyses, ∀ family q, (a.answer family q).Spares c

/-- An analysis that knows constants or echoes. -/
inductive Analysis.Elementary : Analysis ValueLeaf RegionLeaf M → Prop where
  | constant (name : String) (direction : Direction) (values : TermId → Option Int64)
    (tally : M → M) : Elementary (.constant name direction values tally)
  | echo (name : String) (redirect : TermId → Option TermId) (tally : M → M) :
    Elementary (.echo name redirect tally)

/-- Constants and echoes clear no cache. -/
theorem Analysis.Elementary.spares {a : Analysis ValueLeaf RegionLeaf M} (h : a.Elementary)
    (c : ComposerId) (family : Family) (q : Inquiry) : (a.answer family q).Spares c := by
  cases h with
  | constant => cases family <;> trivial
  | echo =>
      cases family with
      | value => exact fun _ => trivial
      | codeLoc | memRegion | memLoc => trivial

/-- A network of constants and echoes spares the caches of all its composers. -/
theorem Network.spares_of_elementary {net : Network ValueLeaf RegionLeaf M}
    (h : ∀ composer ∈ net.composers, ∀ a ∈ composer.analyses, a.Elementary) (c : ComposerId) :
    net.Spares c :=
  fun composer hcomposer a ha => (h composer hcomposer a ha).spares c

/-- The analyses in the circle know a constant or echo. -/
theorem Circle.elementary : ∀ m ∈ Circle.composer.members, m.analysis.Elementary := by
  intro m hm
  simp only [Circle.composer, List.mem_cons, List.not_mem_nil, or_false] at hm
  obtain rfl | rfl | rfl := hm <;> dsimp only
  · exact .echo _ _ _
  · exact .echo _ _ _
  · exact .constant _ _ _ _

/-- Something that a tight composer has begun and not ended. -/
inductive Frame (V R M : Type) where
  /-- A query that is being answered. -/
  | query (request : Request)
  /-- A resolution in which these members are still to be asked. -/
  | dispatch (request : Request) (rest : List (Member V R M))
  /-- A resolution whose query is finished. -/
  | settled (request : Request)
  /-- A member that has been asked and has not answered. -/
  | member (member : Member V R M) (request : Request)

/-- A world and the stack of what a tight composer is doing in it, the latest first. -/
structure Moment (V R M : Type) where
  world : World V R M
  stack : List (Frame V R M)

/-- Whether others have their turn: the composer waits for a member or for its parent, or has
nothing to do. -/
def Idle : List (Frame V R M) → Prop
  | .query _ :: _ => False
  | .settled _ :: _ => False
  | _ => True

open Lookup Tight

/-- What can happen next, as far as the tight composer `t` with the identity `c` is concerned. -/
inductive Move (net : Network V R M) (c : ComposerId) (t : Tight V R M) :
    Moment V R M → Moment V R M → Prop where
  /-- Something happens that is not about the composer. -/
  | elsewhere {w w' s} (idle : Idle s) (desk : w'.desk c = w.desk c)
      (trail : w'.trail = w.trail ∨ ∃ e : Event V R, e.composer ≠ c ∧ w'.trail = e :: w.trail) :
      Move net c t ⟨w, s⟩ ⟨w', s⟩
  /-- An analysis clears the cache of the composer. -/
  | wipe {w s} (idle : Idle s) (allowed : ¬ net.Spares c) : Move net c t ⟨w, s⟩ ⟨w.clear c, s⟩
  /-- The composer is asked. -/
  | request {w s} (r : Request) (idle : Idle s) (here : r.composer = c) :
      Move net c t ⟨w, s⟩ ⟨begun (w.note (.requested r)) c, .query r :: s⟩
  /-- A resolution is started. -/
  | dispatch {w s r} (here : r.composer = c) (free : Open w r) (uncut : ¬ t.Cut w r) :
      Move net c t ⟨w, .query r :: s⟩ ⟨started w r, .dispatch r t.members :: .query r :: s⟩
  /-- A member that does not handle the family is passed over. -/
  | skip {w s r m rest} (deaf : m.analysis.handles r.family = false) :
      Move net c t ⟨w, .dispatch r (m :: rest) :: s⟩ ⟨w, .dispatch r rest :: s⟩
  /-- A member is asked. -/
  | consult {w s r m rest cache} (here : r.composer = c) (free : Open w r)
      (hears : m.analysis.handles r.family = true)
      (marked : (w.cache c).mark r.key m.id = .ok cache) :
      Move net c t ⟨w, .dispatch r (m :: rest) :: s⟩
        ⟨(w.putCache c cache).note (.asked m.analysis.name r.family (inquiry r m)),
          .member m r :: .dispatch r rest :: s⟩
  /-- A member answers. -/
  | answer {w s m r} (here : r.composer = c) (o : Object V R r.family) :
      Move net c t ⟨w, .member m r :: s⟩
        ⟨w.note (.answered m.analysis.name (inquiry r m) ⟨r.family, o⟩), s⟩
  /-- The answers are kept. -/
  | keep {w s r answers cache} (here : r.composer = c) (free : Open w r)
      (finished : (w.cache c).finish r.key ⟨r.family, .combined .intersect answers⟩ = .ok cache) :
      Move net c t ⟨w, .dispatch r [] :: s⟩ ⟨w.putCache c cache, .settled r :: s⟩
  /-- The query was finished meanwhile. -/
  | withdraw {w s r rest answers} (found : Settled w r answers) :
      Move net c t ⟨w, .dispatch r rest :: s⟩ ⟨w, .settled r :: s⟩
  /-- A resolution is ended. -/
  | leave {w s r answers} (here : r.composer = c) (found : Settled w r answers) :
      Move net c t ⟨w, .settled r :: s⟩ ⟨ended w r, s⟩
  /-- The composer answers: with what it keeps, or with the full object if the request is cut
  off. -/
  | giveBack {w s r} (here : r.composer = c) (o : Object V R r.family)
      (reason : (∃ answers, Settled w r answers ∧ o = .combined .intersect answers) ∨
        (Open w r ∧ t.Cut w r ∧ o = .full)) :
      Move net c t ⟨w, .query r :: s⟩ ⟨(t.concluded w c).note (.returned r ⟨r.family, o⟩), s⟩

/-- Whether a computation can have halted here: a request is left without answer only if the answer
that is kept for it is corrupt. -/
def Halted : Moment V R M → Prop
  | ⟨w, .query r :: _⟩ => Corrupt w r
  | _ => True

/-- Where others have their turn, a computation can halt. -/
theorem Idle.halted {s : List (Frame V R M)} (hidle : Idle s) (w : World V R M) :
    Halted ⟨w, s⟩ := by
  cases s with
  | nil => trivial
  | cons frame rest => cases frame <;> trivial

/-- Where a computation ends: if it has a result, then `post` holds of it, of the world and of the
stack. -/
def Moment.Concludes (post : β → World V R M → List (Frame V R M) → Prop) :
    Except Halt β → Moment V R M → Prop
  | .ok b, p => post b p.world p.stack
  | .error _, p => Halted p

section Following

variable (net : Network V R M) (c : ComposerId) (t : Tight V R M)

/-- A computation that starts at a moment makes moves only, and ends as `post` says. -/
def Run.Follows (x : Run V R M β) (w : World V R M) (s : List (Frame V R M))
    (post : β → World V R M → List (Frame V R M) → Prop) : Prop :=
  ∃ s', Relation.ReflTransGen (Move net c t) ⟨w, s⟩ ⟨(x.outcome w).2, s'⟩ ∧
    Moment.Concludes post (x.outcome w).1 ⟨(x.outcome w).2, s'⟩

/-- A computation makes moves only, and leaves the stack as it was. -/
def Run.Returns (x : Run V R M β) (s : List (Frame V R M)) : Prop :=
  ∀ w, x.Follows net c t w s fun _ _ s' => s' = s

/-- Moves lead from a moment to this world with this stack. -/
def Moment.Leads (p : Moment V R M) (s : List (Frame V R M)) (w : World V R M) : Prop :=
  Relation.ReflTransGen (Move net c t) p ⟨w, s⟩

/-- Moves lead from a moment to a world in which a computation can halt. -/
def Moment.Stops (p : Moment V R M) (_ : Halt) (w : World V R M) : Prop :=
  ∃ s, p.Leads net c t s w ∧ Halted ⟨w, s⟩

variable {net c t} {w : World V R M} {s : List (Frame V R M)}

/-- What is not about the composer leaves the stack as it is. -/
theorem Moment.Leads.elsewhere {p : Moment V R M} (h : p.Leads net c t s w) (hidle : Idle s)
    {w' : World V R M} (hdesk : w'.desk c = w.desk c)
    (htrail : w'.trail = w.trail ∨ ∃ e : Event V R, e.composer ≠ c ∧ w'.trail = e :: w.trail) :
    p.Leads net c t s w' :=
  .tail h (.elsewhere hidle hdesk htrail)

/-- Noting an event about another composer leaves the stack as it is. -/
theorem Moment.Leads.note {p : Moment V R M} (h : p.Leads net c t s w) (hidle : Idle s)
    {e : Event V R} (he : e.composer ≠ c) : p.Leads net c t s (w.note e) :=
  h.elsewhere hidle rfl (.inr ⟨e, he, rfl⟩)

namespace Run

variable {x : Run V R M β} {post : β → World V R M → List (Frame V R M) → Prop}

/-- A computation follows moves if they lead to its end. -/
theorem Follows.of_ends (h : x.Ends (Moment.Stops net c t ⟨w, s⟩) w fun b w' =>
    ∃ s', Moment.Leads net c t ⟨w, s⟩ s' w' ∧ post b w' s') : x.Follows net c t w s post := by
  unfold Follows
  rcases hx : x.outcome w with ⟨halt | b, w'⟩
  · exact h.error hx
  · exact h.ok hx

/-- What every move preserves holds where a computation ends. -/
theorem Follows.invariant (hx : x.Follows net c t w s post)
    {inv : Moment V R M → Prop} (hmove : ∀ a b, Move net c t a b → inv a → inv b)
    (hinv : inv ⟨w, s⟩) :
    ∃ s', inv ⟨(x.outcome w).2, s'⟩ ∧
      Moment.Concludes post (x.outcome w).1 ⟨(x.outcome w).2, s'⟩ := by
  have hreach : ∀ b, Relation.ReflTransGen (Move net c t) ⟨w, s⟩ b → inv b := by
    intro b hmoves
    induction hmoves with
    | refl => exact hinv
    | tail _ hlast ih => exact hmove _ _ hlast ih
  obtain ⟨s', hmoves, hpost⟩ := hx
  exact ⟨s', hreach _ hmoves, hpost⟩

/-- A computation leaves the stack as it was, whatever led to it before. -/
theorem returns_iff : x.Returns net c t s ↔ ∀ (p : Moment V R M) w, p.Leads net c t s w →
    x.Ends (p.Stops net c t) w fun _ => p.Leads net c t s := by
  constructor
  · intro h p w hp
    obtain ⟨s', hmoves, hend⟩ := h w
    rcases hx : x.outcome w with ⟨halt | b, w'⟩
    · rw [hx] at hmoves hend
      exact .of_error hx ⟨s', hp.trans hmoves, hend⟩
    · rw [hx] at hmoves hend
      obtain rfl : s' = s := hend
      exact .of_ok hx (hp.trans hmoves)
  · intro h w
    exact .of_ends ((h ⟨w, s⟩ w .refl).imp fun _ _ hmoves => ⟨s, hmoves, rfl⟩)

end Run

end Following

section Elsewhere

variable {net : Network V R M} {c : ComposerId} {t : Tight V R M} {ask : Answerer V R M}
  {s : List (Frame V R M)} (hidle : Idle s) (hask : ∀ r, (ask r).Returns net c t s)
  (p : Moment V R M) {w : World V R M}

include hidle hask

/-- Carrying out a plan leaves the stack as it was. -/
theorem Plan.idle_guides : Plan.Guides (.any ask) (p.Stops net c t)
    (fun (q : Plan V R M β) w => p.Leads net c t s w ∧ (net.Spares c → q.Spares c))
    fun _ => p.Leads net c t s where
  give _ _ h := h.1
  fail _ w h := ⟨s, h.1, hidle.halted w⟩
  ask r _ w h := ⟨trivial, (Run.returns_iff.1 (hask r) p w h.1).imp fun answer _ hmoves =>
    ⟨hmoves, fun hspares => h.2 hspares answer⟩⟩
  recollect _ _ h := ⟨h.1, fun hspares => h.2 hspares _⟩
  remember _ _ _ h := ⟨h.1.elsewhere hidle rfl (.inl rfl), h.2⟩
  inspect _ _ _ _ h := ⟨h.1, fun hspares => h.2 hspares _ _⟩
  clear d _ w h := by
    refine ⟨?_, fun hspares => (h.2 hspares).2⟩
    by_cases hd : d = c
    · subst hd
      exact .tail h.1 (.wipe hidle fun hspares => (h.2 hspares).1 rfl)
    · exact h.1.elsewhere hidle (World.putCache_desk_of_ne _ _ (Ne.symm hd))
        (.inr ⟨.cleared d, hd, rfl⟩)

/-- Consulting an analysis for another composer leaves the stack as it was. -/
theorem Analysis.consult_elsewhere {a : Analysis V R M} {family : Family} {q : Inquiry}
    (hq : q.composer ≠ c) (ha : net.Spares c → (a.answer family q).Spares c)
    (hw : p.Leads net c t s w) :
    (Trait.any ask).Meets (p.Stops net c t) (fun ask => a.consult ask family q) w
      fun _ => p.Leads net c t s :=
  .consult (Plan.idle_guides hidle hask p) ⟨hw.note hidle hq, ha⟩ fun _ _ hw' => hw'.note hidle hq

/-- A resolution of another composer leaves the stack as it was. -/
theorem Tight.elsewhere_resolves {x : Tight V R M} {r : Request} (hr : r.composer ≠ c)
    (hmembers : net.Spares c → ∀ m ∈ x.members, ∀ family q, (m.analysis.answer family q).Spares c) :
    Stages.Resolves (r := r) ⟨p.Leads net c t s, fun _ _ => p.Leads net c t s,
      fun _ => p.Leads net c t s, fun _ => p.Leads net c t s, fun _ => p.Leads net c t s⟩
      (.any ask) (p.Stops net c t) x where
  found w h := ⟨fun _ _ => h, fun _ => ⟨s, h, hidle.halted w⟩⟩
  cut _ h _ _ := h
  start _ h _ _ := h.elsewhere hidle (World.putCache_desk_of_ne _ _ (Ne.symm hr))
    (.inr ⟨.dispatched r.composer r.key, hr, rfl⟩)
  skip _ _ _ _ _ h := h
  meanwhile _ _ _ w h := ⟨fun _ _ => h, fun _ => ⟨s, h, hidle.halted w⟩⟩
  consult m hm _ _ _ w h _ := by
    cases hmark : (w.cache r.composer).mark r.key m.id with
    | error fault => exact ⟨s, h, hidle.halted w⟩
    | ok cache =>
        exact Analysis.consult_elsewhere hidle hask p hr (fun hspares => hmembers hspares m hm _ _)
          (h.elsewhere hidle (World.putCache_desk_of_ne _ _ (Ne.symm hr)) (.inl rfl))
  orphan _ _ _ h := h
  inherit _ _ _ w h := ⟨trivial, Run.returns_iff.1 (hask _) p w h⟩
  kept _ w h := ⟨fun _ _ => h, fun _ => ⟨s, h, hidle.halted w⟩⟩
  keep children w h _ := by
    cases hfinish : (w.cache r.composer).finish r.key
        ⟨r.family, .combined .intersect children⟩ with
    | error fault => exact ⟨s, h, hidle.halted w⟩
    | ok cache => exact h.elsewhere hidle (World.putCache_desk_of_ne _ _ (Ne.symm hr)) (.inl rfl)
  leave _ _ h := h.elsewhere hidle (World.putCache_desk_of_ne _ _ (Ne.symm hr)) (.inl rfl)

omit hask in
/-- Ending a query of another composer leaves the stack as it was. -/
theorem Moment.Leads.concluded {p : Moment V R M} (h : p.Leads net c t s w) (x : Tight V R M)
    {d : ComposerId} (hd : d ≠ c) : p.Leads net c t s (x.concluded w d) := by
  have hcounted : p.Leads net c t s (w.putDepth d (w.depth d - 1)) :=
    h.elsewhere hidle (World.putDepth_desk_of_ne _ _ (Ne.symm hd)) (.inl rfl)
  rcases x.concluded_cases w d with heq | ⟨_, heq⟩
  · rw [heq]
    exact hcounted
  · rw [heq]
    exact hcounted.elsewhere hidle (World.putCache_desk_of_ne _ _ (Ne.symm hd))
      (.inr ⟨.cleared d, hd, rfl⟩)

end Elsewhere

section Here

variable {net : Network V R M} {c : ComposerId} {t : Tight V R M} {ask : Answerer V R M}
  {r : Request}

/-- A query that is settled stays so when a resolution of it is ended. -/
theorem Lookup.Settled.ended {w : World V R M} {answers : List (Object V R r.family)}
    (h : Settled w r answers) : Settled (Tight.ended w r) r answers := by
  unfold Settled Tight.ended
  rw [World.putCache_cache, if_pos rfl, QueryCache.finished?_leave]
  exact h

/-- Where a query of the composer stands on the stack. A resolution ends with a settled query, and
the query is answered with what is kept, or cut off. -/
def Tight.stackStages (net : Network V R M) (t : Tight V R M) (p : Moment V R M) (r : Request)
    (s : List (Frame V R M)) : Stages V R M r where
  begun := p.Leads net r.composer t (.query r :: s)
  asking rest _ := p.Leads net r.composer t (.dispatch r rest :: .query r :: s)
  gathered _ := p.Leads net r.composer t (.dispatch r [] :: .query r :: s)
  resolved o w := p.Leads net r.composer t (.settled r :: .query r :: s) w ∧
    ∃ kept, Settled w r kept ∧ o = .combined .intersect kept
  answered o w := p.Leads net r.composer t (.query r :: s) w ∧
    ((∃ kept, Settled w r kept ∧ o = .combined .intersect kept) ∨
      (Open w r ∧ t.Cut w r ∧ o = .full))

/-- Each stage of a query of the composer is reached by a move. -/
theorem Tight.stack_resolves (hask : ∀ s, Idle s → ∀ q, (ask q).Returns net r.composer t s)
    (hmembers : net.Spares r.composer → ∀ m ∈ t.members, ∀ family q,
      (m.analysis.answer family q).Spares r.composer)
    (p : Moment V R M) (s : List (Frame V R M)) :
    (stackStages net t p r s).Resolves (.any ask) (p.Stops net r.composer t) t where
  found _ h := ⟨fun kept hsettled => ⟨h, .inl ⟨kept, hsettled, rfl⟩⟩,
    fun hcorrupt => ⟨_, h, hcorrupt⟩⟩
  cut _ h hopen hcut := ⟨h, .inr ⟨hopen, hcut, rfl⟩⟩
  start _ h hopen huncut := .tail h (.dispatch rfl hopen huncut)
  skip _ _ _ _ hm h := .tail h (.skip hm)
  meanwhile _ _ _ _ h := ⟨fun kept hsettled => ⟨.tail h (.withdraw hsettled), kept, hsettled, rfl⟩,
    fun _ => ⟨_, h, trivial⟩⟩
  consult m hm hears rest _ w h hopen := by
    cases hmark : (w.cache r.composer).mark r.key m.id with
    | error fault => exact ⟨_, h, trivial⟩
    | ok cache =>
        -- whatever the member asks comes up on top of its own frame
        have hguides := Plan.idle_guides (β := Object V R r.family)
          (s := .member m r :: .dispatch r rest :: .query r :: s) trivial (hask _ trivial) p
        exact .consult hguides ⟨.tail h (.consult rfl hopen hears hmark),
          fun hspares => hmembers hspares m hm _ _⟩ fun o _ hw' => .tail hw' (.answer rfl o)
  orphan _ _ _ h := h
  inherit _ _ _ w h :=
    ⟨trivial, Run.returns_iff.1 (hask (.dispatch r [] :: .query r :: s) trivial _) p w h⟩
  -- the parent may ask back before it answers, so that the query has to be looked up again
  kept _ _ h := ⟨fun kept hsettled => ⟨.tail h (.withdraw hsettled), kept, hsettled, rfl⟩,
    fun _ => ⟨_, h, trivial⟩⟩
  keep children w h hopen := by
    cases hfinish : (w.cache r.composer).finish r.key
        ⟨r.family, .combined .intersect children⟩ with
    | error fault => exact ⟨_, h, trivial⟩
    | ok cache =>
        refine ⟨.tail h (.keep rfl hopen hfinish), children, ?_, rfl⟩
        unfold Settled
        rw [World.putCache_cache, if_pos rfl, QueryCache.finished?_finish hfinish, if_pos rfl]
  leave _ _ h := by
    obtain ⟨hmoves, kept, hsettled, rfl⟩ := h
    exact ⟨.tail hmoves (.leave rfl hsettled), .inl ⟨kept, hsettled.ended, rfl⟩⟩

variable (hask : ∀ s, Idle s → ∀ q, (ask q).Returns net c t s) (hr : r.composer = c)
  (hmembers : net.Spares c → ∀ m ∈ t.members, ∀ family q, (m.analysis.answer family q).Spares c)

include hask hr hmembers

/-- A request is resolved into the answer of a settled query, or cut off. -/
theorem Tight.resolve_follows (w : World V R M) (s : List (Frame V R M)) :
    (t.resolve ask r).Follows net c t w (.query r :: s) fun answer w' s' => s' = .query r :: s ∧
      ((∃ kept, Settled w' r kept ∧ answer = .combined .intersect kept) ∨
        (Open w' r ∧ t.Cut w' r ∧ answer = .full)) := by
  subst hr
  have hresolve := (stack_resolves hask hmembers ⟨w, .query r :: s⟩ s).meets_resolve .refl
  exact .of_ends (hresolve.2.imp fun _ _ h => ⟨_, h.1, rfl, h.2⟩)

/-- A query of the composer leaves the stack as it was. -/
theorem Tight.query_returns {s : List (Frame V R M)} (hidle : Idle s) :
    ((Composer.tight t).query ask r).Returns net c t s := by
  subst hr
  refine Run.returns_iff.2 fun p w hw => ?_
  have hfind : (Trait.any ask).Meets (p.Stops net r.composer t)
      (fun ask => (Composer.tight t).find ask r) (w.note (.requested r)) fun o w' =>
        ∃ w₁, (stackStages net t p r s).answered o w₁ ∧ w' = t.concluded w₁ r.composer :=
    (stack_resolves hask hmembers p s).meets_query (.tail hw (.request r hidle rfl))
      fun o w₁ h => ⟨w₁, h, rfl⟩
  refine (Trait.Meets.query hfind fun o w' h => ?_).2
  obtain ⟨w₁, ⟨hmoves, hreason⟩, rfl⟩ := h
  exact .tail hmoves (.giveBack rfl o hreason)

end Here

section Network

variable {net : Network V R M} {c : ComposerId} {t : Tight V R M}

/-- In a network that spares a composer, the analyses of each composer do. -/
theorem Network.Spares.analysis {d : ComposerId} {composer : Composer V R M}
    (hd : net.composer? d = some composer) (hspares : net.Spares c) {a : Analysis V R M}
    (ha : a ∈ composer.analyses) (family : Family) (q : Inquiry) :
    (a.answer family q).Spares c :=
  hspares composer (List.mem_of_getElem? hd) a ha family q

variable {ask : Answerer V R M} (hask : ∀ s, Idle s → ∀ r, (ask r).Returns net c t s)

include hask

/-- A query of a composer other than the one in view leaves the stack as it was. -/
theorem Composer.query_elsewhere {composer : Composer V R M} {r : Request} (hr : r.composer ≠ c)
    (hcomposer : net.composer? r.composer = some composer) {s : List (Frame V R M)}
    (hidle : Idle s) : (composer.query ask r).Returns net c t s := by
  have hspares : ∀ a ∈ composer.analyses, ∀ family q, net.Spares c →
      (a.answer family q).Spares c := fun a ha family q h => h.analysis hcomposer ha family q
  refine Run.returns_iff.2 fun p w hw => ?_
  have hnoted : p.Leads net c t s (w.note (.requested r)) := hw.note hidle hr
  have hfind : (Trait.any ask).Meets (p.Stops net c t) (fun ask => composer.find ask r)
      (w.note (.requested r)) fun _ => p.Leads net c t s := by
    cases composer with
    | chain x =>
        refine .chain (fun _ => hnoted) fun m hm => ?_
        exact Analysis.consult_elsewhere hidle (hask s hidle) p hr
          (hspares _ (List.mem_map_of_mem (Chain.speaker?_eq_some hm).1) _ _) hnoted
    | tight x =>
        have hbegun : p.Leads net c t s (begun (w.note (.requested r)) r.composer) :=
          hnoted.elsewhere hidle (World.putDepth_desk_of_ne _ _ (Ne.symm hr)) (.inl rfl)
        exact (Tight.elsewhere_resolves hidle (hask s hidle) p hr fun h m hm family q =>
          hspares _ (List.mem_map_of_mem hm) family q h).meets_query hbegun
          fun _ _ hw' => hw'.concluded hidle x hr
    | relay x =>
        exact Analysis.consult_elsewhere hidle (hask s hidle) p hr
          (hspares _ List.mem_cons_self _ _) hnoted
  exact (Trait.Meets.query hfind fun _ _ hw' => hw'.note hidle hr).2

variable (ht : net.composer? c = some (.tight t))

include ht

/-- A query of any composer leaves the stack as it was. -/
theorem Composer.query_returns {composer : Composer V R M} {r : Request}
    (hcomposer : net.composer? r.composer = some composer) {s : List (Frame V R M)}
    (hidle : Idle s) : (composer.query ask r).Returns net c t s := by
  by_cases hr : r.composer = c
  · rw [hr, ht] at hcomposer
    cases hcomposer
    exact Tight.query_returns hask hr
      (fun h m hm => h.analysis ht (List.mem_map_of_mem hm)) hidle
  · exact Composer.query_elsewhere hask hr hcomposer hidle

/-- A question to any composer leaves the stack as it was. -/
theorem Composer.respond_returns {composer : Composer V R M} {r : Request}
    (hcomposer : net.composer? r.composer = some composer) {s : List (Frame V R M)}
    (hidle : Idle s) : (composer.respond ask r).Returns net c t s := by
  refine Run.returns_iff.2 fun p w hw => ?_
  have hrespond : (Trait.any ask).Meets (p.Stops net c t) (fun ask => composer.respond ask r) w
      fun _ => p.Leads net c t s :=
    .respond (fun term edge _ w hw => ⟨trivial, Run.returns_iff.1 (Composer.query_returns hask ht
      (r := r.about term edge) hcomposer hidle) p w hw⟩) hw
  exact hrespond.2

omit hask in
/-- Whatever a network does when it is asked is a sequence of moves, and if there is an answer, the
stack is what it was. -/
theorem Network.answer_returns (depth : Nat) (r : Request) {s : List (Frame V R M)}
    (hidle : Idle s) : (net.answer depth r).Returns net c t s := by
  -- the stack is left open, since nested questions come up on top of what is there already
  induction depth generalizing r s with
  | zero => exact Run.returns_iff.2 fun p w hw => .of_error rfl ⟨s, hw, hidle.halted w⟩
  | succ depth ih =>
      rw [Network.answer]
      split
      · exact Run.returns_iff.2 fun p w hw => .of_ok rfl hw
      · next composer hcomposer =>
          exact Composer.respond_returns (fun s hs r => ih r hs) ht hcomposer hidle

omit hask in
/-- What moves preserve, and the client too who clears the cache of a composer with nothing to do,
holds at the end of every session. Nothing is left to do then if the session was not cut short. -/
theorem Network.session_invariant {inv : Moment V R M → Prop}
    (hmove : ∀ a b, Move net c t a b → inv a → inv b)
    (hclear : ∀ w, inv ⟨w, []⟩ → inv ⟨w.clear c, []⟩) (depth : Nat) (steps : List (Step M))
    (w : World V R M) (hw : inv ⟨w, []⟩) :
    ∃ s, inv ⟨((net.session depth steps).outcome w).2, s⟩ ∧
      Moment.Concludes (fun _ _ s => s = []) ((net.session depth steps).outcome w).1
        ⟨((net.session depth steps).outcome w).2, s⟩ := by
  have hsession : (net.session depth steps).Ends (fun _ w' => ∃ s, inv ⟨w', s⟩ ∧ Halted ⟨w', s⟩) w
      fun _ w' => inv ⟨w', []⟩ := by
    refine net.session_ends (fun r _ w hw => ?_) (fun d _ w hw => ?_) (fun update _ w hw => ?_) hw
    · obtain ⟨s, hinv, hend⟩ :=
        (Network.answer_returns ht depth r (s := []) trivial w).invariant hmove hw
      rcases hx : (net.answer depth r).outcome w with ⟨halt | o, w'⟩
      · rw [hx] at hinv hend
        exact .of_error hx ⟨s, hinv, hend⟩
      · rw [hx] at hinv hend
        obtain rfl : s = [] := hend
        exact .of_ok hx hinv
    · by_cases hd : d = c
      · subst hd
        exact hclear w hw
      · exact hmove _ _ (.elsewhere trivial (World.putCache_desk_of_ne _ _ (Ne.symm hd))
          (.inr ⟨.cleared d, hd, rfl⟩)) hw
    · exact hmove ⟨w, []⟩ _ (.elsewhere trivial rfl (.inl rfl)) hw
  rcases hx : (net.session depth steps).outcome w with ⟨halt | _, w'⟩
  · exact hsession.error hx
  · exact ⟨[], hsession.ok hx, rfl⟩

end Network

end JointAnalysis
