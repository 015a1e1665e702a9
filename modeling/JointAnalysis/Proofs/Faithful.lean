import JointAnalysis.Proofs.Meaning

/-!
# Caches that agree with the reference

In a faithful world every finished entry of a grounded query holds what the reference says, and a
composer that is resolving a grounded query is counted as answering. `Network.Keeps` says how a
computation that answers grounded questions leaves such a world: it is faithful again, no composer
has more or fewer queries to answer, and the entries of queries that are not grounded or that are
being resolved are as they were.
-/

namespace JointAnalysis

open Lookup Tight

variable {V R M α : Type}

/-- The query of this entry is being resolved. -/
def CacheEntry.Busy (e : CacheEntry α) : Prop := e.active ≠ 0 ∨ ∃ m, e.state = .inAnalysis m

/-- A composer is resolving a query. -/
def World.Busy (w : World V R M) (c : ComposerId) (k : QueryKey) : Prop :=
  ∃ e, (w.cache c).get? k = some e ∧ e.Busy

/-- A query with the same entry is busy in both worlds or in none. -/
theorem World.busy_congr {w w' : World V R M} {c : ComposerId} {k : QueryKey}
    (h : (w'.cache c).get? k = (w.cache c).get? k) : w'.Busy c k ↔ w.Busy c k := by
  unfold World.Busy
  rw [h]

/-- A query that is not busy has no resolutions under way. -/
theorem World.active_of_idle {w : World V R M} {c : ComposerId} {k : QueryKey}
    (h : ¬ w.Busy c k) : (w.cache c).active k = 0 := by
  by_contra hne
  rw [QueryCache.active_eq] at hne
  cases he : (w.cache c).get? k with
  | none => simp [he] at hne
  | some e => exact h ⟨e, he, .inl (by simpa [he] using hne)⟩

/-- A request about a query that is not busy is not cut off. -/
theorem Tight.not_cut_of_idle {w : World V R M} {t : Tight V R M} {r : Request}
    (h : ¬ w.Busy r.composer r.key) : ¬ t.Cut w r := by
  rintro (hcycle | hbound)
  · obtain ⟨e, he, hstate⟩ := Option.map_eq_some_iff.1 (QueryCache.isCycle_iff.1 hcycle)
    exact h ⟨e, he, .inr ⟨_, hstate⟩⟩
  · rw [World.active_of_idle h] at hbound
    exact Nat.not_lt_zero _ hbound

/-- The place of the query about which a request asks. -/
def Request.At (r : Request) (c : ComposerId) (k : QueryKey) : Prop := c = r.composer ∧ k = r.key

/-- A world that differs from another one only in the entry of a query, and in what no composer
sees. -/
structure World.Edit (r : Request) (w w' : World V R M) : Prop where
  depth : ∀ c, w'.depth c = w.depth c
  entry : ∀ c k, ¬ r.At c k → (w'.cache c).get? k = (w.cache c).get? k

/-- A new cache in which only the entry of the query is different. -/
theorem World.Edit.of_cache {r : Request} {w : World V R M} {cache : QueryCache (AnyObject V R)}
    (h : ∀ k, k ≠ r.key → cache.get? k = (w.cache r.composer).get? k) :
    World.Edit r w (w.putCache r.composer cache) where
  depth c := by simp
  entry c k hk := by
    rw [World.putCache_cache]
    split
    · next hc =>
        subst hc
        exact h k fun heq => hk ⟨rfl, heq⟩
    · rfl

section Edits

variable (w : World V R M) (r : Request)

/-- Starting a resolution changes the entry of its query. -/
theorem World.Edit.started : World.Edit r w (Tight.started w r) := by
  have hcache : World.Edit r w (w.putCache r.composer ((w.cache r.composer).enter r.key).2) :=
    .of_cache fun k hk => by rw [QueryCache.get?_enter, if_neg hk]
  exact ⟨hcache.depth, hcache.entry⟩

/-- Ending a resolution changes the entry of its query. -/
theorem World.Edit.ended : World.Edit r w (Tight.ended w r) :=
  .of_cache fun k hk => by rw [QueryCache.get?_leave, if_neg hk]

variable {w r} {cache : QueryCache (AnyObject V R)}

/-- Handing a query to a member changes its entry. -/
theorem World.Edit.mark {m : AnalysisId} (h : (w.cache r.composer).mark r.key m = .ok cache) :
    World.Edit r w (w.putCache r.composer cache) :=
  .of_cache fun k hk => by rw [(QueryCache.mark_eq_ok h).2, if_neg hk]

/-- Keeping the answer to a query changes its entry. -/
theorem World.Edit.finish {answer : AnyObject V R}
    (h : (w.cache r.composer).finish r.key answer = .ok cache) :
    World.Edit r w (w.putCache r.composer cache) :=
  .of_cache fun k hk => by rw [(QueryCache.finish_eq_ok h).2, if_neg hk]

end Edits

namespace Network

variable (net : Network V R M)

/-- Questions about this query are grounded. -/
def Covers (c : ComposerId) (k : QueryKey) : Prop :=
  ∃ r, net.Grounded r ∧ r.operand = none ∧ r.At c k

/-- What is kept for grounded queries is what the reference says, and a composer that is resolving a
grounded query is counted as answering. -/
structure Faithful (w : World V R M) : Prop where
  kept : ∀ r t, net.Grounded r → r.operand = none → net.composer? r.composer = some (.tight t) →
    ∀ e, (w.cache r.composer).get? r.key = some e → e.state = .finished →
      ∃ o, e.answer = some ⟨r.family, o⟩ ∧ net.reference r = .ok o
  attended : ∀ c k, net.Covers c k → w.Busy c k → 1 ≤ w.depth c

/-- No query that a question may lead to is being resolved. -/
def Quiet (w : World V R M) (r : Request) : Prop :=
  ∀ q, Relation.ReflTransGen (net.Raises .cut) r q → q.operand = none →
    ¬ w.Busy q.composer q.key

/-- How grounded questions leave a faithful world, but for the entries at some places. -/
structure Keeps (exempt : ComposerId → QueryKey → Prop) (w w' : World V R M) : Prop where
  faithful : net.Faithful w'
  depth : ∀ c, w'.depth c = w.depth c
  entry : ∀ c k, ¬ exempt c k → 1 ≤ w.depth c → (net.Covers c k → w.Busy c k) →
    (w'.cache c).get? k = (w.cache c).get? k
  calm : ∀ c k, ¬ exempt c k → net.Covers c k → w'.Busy c k → w.Busy c k

end Network

namespace Network

variable {net : Network V R M} {w w' w'' : World V R M} {r : Request}

/-- A grounded question about a term asks for a query of which this is known. -/
theorem Grounded.covers (h : net.Grounded r) (ho : r.operand = none) :
    net.Covers r.composer r.key := ⟨r, h, ho, rfl, rfl⟩

/-- Questions about a query of a tight composer are grounded together. -/
theorem Covers.grounded {t : Tight V R M} (ht : net.composer? r.composer = some (.tight t))
    (ho : r.operand = none) (h : net.Covers r.composer r.key) : net.Grounded r := by
  obtain ⟨q, hq, hplain, hc, hkey⟩ := h
  rw [Request.eq_of_key hc hkey hplain ho]
  exact hq.client (hc ▸ ht) hplain r.client

/-- A world in which nothing happened is faithful. -/
theorem Faithful.initial (memory : M) : net.Faithful (.initial memory) where
  kept r t _ _ _ e he := by cases he
  attended c k _ hbusy := by
    obtain ⟨e, he, _⟩ := hbusy
    cases he

section Finding

variable {t : Tight V R M} (h : net.Faithful w) (hr : net.Grounded r) (ho : r.operand = none)
  (ht : net.composer? r.composer = some (.tight t))

include h hr ho ht

/-- What is kept for a finished query is an intersection, and the reference says it. -/
theorem Faithful.kept_reference :
    Sealed w r fun children => net.reference r = .ok (.combined .intersect children) := by
  intro e he hstate
  obtain ⟨o, hanswer, hreference⟩ := h.kept r t hr ho ht e he hstate
  have hmeaning := hreference
  rw [hr.reference_eq, meaning, ht] at hmeaning
  simp only [Composer.meaning, ho] at hmeaning
  obtain ⟨children, rfl⟩ := Tight.meaning_eq_ok hmeaning
  exact ⟨children, hanswer, hreference⟩

end Finding

/-- Changing the entry of one query keeps a world faithful if the entry is. -/
theorem Faithful.edit {t : Tight V R M} (h : net.Faithful w) (ho : r.operand = none)
    (ht : net.composer? r.composer = some (.tight t)) (hedit : World.Edit r w w')
    (hentry : net.Grounded r → ∀ e, (w'.cache r.composer).get? r.key = some e →
      (e.state = .finished → ∃ o, e.answer = some ⟨r.family, o⟩ ∧ net.reference r = .ok o) ∧
      (e.Busy → 1 ≤ w.depth r.composer)) :
    net.Faithful w' where
  kept q t' hq hplain ht' e he hstate := by
    by_cases hat : r.At q.composer q.key
    · obtain ⟨hc, hkey⟩ := hat
      have heq := Request.eq_of_key hc hkey ho hplain
      generalize q.client = asker at heq
      subst heq
      have hr : net.Grounded r := Covers.grounded ht ho ⟨_, hq, hplain, rfl, rfl⟩
      rw [hr.reference_client ht ho asker]
      exact (hentry hr e he).1 hstate
    · rw [hedit.entry _ _ hat] at he
      exact h.kept q t' hq hplain ht' e he hstate
  attended c k hcovers hbusy := by
    rw [hedit.depth]
    by_cases hat : r.At c k
    · obtain ⟨rfl, rfl⟩ := hat
      obtain ⟨e, he, hbusy⟩ := hbusy
      exact (hentry (hcovers.grounded ht ho) e he).2 hbusy
    · exact h.attended c k hcovers ((World.busy_congr (hedit.entry c k hat)).1 hbusy)

namespace Keeps

variable {exempt : ComposerId → QueryKey → Prop}

/-- Nothing changes where nothing happens. -/
theorem refl (h : net.Faithful w) : net.Keeps exempt w w :=
  ⟨h, fun _ => rfl, fun _ _ _ _ _ => rfl, fun _ _ _ _ hbusy => hbusy⟩

/-- Two computations after each other. -/
theorem trans (h : net.Keeps exempt w w') (h' : net.Keeps exempt w' w'') :
    net.Keeps exempt w w'' where
  faithful := h'.faithful
  depth c := (h'.depth c).trans (h.depth c)
  entry c k hk hdepth hbusy := by
    have hfirst := h.entry c k hk hdepth hbusy
    have hsecond := h'.entry c k hk (by rw [h.depth]; exact hdepth) fun hcovers =>
      (World.busy_congr hfirst).2 (hbusy hcovers)
    exact hsecond.trans hfirst
  calm c k hk hcovers hbusy := h.calm c k hk hcovers (h'.calm c k hk hcovers hbusy)

/-- More places may be exempt. -/
theorem mono {exempt' : ComposerId → QueryKey → Prop} (h : net.Keeps exempt w w')
    (hexempt : ∀ c k, exempt c k → exempt' c k) : net.Keeps exempt' w w' where
  faithful := h.faithful
  depth := h.depth
  entry c k hk := h.entry c k fun hk' => hk (hexempt c k hk')
  calm c k hk := h.calm c k fun hk' => hk (hexempt c k hk')

/-- What no composer sees may change. -/
theorem same (h : net.Keeps exempt w w') (hcache : ∀ c, w''.cache c = w'.cache c)
    (hdepth : ∀ c, w''.depth c = w'.depth c) : net.Keeps exempt w w'' := by
  have hbusy : ∀ c k, w''.Busy c k → w'.Busy c k := fun c k => by
    unfold World.Busy
    rw [hcache]
    exact id
  refine ⟨⟨?_, ?_⟩, ?_, ?_, ?_⟩
  · intro r t hr ho ht e he
    rw [hcache] at he
    exact h.faithful.kept r t hr ho ht e he
  · intro c k hcovers hb
    rw [hdepth]
    exact h.faithful.attended c k hcovers (hbusy c k hb)
  · intro c
    rw [hdepth, h.depth]
  · intro c k hk hd hb
    rw [hcache]
    exact h.entry c k hk hd hb
  · intro c k hk hcovers hb
    exact h.calm c k hk hcovers (hbusy c k hb)

/-- The entry at an exempt place may change. -/
theorem edit (h : net.Keeps r.At w w') (hedit : World.Edit r w' w'')
    (hfaithful : net.Faithful w'') : net.Keeps r.At w w'' where
  faithful := hfaithful
  depth c := (hedit.depth c).trans (h.depth c)
  entry c k hk hdepth hbusy := (hedit.entry c k hk).trans (h.entry c k hk hdepth hbusy)
  calm c k hk hcovers hbusy :=
    h.calm c k hk hcovers ((World.busy_congr (hedit.entry c k hk)).1 hbusy)

end Keeps

/-- How grounded questions leave a faithful world. -/
abbrev Passes (net : Network V R M) (w w' : World V R M) : Prop :=
  net.Keeps (fun _ _ => False) w w'

/-- Where no query was being resolved, none is afterwards. -/
theorem Quiet.passes (h : net.Quiet w r) (hr : net.Grounded r) (hw : net.Passes w w') :
    net.Quiet w' r := by
  intro q hq hplain hbusy
  exact h q hq hplain (hw.calm _ _ id ((hr.trans hq).covers hplain) hbusy)

/-- While a query is resolved, none is being resolved to which a question may lead that it
raises. -/
theorem Quiet.raised {t : Tight V R M} {q : Request} (h : net.Quiet w r) (hr : net.Grounded r)
    (ho : r.operand = none) (ht : net.composer? r.composer = some (.tight t))
    (hq : net.Raises .cut r q) (hw : net.Keeps r.At w w') : net.Quiet w' q := by
  intro s hs hplain hbusy
  have hreach := Relation.ReflTransGen.head hq hs
  have hground := hr.trans hreach
  by_cases hat : r.At s.composer s.key
  · -- a question about the same query raises the same questions, and so would come back to itself
    obtain ⟨hc, hkey⟩ := hat
    have heq := Request.eq_of_key hc hkey ho hplain
    have hagain : net.Raises .cut s q := by
      rw [heq]
      exact hq.client ht ho s.client
    exact hground.not_circular (Relation.TransGen.head' hagain hs)
  · exact h s hreach hplain (hw.calm _ _ hat (hground.covers hplain) hbusy)

section Queries

variable {c : ComposerId} {t : Tight V R M}

/-- A faithful world stays so when a query begins. -/
theorem Faithful.begun (h : net.Faithful w) (c : ComposerId) : net.Faithful (Tight.begun w c) where
  kept r t hr ho ht e he := by
    rw [begun_cache] at he
    exact h.kept r t hr ho ht e he
  attended d k hcovers hbusy := by
    have hdepth := h.attended d k hcovers ((World.busy_congr (by rw [begun_cache])).1 hbusy)
    simp only [Tight.begun, World.putDepth_depth]
    split
    · omega
    · exact hdepth

/-- The cache of a composer is as it was when a query is over, or dropped after the outermost
query. -/
theorem concluded_cache (w : World V R M) (c d : ComposerId) :
    (t.concluded w c).cache d = w.cache d ∨
      d = c ∧ w.depth c - 1 = 0 ∧ (t.concluded w c).cache d = .empty := by
  rcases t.concluded_cases w c with h | ⟨hdepth, h⟩
  · exact .inl (by rw [h, World.putDepth_cache])
  · by_cases hd : d = c
    · exact .inr ⟨hd, hdepth, by rw [h, World.clear_cache, if_pos hd]⟩
    · exact .inl (by rw [h, World.clear_cache, if_neg hd, World.putDepth_cache])

/-- The queries of a composer are counted off when they are over. -/
theorem concluded_begun_depth (hw : ∀ d, w'.depth d = (Tight.begun w c).depth d) (d : ComposerId) :
    (t.concluded w' c).depth d = w.depth d := by
  by_cases hd : d = c
  · rw [hd, Tight.concluded_depth, hw, begun_depth, Nat.add_sub_cancel]
  · have hother : (t.concluded w' c).depth d = w'.depth d := by
      rcases t.concluded_cases w' c with h | ⟨_, h⟩ <;> simp [h, hd]
    rw [hother, hw]
    simp [Tight.begun, hd]

/-- A query that is over leaves the world as its resolution did. -/
theorem Keeps.concluded (h : net.Faithful w) (hw : net.Passes (Tight.begun w c) w') :
    net.Passes w (t.concluded w' c) := by
  have hdepth := concluded_begun_depth (t := t) hw.depth
  have hbusy : ∀ d k, (t.concluded w' c).Busy d k → w'.Busy d k := by
    rintro d k ⟨e, he, hb⟩
    rcases concluded_cache (t := t) w' c d with hcache | ⟨_, _, hcache⟩
    · exact ⟨e, hcache ▸ he, hb⟩
    · rw [hcache] at he
      cases he
  have hcalm : ∀ d k, net.Covers d k → (t.concluded w' c).Busy d k → w.Busy d k := by
    intro d k hcovers hb
    have hbegun := hw.calm d k id hcovers (hbusy d k hb)
    exact (World.busy_congr (by rw [begun_cache])).1 hbegun
  refine ⟨⟨?_, ?_⟩, hdepth, ?_, fun d k _ => hcalm d k⟩
  · intro r t' hr ho ht e he
    rcases concluded_cache (t := t) w' c r.composer with hcache | ⟨_, _, hcache⟩
    · exact hw.faithful.kept r t' hr ho ht e (hcache ▸ he)
    · rw [hcache] at he
      cases he
  · intro d k hcovers hb
    rw [hdepth]
    exact h.attended d k hcovers (hcalm d k hcovers hb)
  · intro d k _ hpos hb
    have hbegun : 1 ≤ (Tight.begun w c).depth d := by
      simp only [Tight.begun, World.putDepth_depth]
      split <;> omega
    have hentry := hw.entry d k id hbegun fun hcovers =>
      (World.busy_congr (by rw [begun_cache])).2 (hb hcovers)
    rw [begun_cache] at hentry
    rcases concluded_cache (t := t) w' c d with hcache | ⟨rfl, hzero, _⟩
    · rw [hcache, hentry]
    · -- the outermost query ends only where no other one was going on
      rw [hw.depth, begun_depth] at hzero
      omega

end Queries

/-- How the world is left in between by the resolution of a query that was not being resolved: its
entry counts one resolution. -/
structure Resolving (net : Network V R M) (r : Request) (w w' : World V R M) : Prop where
  keeps : net.Keeps r.At w w'
  counted : (w'.cache r.composer).active r.key = 1

namespace Resolving

/-- A query that counts a resolution is busy. -/
theorem busy (h : net.Resolving r w w') : w'.Busy r.composer r.key := by
  have hcounted := h.counted
  rw [QueryCache.active_eq] at hcounted
  cases he : (w'.cache r.composer).get? r.key with
  | none => simp [he] at hcounted
  | some e =>
      rw [he] at hcounted
      exact ⟨e, he, .inl (by simp only [Option.map_some, Option.getD_some] at hcounted; omega)⟩

/-- Grounded questions leave a resolution under way, and its entry as it is. -/
theorem passes (h : net.Resolving r w w') (hdepth : 1 ≤ w.depth r.composer)
    (hw : net.Passes w' w'') : net.Resolving r w w'' ∧
      (w''.cache r.composer).get? r.key = (w'.cache r.composer).get? r.key := by
  have hentry := hw.entry r.composer r.key id (by rw [h.keeps.depth]; exact hdepth) fun _ => h.busy
  refine ⟨⟨h.keeps.trans (hw.mono fun _ _ => False.elim), ?_⟩, hentry⟩
  rw [QueryCache.active_eq, hentry, ← QueryCache.active_eq]
  exact h.counted

section Steps

variable {t : Tight V R M} (hr : net.Grounded r) (ho : r.operand = none)
  (ht : net.composer? r.composer = some (.tight t)) (hdepth : 1 ≤ w.depth r.composer)

include hr ho ht hdepth

/-- A resolution that is started is under way. -/
theorem started (h : net.Faithful w) (hidle : ¬ w.Busy r.composer r.key) (hopen : Open w r) :
    net.Resolving r w (Tight.started w r) := by
  have hunfinished := (h.kept_reference hr ho ht).unfinished hopen
  have hfaithful : net.Faithful (Tight.started w r) := by
    refine h.edit ho ht (.started w r) fun _ e he => ⟨fun hstate => ?_, fun _ => hdepth⟩
    rw [started_cache, QueryCache.get?_enter, if_pos rfl] at he
    cases he
    exact absurd hstate hunfinished
  refine ⟨(Keeps.refl h).edit (.started w r) hfaithful, ?_⟩
  rw [started_cache, QueryCache.active_enter, if_pos rfl, World.active_of_idle hidle]

/-- Handing the query to a member leaves its resolution under way. -/
theorem mark (h : net.Resolving r w w') (hopen : Open w' r) (m : AnalysisId) :
    ∃ cache, (w'.cache r.composer).mark r.key m = .ok cache ∧
      net.Resolving r w (w'.putCache r.composer cache) ∧
      ((w'.putCache r.composer cache).cache r.composer).isCycle r.key m = true := by
  cases hmark : (w'.cache r.composer).mark r.key m with
  | error fault =>
      have hunfinished := (h.keeps.faithful.kept_reference hr ho ht).unfinished hopen
      simp [QueryCache.mark, hunfinished] at hmark
  | ok cache =>
      have hfaithful : net.Faithful (w'.putCache r.composer cache) := by
        refine h.keeps.faithful.edit ho ht (.mark hmark) fun _ e he =>
          ⟨fun hstate => ?_, fun _ => ?_⟩
        · rw [World.putCache_cache, if_pos rfl, (QueryCache.mark_eq_ok hmark).2, if_pos rfl] at he
          cases he
          cases hstate
        · rw [h.keeps.depth]
          exact hdepth
      refine ⟨cache, rfl, ⟨h.keeps.edit (.mark hmark) hfaithful, ?_⟩, ?_⟩
      · rw [World.putCache_cache, if_pos rfl, QueryCache.active_mark hmark, h.counted]
      · rw [World.putCache_cache, if_pos rfl, QueryCache.isCycle_mark hmark, if_pos rfl]
        exact decide_eq_true rfl

/-- Keeping what the reference says leaves the resolution under way, with a finished entry. -/
theorem finish (h : net.Resolving r w w') (hopen : Open w' r)
    {children : List (Object V R r.family)}
    (hchildren : net.reference r = .ok (.combined .intersect children)) :
    ∃ cache, (w'.cache r.composer).finish r.key ⟨r.family, .combined .intersect children⟩ =
        .ok cache ∧ net.Resolving r w (w'.putCache r.composer cache) ∧
      Settled (w'.putCache r.composer cache) r children := by
  cases hfinish : (w'.cache r.composer).finish r.key
      ⟨r.family, .combined .intersect children⟩ with
  | error fault =>
      have hunfinished := (h.keeps.faithful.kept_reference hr ho ht).unfinished hopen
      simp [QueryCache.finish, hunfinished] at hfinish
  | ok cache =>
      have hfaithful : net.Faithful (w'.putCache r.composer cache) := by
        refine h.keeps.faithful.edit ho ht (.finish hfinish) fun _ e he =>
          ⟨fun hstate => ?_, fun _ => ?_⟩
        · rw [World.putCache_cache, if_pos rfl, (QueryCache.finish_eq_ok hfinish).2,
            if_pos rfl] at he
          cases he
          exact ⟨_, rfl, hchildren⟩
        · rw [h.keeps.depth]
          exact hdepth
      refine ⟨cache, rfl, ⟨h.keeps.edit (.finish hfinish) hfaithful, ?_⟩, ?_⟩
      · rw [World.putCache_cache, if_pos rfl, QueryCache.active_finish hfinish, h.counted]
      · unfold Settled
        rw [World.putCache_cache, if_pos rfl, QueryCache.finished?_finish hfinish, if_pos rfl]

omit hdepth in
/-- Once its query is settled, the resolution ends and leaves the world as grounded questions do. -/
theorem ended (h : net.Resolving r w w') (hidle : ¬ w.Busy r.composer r.key)
    {children : List (Object V R r.family)} (hsettled : Settled w' r children) :
    net.Passes w (Tight.ended w' r) := by
  obtain ⟨e, he, hstate, hanswer⟩ := QueryCache.finished?_eq_some.1 hsettled
  have hactive : e.active = 1 := by
    have hcounted := h.counted
    rw [QueryCache.active_eq, he] at hcounted
    exact hcounted
  have hentry : ((Tight.ended w' r).cache r.composer).get? r.key =
      some ⟨e.state, e.answer, e.active - 1⟩ := by
    rw [ended_cache, QueryCache.get?_leave, if_pos rfl, he]
    rfl
  have hrest : ¬ (Tight.ended w' r).Busy r.composer r.key := by
    rintro ⟨e', he', hbusy⟩
    rw [hentry] at he'
    cases he'
    rcases hbusy with hbusy | ⟨m, hm⟩
    · simp [hactive] at hbusy
    · rw [hstate] at hm
      cases hm
  have hfaithful : net.Faithful (Tight.ended w' r) := by
    refine h.keeps.faithful.edit ho ht (.ended w' r) fun _ e' he' => ⟨fun _ => ?_, fun hbusy => ?_⟩
    · rw [hentry] at he'
      cases he'
      exact h.keeps.faithful.kept r t hr ho ht e he hstate
    · exact absurd ⟨e', he', hbusy⟩ hrest
  have hkeeps := h.keeps.edit (.ended w' r) hfaithful
  -- the place of the query needs no exemption: nobody was resolving it before, and nobody is now
  refine ⟨hfaithful, hkeeps.depth, fun c k _ hd hb => ?_, fun c k _ hcovers hb => ?_⟩
  · by_cases hat : r.At c k
    · obtain ⟨rfl, rfl⟩ := hat
      exact absurd (hb (hr.covers ho)) hidle
    · exact hkeeps.entry c k hat hd hb
  · by_cases hat : r.At c k
    · obtain ⟨rfl, rfl⟩ := hat
      exact absurd hb hrest
    · exact hkeeps.calm c k hat hcovers hb

end Steps

end Resolving

end Network

end JointAnalysis
