import JointAnalysis.Proofs.Nesting
import Mathlib.Data.List.Nodup

/-!
# How often a tight composer asks its members

All resolutions of a query are nested in each other until the first of them finishes it. So as long
as the cache is not cleared, no more of them are started than can be under way at once, and each of
them asks a member at most once. `Counted.move` carries this through a run with two counters that
start over when the cache is cleared, and `Tight.dispatches_at_most` and `Tight.asks_at_most` read
it off the trail.
-/

namespace JointAnalysis

open Lookup Tight

variable {V R M : Type}

namespace Event

/-- A composer starts to ask its members about a query. -/
def dispatches (c : ComposerId) (k : QueryKey) : Event V R → Bool
  | .dispatched d j => d = c ∧ j = k
  | _ => false

/-- A member of a composer is asked about a query. -/
def asks (c : ComposerId) (m : AnalysisId) (k : QueryKey) : Event V R → Bool
  | .asked _ family q =>
    q.composer = c ∧ q.self = m ∧ (⟨q.term, q.edge, family.kind⟩ : QueryKey) = k
  | _ => false

variable {c : ComposerId} {e : Event V R}

/-- Only events about a composer are dispatches of it. -/
theorem dispatches_eq_false (he : e.composer ≠ c) (k : QueryKey) : e.dispatches c k = false := by
  cases e <;> simp_all [dispatches, Event.composer]

/-- Only events about a composer are questions to its members. -/
theorem asks_eq_false (he : e.composer ≠ c) (m : AnalysisId) (k : QueryKey) :
    e.asks c m k = false := by
  cases e <;> simp_all [asks, Event.composer]

/-- A member that is asked on behalf of a request is asked about the query of the request. -/
theorem asks_asked (r : Request) (m : Member V R M) (name : String) (id : AnalysisId)
    (k : QueryKey) :
    (.asked name r.family (inquiry r m) : Event V R).asks r.composer id k =
      decide (m.id = id ∧ r.key = k) := by
  rw [Bool.eq_iff_iff, decide_eq_true_iff]
  simp [asks, inquiry, Request.key]

end Event

/-- The number of events of a kind since the cache of a composer was cleared. -/
def tally (c : ComposerId) (kind : Event V R → Bool) : List (Event V R) → Nat
  | [] => 0
  | e :: past => if e.clears c then 0 else tally c kind past + if kind e then 1 else 0

/-- Wherever the cache of a composer is not cleared in between, a trail has at most `n` events of a
kind. -/
def AtMost (c : ComposerId) (n : Nat) (kind : Event V R → Bool) (trail : List (Event V R)) : Prop :=
  ∀ part, part <:+: trail → (∀ e ∈ part, e.clears c = false) → part.countP kind ≤ n

section Tallies

variable {c : ComposerId} {n : Nat} {kind : Event V R → Bool} {e : Event V R}
  {trail : List (Event V R)}

/-- An event that does not clear the cache is counted if it is of the kind. -/
theorem tally_cons (he : e.clears c = false) :
    tally c kind (e :: trail) = tally c kind trail + if kind e then 1 else 0 := by
  simp [tally, he]

/-- The count starts over when the cache is cleared. -/
@[simp]
theorem tally_cleared : tally c kind (.cleared c :: trail) = 0 := by
  simp [tally, Event.clears]

/-- Events that are not about the composer are not counted. -/
theorem tally_elsewhere {trail' : List (Event V R)}
    (h : trail' = trail ∨ ∃ e : Event V R, e.composer ≠ c ∧ trail' = e :: trail)
    (hkind : ∀ e : Event V R, e.composer ≠ c → kind e = false) :
    tally c kind trail' = tally c kind trail := by
  rcases h with htrail | ⟨e, he, htrail⟩
  · rw [htrail]
  · rw [htrail, tally_cons (e.clears_eq_false he), hkind e he]
    rfl

/-- What happened last without the cache being cleared has been counted. -/
theorem countP_le_tally {part : List (Event V R)} (hpart : part <+: trail)
    (hkept : ∀ e ∈ part, e.clears c = false) : part.countP kind ≤ tally c kind trail := by
  induction part generalizing trail with
  | nil => exact Nat.zero_le _
  | cons e rest ih =>
      obtain ⟨later, rfl⟩ := hpart
      rw [List.cons_append, tally_cons (hkept e List.mem_cons_self), List.countP_cons]
      have hrest := ih (List.prefix_append rest later)
        fun e he => hkept e (List.mem_cons_of_mem _ he)
      omega

/-- An empty trail keeps within every bound. -/
theorem AtMost.nil : AtMost c n kind [] := by
  intro part hpart _
  rw [List.infix_nil.1 hpart]
  exact Nat.zero_le n

/-- A trail keeps within a bound as long as the count does. -/
theorem AtMost.cons (h : AtMost c n kind trail) (hnew : tally c kind (e :: trail) ≤ n) :
    AtMost c n kind (e :: trail) := by
  intro part hpart hkept
  rcases List.infix_cons_iff.1 hpart with hlatest | hearlier
  · exact Nat.le_trans (countP_le_tally hlatest hkept) hnew
  · exact h part hearlier hkept

end Tallies

/-- The number of times that a member is still to be asked about a query, in all resolutions on a
stack. -/
def waiting (m : AnalysisId) (k : QueryKey) : List (Frame V R M) → Nat
  | [] => 0
  | .query _ :: s => waiting m k s
  | .dispatch r rest :: s => waiting m k s + if r.key = k then (rest.map (·.id)).count m else 0
  | .settled _ :: s => waiting m k s
  | .member _ _ :: s => waiting m k s

variable {net : Network V R M} {c : ComposerId} {t : Tight V R M} {p q : Moment V R M}

/-- A move keeps a trail within a bound as long as the count does. -/
theorem AtMost.move {n : Nat} {kind : Event V R → Bool} (h : Move net c t p q)
    (hp : AtMost c n kind p.world.trail) (hq : tally c kind q.world.trail ≤ n) :
    AtMost c n kind q.world.trail := by
  rcases h.trail_cases with htrail | ⟨e, _, htrail⟩ | ⟨e, _, _, _, _, htrail⟩
  · rwa [htrail]
  · rw [htrail] at hq ⊢
    exact hp.cons hq
  · rw [htrail] at hq ⊢
    exact (hp.cons (by simp)).cons hq

/-- The counts of a composer since its cache was cleared. A query that is not finished was
dispatched no more often than resolutions of it are under way. -/
structure Counted (net : Network V R M) (c : ComposerId) (t : Tight V R M) (p : Moment V R M) :
    Prop where
  balanced : Balanced net c 0 (fun _ => 0) p
  dispatched_le : ∀ k,
    tally c (Event.dispatches c k) p.world.trail ≤ t.config.reentrantResolutions + 1
  dispatched_le_active : ∀ k, (p.world.cache c).finished? k = none →
    tally c (Event.dispatches c k) p.world.trail ≤ (p.world.cache c).active k
  asked_le : net.Spares c → ∀ m k, (t.members.map (·.id)).count m ≤ 1 →
    tally c (Event.asks c m k) p.world.trail + waiting m k p.stack ≤
      tally c (Event.dispatches c k) p.world.trail

/-- The counts stay right where nothing new is counted. -/
theorem Counted.congr (hp : Counted net c t p) (hbalanced : Balanced net c 0 (fun _ => 0) q)
    (hdispatched : ∀ k, tally c (Event.dispatches c k) q.world.trail =
      tally c (Event.dispatches c k) p.world.trail)
    (hasked : ∀ m k, tally c (Event.asks c m k) q.world.trail =
      tally c (Event.asks c m k) p.world.trail)
    (hopen : ∀ k, (q.world.cache c).finished? k = none → (p.world.cache c).finished? k = none ∧
      (q.world.cache c).active k = (p.world.cache c).active k)
    (hwaiting : ∀ m k, waiting m k q.stack ≤ waiting m k p.stack) : Counted net c t q where
  balanced := hbalanced
  dispatched_le k := by rw [hdispatched]; exact hp.dispatched_le k
  dispatched_le_active k hk := by
    obtain ⟨hfinished, hactive⟩ := hopen k hk
    rw [hdispatched, hactive]
    exact hp.dispatched_le_active k hfinished
  asked_le hspares m k hm := by
    have hle := hp.asked_le hspares m k hm
    have hwait := hwaiting m k
    rw [hdispatched, hasked]
    omega

/-- The counts are right where they start over, if nobody is waiting to be asked. -/
theorem Counted.restart (hbalanced : Balanced net c 0 (fun _ => 0) q)
    (hdispatched : ∀ k, tally c (Event.dispatches c k) q.world.trail = 0)
    (hasked : ∀ m k, tally c (Event.asks c m k) q.world.trail = 0)
    (hwaiting : net.Spares c → ∀ m k, waiting m k q.stack = 0) : Counted net c t q where
  balanced := hbalanced
  dispatched_le k := by rw [hdispatched]; exact Nat.zero_le _
  dispatched_le_active k _ := by rw [hdispatched]; exact Nat.zero_le _
  asked_le hspares m k _ := by rw [hasked, hwaiting hspares]; exact Nat.zero_le _

section Steps

variable {w : World V R M} {s : List (Frame V R M)} {r : Request} {m : Member V R M}
  {rest : List (Member V R M)}

/-- A resolution that is started is one more dispatch of its query. -/
theorem tally_started (w : World V R M) (r : Request) (k : QueryKey) :
    tally r.composer (Event.dispatches r.composer k) (started w r).trail =
      tally r.composer (Event.dispatches r.composer k) w.trail + if r.key = k then 1 else 0 := by
  rw [started_trail, tally_cons rfl]
  simp [Event.dispatches]

/-- A member that is asked waits one time less. -/
theorem tally_add_waiting (trail : List (Event V R)) (id : AnalysisId) (k : QueryKey) :
    tally r.composer (Event.asks r.composer id k)
        (.asked m.analysis.name r.family (inquiry r m) :: trail) +
        waiting id k (.dispatch r rest :: s) =
      tally r.composer (Event.asks r.composer id k) trail +
        waiting id k (.dispatch r (m :: rest) :: s) := by
  rw [tally_cons rfl, Event.asks_asked]
  simp only [waiting, List.map_cons, List.count_cons, beq_iff_eq, decide_eq_true_eq]
  by_cases hk : r.key = k
  · by_cases hid : m.id = id
    · simp only [hk, hid, and_self, if_true]
      omega
    · simp [hk, hid]
  · simp [hk]

/-- Where a resolution can be started, fewer were started than can be under way: the query is not
finished, so all of them still are. -/
theorem Counted.dispatched_few (hp : Counted net r.composer t ⟨w, s⟩) (hopen : Open w r)
    (huncut : ¬ t.Cut w r) :
    tally r.composer (Event.dispatches r.composer r.key) w.trail ≤ t.config.reentrantResolutions :=
  Nat.le_trans (hp.dispatched_le_active r.key hopen) (Nat.le_of_not_lt (not_or.1 huncut).2)

/-- Starting a resolution keeps the counts. -/
theorem Counted.dispatch (hp : Counted net r.composer t ⟨w, .query r :: s⟩) (hopen : Open w r)
    (huncut : ¬ t.Cut w r) :
    Counted net r.composer t ⟨started w r, .dispatch r t.members :: .query r :: s⟩ where
  balanced := hp.balanced.move (fun _ _ => rfl) (.dispatch rfl hopen huncut)
  dispatched_le k := by
    rw [tally_started]
    by_cases hk : r.key = k
    · have hfew := hp.dispatched_few hopen huncut
      subst hk
      rw [if_pos rfl]
      omega
    · simpa [hk] using hp.dispatched_le k
  dispatched_le_active k hk := by
    simp only [started_cache, QueryCache.finished?_enter] at hk
    have hfew := hp.dispatched_le_active k hk
    simp only [tally_started, started_cache, QueryCache.active_enter]
    by_cases hkey : r.key = k
    · subst hkey
      simpa using hfew
    · simpa [hkey, Ne.symm hkey] using hfew
  asked_le hspares id k hid := by
    have hle := hp.asked_le hspares id k hid
    have hasked : tally r.composer (Event.asks r.composer id k) (started w r).trail =
        tally r.composer (Event.asks r.composer id k) w.trail := rfl
    simp only [tally_started, hasked, waiting] at hle ⊢
    split
    · omega
    · omega

/-- Asking a member keeps the counts. -/
theorem Counted.consult (hp : Counted net r.composer t ⟨w, .dispatch r (m :: rest) :: s⟩)
    (hopen : Open w r) (hm : m.analysis.handles r.family = true)
    {cache : QueryCache (AnyObject V R)}
    (hmark : (w.cache r.composer).mark r.key m.id = .ok cache) :
    Counted net r.composer t
      ⟨(w.putCache r.composer cache).note (.asked m.analysis.name r.family (inquiry r m)),
        .member m r :: .dispatch r rest :: s⟩ where
  balanced := hp.balanced.move (t := t) (fun _ _ => rfl) (.consult rfl hopen hm hmark)
  dispatched_le := hp.dispatched_le
  dispatched_le_active k hk := by
    simp only [World.note_cache, World.putCache_cache, if_true,
      QueryCache.finished?_mark hmark] at hk
    simp only [World.note_cache, World.putCache_cache, if_true, QueryCache.active_mark hmark]
    exact hp.dispatched_le_active k hk
  asked_le hspares id k hid :=
    Nat.le_trans (Nat.le_of_eq (tally_add_waiting w.trail id k)) (hp.asked_le hspares id k hid)

end Steps

/-- A move keeps the counts. A resolution is started only while the query is not finished and few
enough resolutions of it are under way, and it ends only when the query is finished. -/
theorem Counted.move (h : Move net c t p q) (hp : Counted net c t p) : Counted net c t q := by
  have hbalanced := hp.balanced.move (fun _ _ => rfl) h
  cases h with
  | @elsewhere w w' s hidle hdesk htrail =>
      have hcache : w'.cache c = w.cache c := congrArg Desk.cache hdesk
      refine hp.congr hbalanced
        (fun k => tally_elsewhere htrail fun _ he => Event.dispatches_eq_false he k)
        (fun id k => tally_elsewhere htrail fun _ he => Event.asks_eq_false he id k)
        (fun k hk => ?_) fun _ _ => Nat.le_refl _
      rw [hcache] at hk ⊢
      exact ⟨hk, rfl⟩
  | wipe hidle hwiped =>
      exact .restart hbalanced (by simp) (by simp) fun hspares => absurd hspares hwiped
  | request r hidle hr =>
      exact hp.congr hbalanced (fun _ => rfl) (fun _ _ => rfl) (fun k hk => by simpa using hk)
        fun _ _ => Nat.le_refl _
  | dispatch hr hopen huncut =>
      subst hr
      exact hp.dispatch hopen huncut
  | @skip w s r m rest hm =>
      refine hp.congr hbalanced (fun _ => rfl) (fun _ _ => rfl) (fun k hk => ⟨hk, rfl⟩)
        fun m' k => ?_
      have hrest : (rest.map (·.id)).count m' ≤ ((m :: rest).map (·.id)).count m' :=
        List.count_le_count_cons
      simp only [waiting]
      split
      · omega
      · exact Nat.le_refl _
  | consult hr hopen hm hmark =>
      subst hr
      exact hp.consult hopen hm hmark
  | answer hr o =>
      exact hp.congr hbalanced (fun _ => rfl) (fun _ _ => rfl) (fun k hk => ⟨hk, rfl⟩)
        fun _ _ => Nat.le_refl _
  | @keep w s r answers cache hr hopen hfinish =>
      refine hp.congr hbalanced (fun _ => rfl) (fun _ _ => rfl) (fun k hk => ?_) fun m k => ?_
      · simp only [World.putCache_cache, if_true, QueryCache.finished?_finish hfinish,
          QueryCache.active_finish hfinish] at hk ⊢
        split at hk
        · cases hk
        · exact ⟨hk, trivial⟩
      · simp [waiting]
  | withdraw hfound =>
      refine hp.congr hbalanced (fun _ => rfl) (fun _ _ => rfl) (fun k hk => ⟨hk, rfl⟩)
        fun m k => ?_
      simp [waiting]
  | @leave w s r answers hr hfound =>
      subst hr
      refine hp.congr hbalanced (fun _ => rfl) (fun _ _ => rfl) (fun k hk => ?_)
        fun _ _ => Nat.le_refl _
      simp only [ended_cache, QueryCache.finished?_leave, QueryCache.active_leave] at hk ⊢
      -- only the count of a finished query goes down
      have hkey : k ≠ r.key := by
        rintro rfl
        rw [hfound] at hk
        cases hk
      exact ⟨hk, if_neg hkey⟩
  | @giveBack w s r hr o hreason =>
      rcases t.concluded_cases w c with hconcluded | ⟨hlast, hconcluded⟩
      · refine hp.congr hbalanced (fun k => ?_) (fun m k => ?_) (fun k hk => ?_)
          fun _ _ => Nat.le_refl _
        · rw [hconcluded]
          rfl
        · rw [hconcluded]
          rfl
        · simpa [hconcluded] using hk
      · obtain rfl := hp.balanced.outermost hlast
        refine .restart hbalanced (fun k => ?_) (fun m k => ?_) fun _ _ _ => rfl
        · rw [hconcluded]
          exact (tally_cons rfl).trans tally_cleared
        · rw [hconcluded]
          exact (tally_cons rfl).trans tally_cleared

/-- In a world in which nothing happened there is nothing to count. -/
theorem Counted.initial (memory : M) :
    Counted net c t ⟨(.initial memory : World V R M), []⟩ :=
  .restart (.initial memory) (fun _ => rfl) (fun _ _ => rfl) fun _ _ _ => rfl

/-- The counts start over when a client clears the cache. -/
theorem Counted.clear {w : World V R M} (h : Counted net c t ⟨w, []⟩) :
    Counted net c t ⟨w.clear c, []⟩ :=
  .restart h.balanced.clear (by simp) (by simp) fun _ _ _ => rfl

namespace Network

/-- Members are enrolled under consecutive identities. -/
theorem enroll_ids {direction : Direction} {first : Nat} {analyses : List (Analysis V R M)}
    {members : List (Member V R M)} (h : enroll direction first analyses = .ok members) :
    members.map (·.id) = (List.range' first analyses.length).map AnalysisId.mk := by
  induction analyses generalizing first members with
  | nil =>
      cases h
      rfl
  | cons a rest ih =>
      unfold enroll at h
      split at h
      · cases hrest : enroll direction (first + 1) rest with
        | error mismatch =>
            rw [hrest] at h
            cases h
        | ok others =>
            rw [hrest] at h
            cases h
            simp [List.range'_succ, ih hrest]
      · cases h

/-- Members are enrolled under different identities. -/
theorem enroll_nodup {direction : Direction} {first : Nat} {analyses : List (Analysis V R M)}
    {members : List (Member V R M)} (h : enroll direction first analyses = .ok members) :
    (members.map (·.id)).Nodup := by
  rw [enroll_ids h]
  exact List.Nodup.map (fun _ _ heq => congrArg AnalysisId.number heq) (List.nodup_range' ..)

/-- The members of a tight composer that is added to a network have different identities. -/
theorem addTight_nodup {net net' : Network V R M} {analyses : List (Analysis V R M)}
    {parent : Option ComposerId} {config : Config} {direction : Option Direction}
    {system : Option TransitionSystem} {program : Option Program}
    (h : net.addTight analyses parent config direction system program = .ok net') :
    ∃ t : Tight V R M, net'.composers = net.composers ++ [.tight t] ∧
      (t.members.map (·.id)).Nodup := by
  unfold addTight at h
  cases hmembers : enroll (direction.getD (leadingDirection analyses)) net.identities analyses with
  | error mismatch =>
      simp only [hmembers] at h
      cases h
  | ok members =>
      simp only [hmembers] at h
      cases h
      exact ⟨_, rfl, enroll_nodup hmembers⟩

end Network

section Sessions

variable (ht : net.composer? c = some (.tight t)) (depth : Nat) (steps : List (Step M)) (memory : M)

include ht

/-- A bound on the count at every moment is a bound on the trail of a session. -/
theorem Counted.at_most {n : Nat} {kind : Event V R → Bool}
    (hkind : ∀ p, Counted net c t p → tally c kind p.world.trail ≤ n) :
    AtMost c n kind (net.after depth steps memory).trail := by
  have hmove : ∀ a b, Move net c t a b → (Counted net c t a ∧ AtMost c n kind a.world.trail) →
      Counted net c t b ∧ AtMost c n kind b.world.trail :=
    fun a b h ⟨hcounted, hmost⟩ => ⟨hcounted.move h, hmost.move h (hkind b (hcounted.move h))⟩
  obtain ⟨s, ⟨_, hmost⟩, _⟩ := Network.session_invariant ht hmove
    (fun w ⟨hcounted, hmost⟩ => ⟨hcounted.clear, hmost.cons (by simp)⟩) depth steps
    (.initial memory) ⟨.initial memory, .nil⟩
  exact hmost

/-- As long as its cache is not cleared, a composer asks its members about a query only so often as
its settings let resolutions be under way at once. -/
theorem Tight.dispatches_at_most (k : QueryKey) :
    AtMost c (t.config.reentrantResolutions + 1) (Event.dispatches c k)
      (net.after depth steps memory).trail :=
  Counted.at_most ht depth steps memory fun _ h => h.dispatched_le k

/-- As long as its cache is not cleared, by the analyses least of all, a composer asks a member
about a query only so often as its settings let resolutions be under way at once. -/
theorem Tight.asks_at_most (hspares : net.Spares c) (hids : (t.members.map (·.id)).Nodup)
    (m : AnalysisId) (k : QueryKey) :
    AtMost c (t.config.reentrantResolutions + 1) (Event.asks c m k)
      (net.after depth steps memory).trail := by
  refine Counted.at_most ht depth steps memory fun p h => ?_
  have hasked := h.asked_le hspares m k (List.nodup_iff_count_le_one.1 hids m)
  have hdispatched := h.dispatched_le k
  omega

end Sessions

end JointAnalysis
