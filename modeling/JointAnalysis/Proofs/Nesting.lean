import JointAnalysis.Proofs.Machine

/-!
# How queries of a tight composer nest

What the stack of a tight composer looks like, and what its desk says about it. A resolution belongs
to the query below it and a member to the resolution below it (`WellNested`). The composer keeps
count of both: its depth is the number of queries on the stack, and as many resolutions of a query
are under way as there are on the stack, unless an analysis has cleared the cache (`Balanced`).
-/

namespace JointAnalysis

open Tight

variable {V R M : Type}

/-- The number of queries on a stack. -/
def queries : List (Frame V R M) → Nat
  | [] => 0
  | .query _ :: s => queries s + 1
  | .dispatch _ _ :: s => queries s
  | .settled _ :: s => queries s
  | .member _ _ :: s => queries s

/-- The number of resolutions of a query on a stack. -/
def resolutions (k : QueryKey) : List (Frame V R M) → Nat
  | [] => 0
  | .query _ :: s => resolutions k s
  | .dispatch r _ :: s => resolutions k s + if r.key = k then 1 else 0
  | .settled r :: s => resolutions k s + if r.key = k then 1 else 0
  | .member _ _ :: s => resolutions k s

/-- Every resolution on a stack stands on its query, and every member on its resolution. -/
def WellNested : List (Frame V R M) → Prop
  | [] => True
  | .query _ :: s => WellNested s
  | .dispatch r _ :: s => (∃ below, s = .query r :: below) ∧ WellNested s
  | .settled r :: s => (∃ below, s = .query r :: below) ∧ WellNested s
  | .member _ r :: s => (∃ rest below, s = .dispatch r rest :: below) ∧ WellNested s

/-- A stack without queries is empty. -/
theorem WellNested.eq_nil {s : List (Frame V R M)} (h : WellNested s) (hs : queries s = 0) :
    s = [] := by
  match s, h with
  | [], _ => rfl
  | .query _ :: _, _ => simp [queries] at hs
  | .dispatch _ _ :: _, ⟨⟨_, rfl⟩, _⟩ => simp [queries] at hs
  | .settled _ :: _, ⟨⟨_, rfl⟩, _⟩ => simp [queries] at hs
  | .member _ _ :: _, ⟨⟨_, _, rfl⟩, ⟨_, rfl⟩, _⟩ => simp [queries] at hs

section Moves

variable {net : Network V R M} {c : ComposerId} {t : Tight V R M} {p q : Moment V R M}

/-- A move leaves the trail alone, or adds an event, which clears the cache only where the analyses
may do so, or drops the cache at the end of a query after which no query is open. -/
theorem Move.trail_cases (h : Move net c t p q) :
    q.world.trail = p.world.trail ∨
    (∃ e, (net.Spares c → e.clears c = false) ∧ q.world.trail = e :: p.world.trail) ∨
    ∃ e r, p.stack = .query r :: q.stack ∧ p.world.depth c - 1 = 0 ∧ q.world.cache c = .empty ∧
      q.world.trail = e :: .cleared c :: p.world.trail := by
  cases h with
  | elsewhere hidle hdesk htrail =>
      rcases htrail with htrail | ⟨e, he, htrail⟩
      · exact .inl htrail
      · exact .inr (.inl ⟨e, fun _ => e.clears_eq_false he, htrail⟩)
  | wipe hidle hwiped => exact .inr (.inl ⟨_, fun hspares => absurd hspares hwiped, rfl⟩)
  | request | dispatch | consult | answer => exact .inr (.inl ⟨_, fun _ => rfl, rfl⟩)
  | skip | keep | withdraw | leave => exact .inl rfl
  | @giveBack w s r hr o hreason =>
      rcases t.concluded_cases w c with hconcluded | ⟨hlast, hconcluded⟩
      · refine .inr (.inl ⟨.returned r ⟨r.family, o⟩, fun _ => rfl, ?_⟩)
        rw [hconcluded]
        rfl
      · refine .inr (.inr ⟨.returned r ⟨r.family, o⟩, r, rfl, hlast, by simp [hconcluded], ?_⟩)
        rw [hconcluded]
        rfl

/-- A move keeps a stack nested. -/
theorem WellNested.move (h : Move net c t p q) (hp : WellNested p.stack) : WellNested q.stack := by
  cases h with
  | elsewhere | wipe => exact hp
  | request => exact hp
  | dispatch => exact ⟨⟨_, rfl⟩, hp⟩
  | skip => exact hp
  | consult => exact ⟨⟨_, _, rfl⟩, hp⟩
  | answer => exact hp.2
  | keep => exact hp
  | withdraw => exact hp
  | leave => exact hp.2
  | giveBack => exact hp

/-- The desk of a composer at a moment, compared to one on which `depth` queries were open and
`active k` resolutions of each query under way before the stack was begun. -/
structure Balanced (net : Network V R M) (c : ComposerId) (depth : Nat) (active : QueryKey → Nat)
    (p : Moment V R M) : Prop where
  nested : WellNested p.stack
  depth_eq : p.world.depth c = depth + queries p.stack
  active_le : ∀ k, (p.world.cache c).active k ≤ active k + resolutions k p.stack
  active_eq : net.Spares c → ∀ k, (p.world.cache c).active k = active k + resolutions k p.stack

/-- The counts stay right where neither the desk nor the stack counts anything new. -/
theorem Balanced.congr {depth : Nat} {active : QueryKey → Nat} (hp : Balanced net c depth active p)
    (hnested : WellNested q.stack) (hdepth : q.world.depth c = p.world.depth c)
    (hactive : ∀ k, (q.world.cache c).active k = (p.world.cache c).active k)
    (hqueries : queries q.stack = queries p.stack)
    (hresolutions : ∀ k, resolutions k q.stack = resolutions k p.stack) :
    Balanced net c depth active q where
  nested := hnested
  depth_eq := by rw [hdepth, hqueries, hp.depth_eq]
  active_le k := by rw [hactive, hresolutions]; exact hp.active_le k
  active_eq hspares k := by rw [hactive, hresolutions]; exact hp.active_eq hspares k

/-- A move keeps the counts. The cache is dropped only after a query that was outermost, and then
there are no resolutions left to count. -/
theorem Balanced.move {depth : Nat} {active : QueryKey → Nat}
    (hbase : depth = 0 → ∀ k, active k = 0) (h : Move net c t p q)
    (hp : Balanced net c depth active p) : Balanced net c depth active q := by
  have hnested := hp.nested.move h
  cases h with
  | @elsewhere w w' s hidle hdesk =>
      have hcache : w'.cache c = w.cache c := congrArg Desk.cache hdesk
      exact hp.congr hnested (congrArg Desk.depth hdesk) (fun k => by rw [hcache]) rfl fun _ => rfl
  | wipe hidle hwiped =>
      -- resolutions go on without being counted, so that only the upper bound is left
      refine ⟨hnested, ?_, ?_, fun hspares => absurd hspares hwiped⟩
      · simpa using hp.depth_eq
      · simp [QueryCache.active_eq]
  | @request w s r hidle hr =>
      refine ⟨hnested, ?_, ?_, ?_⟩
      · have hdepth : w.depth c = depth + queries s := hp.depth_eq
        simp only [begun_depth, World.note_depth, queries]
        omega
      · simpa [resolutions] using hp.active_le
      · simpa [resolutions] using hp.active_eq
  | @dispatch w s r hr hopen huncut =>
      subst hr
      have hactive : ∀ k, ((started w r).cache r.composer).active k =
          (w.cache r.composer).active k + if r.key = k then 1 else 0 := by
        intro k
        by_cases hk : r.key = k
        · simp [hk]
        · simp [hk, Ne.symm hk]
      refine ⟨hnested, ?_, fun k => ?_, fun hspares k => ?_⟩
      · simpa [queries] using hp.depth_eq
      · have hle : (w.cache r.composer).active k ≤ active k + resolutions k s := hp.active_le k
        simp only [hactive, resolutions]
        omega
      · have heq : (w.cache r.composer).active k = active k + resolutions k s :=
          hp.active_eq hspares k
        simp only [hactive, resolutions]
        omega
  | skip hm => exact hp.congr hnested rfl (fun _ => rfl) rfl fun _ => rfl
  | consult hr hopen hm hmark =>
      refine hp.congr hnested (by simp) (fun k => ?_) rfl fun _ => rfl
      simpa using QueryCache.active_mark hmark k
  | answer hr o => exact hp.congr hnested rfl (fun _ => rfl) rfl fun _ => rfl
  | keep hr hopen hfinish =>
      refine hp.congr hnested (by simp) (fun k => ?_) rfl fun _ => rfl
      simpa using QueryCache.active_finish hfinish k
  | withdraw hfound => exact hp.congr hnested rfl (fun _ => rfl) rfl fun _ => rfl
  | @leave w s r answers hr hfound =>
      subst hr
      have hactive : ∀ k, ((ended w r).cache r.composer).active k =
          (w.cache r.composer).active k - if r.key = k then 1 else 0 := by
        intro k
        by_cases hk : r.key = k
        · simp [hk]
        · simp [hk, Ne.symm hk]
      refine ⟨hnested, ?_, fun k => ?_, fun hspares k => ?_⟩
      · simpa [queries] using hp.depth_eq
      · have hle : (w.cache r.composer).active k ≤
            active k + (resolutions k s + if r.key = k then 1 else 0) := hp.active_le k
        simp only [hactive]
        omega
      · have heq : (w.cache r.composer).active k =
            active k + (resolutions k s + if r.key = k then 1 else 0) := hp.active_eq hspares k
        simp only [hactive]
        omega
  | @giveBack w s r hr o hreason =>
      have hdepth : w.depth c = depth + (queries s + 1) := hp.depth_eq
      rcases t.concluded_cases w c with hconcluded | ⟨hlast, hconcluded⟩
      · refine ⟨hnested, ?_, ?_, ?_⟩
        · simp only [World.note_depth, concluded_depth]
          omega
        · simpa [hconcluded, resolutions] using hp.active_le
        · simpa [hconcluded, resolutions] using hp.active_eq
      · have hs : s = [] := hnested.eq_nil (show queries s = 0 by omega)
        have hactive := hbase (by omega)
        refine ⟨hnested, ?_, ?_, ?_⟩
        · simp only [World.note_depth, concluded_depth]
          omega
        · simp [hconcluded, QueryCache.active_eq]
        · simp [hconcluded, QueryCache.active_eq, hs, hactive, resolutions]

/-- A query after which no query is open is alone on the stack. -/
theorem Balanced.outermost {active : QueryKey → Nat} {w : World V R M} {r : Request}
    {s : List (Frame V R M)} (hp : Balanced net c 0 active ⟨w, .query r :: s⟩)
    (hlast : w.depth c - 1 = 0) : s = [] := by
  have hdepth : w.depth c = 0 + (queries s + 1) := hp.depth_eq
  have hnested : WellNested s := hp.nested
  exact hnested.eq_nil (by omega)

/-- Nothing is begun in a world in which nothing happened. -/
theorem Balanced.initial (memory : M) :
    Balanced net c 0 (fun _ => 0) ⟨(.initial memory : World V R M), []⟩ :=
  ⟨trivial, rfl, fun _ => Nat.le_refl 0, fun _ _ => rfl⟩

/-- The counts stay right when a client clears the cache of a composer with nothing to do. -/
theorem Balanced.clear {w : World V R M} (h : Balanced net c 0 (fun _ => 0) ⟨w, []⟩) :
    Balanced net c 0 (fun _ => 0) ⟨w.clear c, []⟩ where
  nested := h.nested
  depth_eq := by simpa using h.depth_eq
  active_le := by simp [QueryCache.active_eq]
  active_eq := by simp [QueryCache.active_eq, resolutions]

end Moves

end JointAnalysis
