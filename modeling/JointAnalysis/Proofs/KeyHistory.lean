import JointAnalysis.Proofs.Cache
import Mathlib.Data.List.Dedup
import Mathlib.Data.List.Induction

/-!
# Every key by itself

What a cache reports about a query depends on what was done about this query since all entries were
cleared, and on nothing else. Every entry is an automaton of its own, with the step `Deed.change`,
and `QueryCache.get?_ofSteps` says that the cache runs these automata side by side. What an
automaton comes to can be read off its past in one go: `Deed.run_change`.
-/

namespace JointAnalysis

/-- Something that is done about one query. -/
inductive Deed (α : Type) where
  | enter
  | leave
  | mark (analysis : AnalysisId)
  | finish (answer : α)

/-- Something that is done to a cache: something about one query, or clearing all entries. -/
inductive CacheStep (α : Type) where
  | deed (key : QueryKey) (deed : Deed α)
  | clear

variable {α : Type}

namespace QueryCache

/-- The cache after something was done about a query. What is fatal leaves it as it was. -/
def act (c : QueryCache α) (k : QueryKey) : Deed α → QueryCache α
  | .enter => (c.enter k).2
  | .leave => c.leave k
  | .mark analysis =>
    match c.mark k analysis with
    | .ok marked => marked
    | .error _ => c
  | .finish answer =>
    match c.finish k answer with
    | .ok finished => finished
    | .error _ => c

/-- The cache after a step. -/
def step (c : QueryCache α) : CacheStep α → QueryCache α
  | .deed k d => c.act k d
  | .clear => empty

/-- What steps, one after the other, make of the cache without entries. -/
def ofSteps (steps : List (CacheStep α)) : QueryCache α := steps.foldl step empty

end QueryCache

namespace Deed

/-- Whether this gives the query an entry if it has none. -/
def creates : Deed α → Bool
  | .leave => false
  | _ => true

/-- The analysis to which the query is handed. -/
def marked? : Deed α → Option AnalysisId
  | .mark analysis => some analysis
  | _ => none

/-- The answer that is to be kept. -/
def answer? : Deed α → Option α
  | .finish answer => some answer
  | _ => none

/-- The number of resolutions under way after one more deed. One that ends while there are none does
not count. -/
def count (active : Nat) : Deed α → Nat
  | .enter => active + 1
  | .leave => active - 1
  | _ => active

/-- The number of resolutions that were started and not cancelled by one that ended. -/
def active (past : List (Deed α)) : Nat := past.foldl count 0

/-- The answer that is kept: the first one. -/
def answer (past : List (Deed α)) : Option α := past.findSome? answer?

/-- The state of a query: finished from the first answer on, and before that in the analysis to
which it was handed last. -/
def state (past : List (Deed α)) : QueryState :=
  match answer past, (past.filterMap marked?).getLast? with
  | some _, _ => .finished
  | none, some analysis => .inAnalysis analysis
  | none, none => .init

/-- The entry of a query after one more deed. Once it is finished, its state and its answer stay. -/
def change (e : CacheEntry α) : Deed α → CacheEntry α
  | .enter => { e with active := e.active + 1 }
  | .leave => { e with active := e.active - 1 }
  | .mark analysis => if e.state = .finished then e else { e with state := .inAnalysis analysis }
  | .finish answer =>
    if e.state = .finished then e else { e with state := .finished, answer := some answer }

section Past

variable (past : List (Deed α)) (d : Deed α)

/-- One more deed counts up or down. -/
theorem active_concat : active (past ++ [d]) = count (active past) d := by
  simp only [active, List.foldl_append, List.foldl_cons, List.foldl_nil]

/-- One more deed brings the answer if there was none. -/
theorem answer_concat : answer (past ++ [d]) = (answer past).or d.answer? := by
  simp only [answer, List.findSome?_append, List.findSome?_cons, List.findSome?_nil]
  cases d.answer? <;> rfl

/-- One more deed may be what makes the entry. -/
theorem any_creates_concat : (past ++ [d]).any creates = (past.any creates || d.creates) := by
  simp only [List.any_append, List.any_cons, List.any_nil, Bool.or_false]

/-- One more deed may hand the query to another analysis. -/
theorem marked_concat :
    ((past ++ [d]).filterMap marked?).getLast? =
      d.marked?.or (past.filterMap marked?).getLast? := by
  rw [List.filterMap_append, List.getLast?_append]
  cases h : d.marked? with
  | none => simp [h]
  | some analysis => simp [h]

/-- One more deed finishes the query, or hands it over if it is not finished, or leaves its state as
it was. -/
theorem state_concat :
    state (past ++ [d]) =
      match d with
      | .mark analysis => if state past = .finished then .finished else .inAnalysis analysis
      | .finish _ => .finished
      | _ => state past := by
  unfold state
  rw [answer_concat, marked_concat]
  cases answer past with
  | some kept => cases d <;> rfl
  | none =>
      cases (past.filterMap marked?).getLast? with
      | none => cases d <;> rfl
      | some analysis => cases d <;> rfl

/-- A query is finished if an answer is kept. -/
theorem state_eq_finished : state past = .finished ↔ (answer past).isSome = true := by
  unfold state
  cases answer past with
  | some kept => simp
  | none => cases (past.filterMap marked?).getLast? <;> simp

/-- The automaton that takes all deeds in turn comes to what can be read off them. -/
theorem run_change : past.foldl change .fresh = ⟨state past, answer past, active past⟩ := by
  induction past using List.reverseRecOn with
  | nil => rfl
  | append_singleton past d ih =>
      rw [List.foldl_append, ih, List.foldl_cons, List.foldl_nil, state_concat, answer_concat,
        active_concat]
      cases d with
      | enter | leave => simp [change, count, answer?]
      | mark analysis => by_cases h : state past = .finished <;> simp [change, count, answer?, h]
      | finish kept =>
          -- This is the first answer, which is the one to stay, only if none was given before.
          cases h : answer past with
          | some first =>
              have hstate : state past = .finished := (state_eq_finished past).2 (by simp [h])
              simp [change, count, hstate]
          | none =>
              have hstate : state past ≠ .finished := by simp [state_eq_finished, h]
              simp [change, count, answer?, hstate]

end Past

/-- What makes no entry leaves no trace. -/
theorem run_change_of_not_creates {past : List (Deed α)} (h : past.any creates = false) :
    past.foldl change .fresh = .fresh := by
  induction past with
  | nil => rfl
  | cons d rest ih =>
      rw [List.any_cons, Bool.or_eq_false_iff] at h
      cases d with
      | leave => exact ih h.2
      | enter | mark | finish => cases h.1

end Deed

namespace CacheStep

/-- What was done since all entries were cleared, after one more step. -/
def note (past : List (QueryKey × Deed α)) : CacheStep α → List (QueryKey × Deed α)
  | .deed k d => past ++ [(k, d)]
  | .clear => []

/-- What was done since all entries were cleared, about all queries. -/
def recent (steps : List (CacheStep α)) : List (QueryKey × Deed α) := steps.foldl note []

/-- What was done about one query since all entries were cleared. -/
def about (k : QueryKey) (steps : List (CacheStep α)) : List (Deed α) :=
  ((recent steps).filter (·.1 = k)).map (·.2)

/-- The queries that were entered, marked or finished since all entries were cleared. -/
def created (steps : List (CacheStep α)) : List QueryKey :=
  ((recent steps).filter (·.2.creates)).map (·.1)

variable (steps : List (CacheStep α))

/-- What was done lately, after one more deed. -/
theorem recent_concat_deed (k : QueryKey) (d : Deed α) :
    recent (steps ++ [.deed k d]) = recent steps ++ [(k, d)] := by
  simp only [recent, List.foldl_append, List.foldl_cons, List.foldl_nil, note]

/-- After clearing nothing was done. -/
theorem recent_concat_clear : recent (steps ++ [.clear]) = [] := by
  simp only [recent, List.foldl_append, List.foldl_cons, List.foldl_nil, note]

/-- What was done lately about one query, after one more deed about this or another one. -/
theorem about_concat_deed (k j : QueryKey) (d : Deed α) :
    about k (steps ++ [.deed j d]) = about k steps ++ if k = j then [d] else [] := by
  unfold about
  rw [recent_concat_deed, List.filter_append, List.map_append]
  by_cases h : k = j
  · simp [h]
  · simp [h, Ne.symm h]

/-- After clearing nothing was done about any query. -/
theorem about_concat_clear (k : QueryKey) : about k (steps ++ [.clear]) = [] := by
  rw [about, recent_concat_clear]
  rfl

/-- The queries that were entered, marked or finished lately. -/
theorem mem_created {k : QueryKey} :
    k ∈ created steps ↔ (about k steps).any Deed.creates = true := by
  simp [created, about, and_comm]

end CacheStep

namespace QueryCache

open Deed CacheStep

variable {c : QueryCache α} {k j : QueryKey} {analysis : AnalysisId} {answer : α}

/-- A query cannot be handed over in the finished state, and only then. -/
theorem mark_fatal_iff :
    (∃ fault, c.mark k analysis = .error fault) ↔ (c.entryOrFresh k).state = .finished := by
  by_cases h : (c.entryOrFresh k).state = .finished <;> simp [QueryCache.mark, h]

/-- No answer is kept for a query in the finished state, and only then. -/
theorem finish_fatal_iff :
    (∃ fault, c.finish k answer = .error fault) ↔ (c.entryOrFresh k).state = .finished := by
  by_cases h : (c.entryOrFresh k).state = .finished <;> simp [QueryCache.finish, h]

/-- A query in the finished state has an entry. -/
theorem get?_of_finished (h : (c.entryOrFresh k).state = .finished) (j : QueryKey) :
    c.get? j = if j = k then some (c.entryOrFresh k) else c.get? j := by
  split
  · next hj =>
      subst hj
      unfold entryOrFresh at h ⊢
      cases hentry : c.get? j with
      | none =>
          rw [hentry] at h
          cases h
      | some e => rfl
  · rfl

/-- An entry in a state other than the first one is there. -/
theorem state?_eq_some {s : QueryState} (hs : s ≠ .init) :
    c.state? k = some s ↔ (c.entryOrFresh k).state = s := by
  unfold state? entryOrFresh
  cases c.get? k with
  | none => simp [CacheEntry.fresh, Ne.symm hs]
  | some e => simp

/-- The answer to a query, if no entry counts as a fresh one. -/
theorem finished?_eq_entryOrFresh (c : QueryCache α) (k : QueryKey) :
    c.finished? k =
      if (c.entryOrFresh k).state = .finished then (c.entryOrFresh k).answer else none := by
  rw [finished?_eq]
  unfold entryOrFresh
  cases c.get? k <;> rfl

/-- What is done about a query takes its automaton one step further and no other one. -/
theorem get?_act (c : QueryCache α) (k j : QueryKey) (d : Deed α) :
    (c.act k d).get? j =
      if j = k then
        if (c.get? k).isSome || d.creates then some (change (c.entryOrFresh k) d) else none
      else c.get? j := by
  cases d with
  | enter =>
      simp only [act, creates, Bool.or_true, if_true]
      exact get?_enter c k j
  | leave =>
      simp only [act, creates, Bool.or_false]
      rw [get?_leave]
      unfold entryOrFresh
      cases c.get? k <;> rfl
  | mark analysis =>
      simp only [creates, Bool.or_true, if_true]
      cases hmark : c.mark k analysis with
      | ok marked =>
          obtain ⟨hopen, hget⟩ := mark_eq_ok hmark
          simp only [act, hmark, change, if_neg hopen]
          exact hget j
      | error fault =>
          have hfinished := mark_fatal_iff.1 ⟨fault, hmark⟩
          simp only [act, hmark, change, if_pos hfinished]
          exact get?_of_finished hfinished j
  | finish answer =>
      simp only [creates, Bool.or_true, if_true]
      cases hfinish : c.finish k answer with
      | ok finished =>
          obtain ⟨hopen, hget⟩ := finish_eq_ok hfinish
          simp only [act, hfinish, change, if_neg hopen]
          exact hget j
      | error fault =>
          have hfinished := finish_fatal_iff.1 ⟨fault, hfinish⟩
          simp only [act, hfinish, change, if_pos hfinished]
          exact get?_of_finished hfinished j

/-- The entry of a query, or a fresh one, if the entry is given only under a condition. -/
theorem entryOrFresh_of_get? {e : CacheEntry α} {present : Bool}
    (h : c.get? k = if present then some e else none) (hfresh : present = false → e = .fresh) :
    c.entryOrFresh k = e := by
  unfold entryOrFresh
  rw [h]
  cases present with
  | true => rfl
  | false => exact (hfresh rfl).symm

/-- The entry of a query is what its automaton comes to from what was done about this query, if it
has one. -/
theorem get?_ofSteps (steps : List (CacheStep α)) (k : QueryKey) :
    (ofSteps steps).get? k =
      if (about k steps).any creates then some ((about k steps).foldl change .fresh) else none := by
  induction steps using List.reverseRecOn with
  | nil => rfl
  | append_singleton steps s ih =>
      have hstep : ofSteps (steps ++ [s]) = (ofSteps steps).step s := by
        simp only [ofSteps, List.foldl_append, List.foldl_cons, List.foldl_nil]
      rw [hstep]
      cases s with
      | clear =>
          rw [about_concat_clear]
          rfl
      | deed j d =>
          rw [step, get?_act, about_concat_deed]
          by_cases h : k = j
          · subst h
            have hentry := entryOrFresh_of_get? ih fun hnone => run_change_of_not_creates hnone
            rw [if_pos rfl, if_pos rfl, any_creates_concat, List.foldl_append, hentry, ih]
            cases (about k steps).any creates <;> rfl
          · rw [if_neg h, if_neg h, List.append_nil, ih]

/-- What the automaton of a query comes to is its entry, or a fresh one if it has none. -/
theorem entryOrFresh_ofSteps (steps : List (CacheStep α)) (k : QueryKey) :
    (ofSteps steps).entryOrFresh k =
      ⟨state (about k steps), Deed.answer (about k steps), Deed.active (about k steps)⟩ := by
  rw [← run_change]
  exact entryOrFresh_of_get? (get?_ofSteps steps k) fun hnone => run_change_of_not_creates hnone

/-- A key is among those of the entries if it has one. -/
theorem mem_keys_iff : k ∈ c.entries.map Prod.fst ↔ (c.get? k).isSome = true := by
  unfold get?
  rw [Option.isSome_map, List.find?_isSome, List.mem_map]
  simp only [decide_eq_true_eq]

/-- There are as many entries as there are queries that were entered, marked or finished lately. -/
theorem size_ofSteps (steps : List (CacheStep α)) :
    (ofSteps steps).size = (created steps).dedup.length := by
  have hperm : ((ofSteps steps).entries.map Prod.fst).Perm (created steps).dedup := by
    refine (List.perm_ext_iff_of_nodup (ofSteps steps).distinct (List.nodup_dedup _)).2 fun k => ?_
    rw [mem_keys_iff, get?_ofSteps, List.mem_dedup, mem_created]
    cases (about k steps).any creates <;> simp
  simpa [size] using hperm.length_eq

/-- Whatever was done to a cache, what it reports about a query is determined by what was done about
this query since all entries were cleared. There is no entry before the query was entered, marked or
finished. The query is finished as soon as an answer was given, and the first answer is kept; before
that it is in the analysis to which it was handed last. A resolution that starts finds those under
way that were started before and not cancelled by one that ended. There are as many entries as
queries were entered, marked or finished, and to hand a query over or to answer it is fatal if and
only if it is finished. -/
theorem keys_independent (steps : List (CacheStep α)) :
    let c := ofSteps steps
    (∀ k, let past := about k steps
      (c.state? k = if past.any creates then some (Deed.state past) else none) ∧
      c.finished? k = Deed.answer past ∧
      (∀ client, c.isCycle k client = true ↔ Deed.state past = .inAnalysis client) ∧
      (c.enter k).1 = Deed.active past ∧
      (∀ analysis,
        (∃ fault, c.mark k analysis = .error fault) ↔ c.state? k = some .finished) ∧
      ∀ answer, (∃ fault, c.finish k answer = .error fault) ↔ c.state? k = some .finished) ∧
    c.size = (created steps).dedup.length := by
  intro c
  refine ⟨fun k => ?_, size_ofSteps steps⟩
  intro past
  have hreached : c.entryOrFresh k = ⟨Deed.state past, Deed.answer past, Deed.active past⟩ :=
    entryOrFresh_ofSteps steps k
  have hstate : c.state? k = if past.any creates then some (Deed.state past) else none := by
    unfold state?
    rw [get?_ofSteps, run_change]
    cases past.any creates <;> rfl
  have hfinished : c.state? k = some .finished ↔ (c.entryOrFresh k).state = .finished :=
    state?_eq_some (by simp)
  refine ⟨hstate, ?_, fun client => ?_, ?_, fun analysis => ?_, fun answer => ?_⟩
  · rw [finished?_eq_entryOrFresh, hreached]
    by_cases h : Deed.state past = .finished
    · exact if_pos h
    · have hnone : Deed.answer past = none := by simpa [state_eq_finished] using h
      rw [hnone, ite_self]
  · rw [isCycle, decide_eq_true_eq, state?_eq_some (by simp), hreached]
  · rw [enter_fst, QueryCache.active, hreached]
  · rw [mark_fatal_iff, hfinished]
  · rw [finish_fatal_iff, hfinished]

end QueryCache

end JointAnalysis
