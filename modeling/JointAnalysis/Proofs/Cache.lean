import JointAnalysis.Query.Cache
import Mathlib.Tactic.Common

/-!
# Laws of the cache

What an operation on the cache does to the entry of each key. Read `get?_set` first: giving a key
an entry changes nothing for the other keys. The laws of the four operations of a query follow from
it, each for the key concerned and for the others at once.
-/

namespace JointAnalysis

variable {α : Type}

/-- Of two entries given to a key the later one counts. -/
theorem assign_assign (k : QueryKey) (d e : CacheEntry α)
    (entries : List (QueryKey × CacheEntry α)) :
    assign k e (assign k d entries) = assign k e entries := by
  induction entries with
  | nil => simp [assign]
  | cons entry rest ih =>
      obtain ⟨j, f⟩ := entry
      by_cases h : j = k
      · simp [assign, h]
      · simp [assign, h, ih]

/-- Giving a key the entry that it has changes nothing. -/
theorem assign_self (k : QueryKey) (e : CacheEntry α) (entries : List (QueryKey × CacheEntry α))
    (h : (entries.find? (·.1 = k)).map (·.2) = some e) : assign k e entries = entries := by
  induction entries with
  | nil => simp at h
  | cons entry rest ih =>
      obtain ⟨j, f⟩ := entry
      by_cases hj : j = k
      · subst hj
        simp only [List.find?_cons, decide_true, Option.map_some, Option.some.injEq] at h
        simp [assign, h]
      · simp only [List.find?_cons, decide_eq_false hj] at h
        simp [assign, hj, ih h]

/-- Looking a key up after one was given an entry. -/
theorem find_assign (k : QueryKey) (e : CacheEntry α) (j : QueryKey)
    (entries : List (QueryKey × CacheEntry α)) :
    ((assign k e entries).find? (·.1 = j)).map (·.2) =
      if j = k then some e else (entries.find? (·.1 = j)).map (·.2) := by
  induction entries with
  | nil =>
      by_cases h : j = k
      · simp [assign, h]
      · simp [assign, h, Ne.symm h]
  | cons entry rest ih =>
      obtain ⟨i, d⟩ := entry
      by_cases hi : i = k
      · subst hi
        by_cases hj : j = i
        · simp [assign, hj]
        · simp [assign, hj, Ne.symm hj]
      · rw [assign, if_neg hi, List.find?_cons, List.find?_cons]
        by_cases hj : i = j
        · subst hj
          simp [hi]
        · simpa [hj] using ih

namespace QueryCache

/-- The number of resolutions of a query that are under way. -/
def active (c : QueryCache α) (k : QueryKey) : Nat := (c.entryOrFresh k).active

/-- The empty cache has no entries. -/
@[simp]
theorem get?_empty (k : QueryKey) : (empty : QueryCache α).get? k = none := rfl

/-- Giving a key an entry changes the entry of this key only. -/
theorem get?_set (c : QueryCache α) (k : QueryKey) (e : CacheEntry α) (j : QueryKey) :
    (c.set k e).get? j = if j = k then some e else c.get? j :=
  find_assign k e j c.entries

/-- Of two entries given to a key the later one counts. -/
theorem set_set (c : QueryCache α) (k : QueryKey) (d e : CacheEntry α) :
    (c.set k d).set k e = c.set k e := by
  simp only [set, assign_assign]

/-- Giving a key the entry that it has changes nothing. -/
theorem set_self {c : QueryCache α} {k : QueryKey} {e : CacheEntry α} (h : c.get? k = some e) :
    c.set k e = c := by
  obtain ⟨entries, distinct⟩ := c
  simp only [set, assign_self k e entries h]

/-- A query without resolutions under way may have an entry or none. -/
theorem active_eq (c : QueryCache α) (k : QueryKey) :
    c.active k = ((c.get? k).map (·.active)).getD 0 := by
  unfold active entryOrFresh
  cases c.get? k <;> rfl

/-- The answer of a query, read off its entry. -/
theorem finished?_eq (c : QueryCache α) (k : QueryKey) :
    c.finished? k = (c.get? k).bind fun e => if e.state = .finished then e.answer else none :=
  rfl

/-- A query has an answer when its entry is finished with one. -/
theorem finished?_eq_some {c : QueryCache α} {k : QueryKey} {answer : α} :
    c.finished? k = some answer ↔
      ∃ e, c.get? k = some e ∧ e.state = .finished ∧ e.answer = some answer := by
  rw [finished?_eq, Option.bind_eq_some_iff]
  constructor
  · rintro ⟨e, he, h⟩
    by_cases hstate : e.state = .finished
    · exact ⟨e, he, hstate, by simpa [hstate] using h⟩
    · simp [hstate] at h
  · rintro ⟨e, he, hstate, hanswer⟩
    exact ⟨e, he, by simp [hstate, hanswer]⟩

/-- The number that starting a resolution reports. -/
@[simp]
theorem enter_fst (c : QueryCache α) (k : QueryKey) : (c.enter k).1 = c.active k := rfl

/-- Starting a resolution counts it and leaves the rest as it was. -/
theorem get?_enter (c : QueryCache α) (k j : QueryKey) :
    (c.enter k).2.get? j =
      if j = k then
        some ⟨(c.entryOrFresh k).state, (c.entryOrFresh k).answer, c.active k + 1⟩
      else c.get? j :=
  get?_set c k _ j

/-- Ending a resolution counts it off and leaves the rest as it was. -/
theorem get?_leave (c : QueryCache α) (k j : QueryKey) :
    (c.leave k).get? j =
      if j = k then (c.get? k).map fun e => ⟨e.state, e.answer, e.active - 1⟩
      else c.get? j := by
  unfold leave
  cases h : c.get? k with
  | none =>
      by_cases hj : j = k
      · simp [hj, h]
      · simp [hj]
  | some e => simp [get?_set]

/-- A query can be handed over unless it is in the finished state, and only its state changes. -/
theorem mark_eq_ok {c c' : QueryCache α} {k : QueryKey} {a : AnalysisId}
    (h : c.mark k a = .ok c') :
    (c.entryOrFresh k).state ≠ .finished ∧ ∀ j, c'.get? j =
      if j = k then some ⟨.inAnalysis a, (c.entryOrFresh k).answer, c.active k⟩
      else c.get? j := by
  by_cases hstate : (c.entryOrFresh k).state = .finished
  · simp [mark, hstate] at h
  · simp only [mark, hstate, if_false, Except.ok.injEq] at h
    subst h
    exact ⟨hstate, fun j => get?_set c k _ j⟩

/-- An answer can be kept unless the query is in the finished state. -/
theorem finish_eq_ok {c c' : QueryCache α} {k : QueryKey} {answer : α}
    (h : c.finish k answer = .ok c') :
    (c.entryOrFresh k).state ≠ .finished ∧ ∀ j, c'.get? j =
      if j = k then some ⟨.finished, some answer, c.active k⟩ else c.get? j := by
  by_cases hstate : (c.entryOrFresh k).state = .finished
  · simp [finish, hstate] at h
  · simp only [finish, hstate, if_false, Except.ok.injEq] at h
    subst h
    exact ⟨hstate, fun j => get?_set c k _ j⟩

/-- A query that is not met yet is not in the finished state, and neither is one without answer. -/
theorem state_ne_finished {c : QueryCache α} {k : QueryKey}
    (h : (c.entryOrFresh k).state ≠ .finished) : c.finished? k = none := by
  unfold entryOrFresh at h
  rw [finished?_eq]
  cases he : c.get? k with
  | none => rfl
  | some e =>
      rw [he, Option.getD_some] at h
      simp [h]

/-- A cycle, read off the entry. -/
theorem isCycle_iff {c : QueryCache α} {k : QueryKey} {client : AnalysisId} :
    c.isCycle k client = true ↔ (c.get? k).map (·.state) = some (.inAnalysis client) := by
  simp [isCycle, state?]

section Enter

/-- Starting a resolution counts it. -/
@[simp]
theorem active_enter (c : QueryCache α) (k j : QueryKey) :
    (c.enter k).2.active j = if j = k then c.active k + 1 else c.active j := by
  rw [active_eq, get?_enter]
  split
  · rfl
  · rw [active_eq]

/-- Starting a resolution finishes no query. -/
@[simp]
theorem finished?_enter (c : QueryCache α) (k j : QueryKey) :
    (c.enter k).2.finished? j = c.finished? j := by
  rw [finished?_eq, get?_enter, finished?_eq]
  split
  · next h =>
      subst h
      unfold entryOrFresh
      cases c.get? j <;> rfl
  · rfl

/-- Starting a resolution hands the query to nobody. -/
@[simp]
theorem isCycle_enter (c : QueryCache α) (k j : QueryKey) (client : AnalysisId) :
    (c.enter k).2.isCycle j client = c.isCycle j client := by
  rw [Bool.eq_iff_iff, isCycle_iff, isCycle_iff, get?_enter]
  split
  · next h =>
      subst h
      unfold entryOrFresh
      cases c.get? j with
      | none => simp [CacheEntry.fresh]
      | some e => rfl
  · rfl

end Enter

section Leave

/-- Ending a resolution counts it off. -/
@[simp]
theorem active_leave (c : QueryCache α) (k j : QueryKey) :
    (c.leave k).active j = if j = k then c.active k - 1 else c.active j := by
  rw [active_eq, get?_leave]
  split
  · rw [active_eq]
    cases c.get? k <;> rfl
  · rw [active_eq]

/-- Ending a resolution keeps the answers. -/
@[simp]
theorem finished?_leave (c : QueryCache α) (k j : QueryKey) :
    (c.leave k).finished? j = c.finished? j := by
  rw [finished?_eq, get?_leave, finished?_eq]
  split
  · next h =>
      subst h
      cases c.get? j <;> rfl
  · rfl

/-- Ending a resolution hands the query to nobody. -/
@[simp]
theorem isCycle_leave (c : QueryCache α) (k j : QueryKey) (client : AnalysisId) :
    (c.leave k).isCycle j client = c.isCycle j client := by
  rw [Bool.eq_iff_iff, isCycle_iff, isCycle_iff, get?_leave]
  split
  · next h =>
      subst h
      cases c.get? j <;> rfl
  · rfl

end Leave

section Mark

variable {c c' : QueryCache α} {k : QueryKey} {a : AnalysisId} (h : c.mark k a = .ok c')

include h

/-- Handing a query over starts no resolution. -/
theorem active_mark (j : QueryKey) : c'.active j = c.active j := by
  rw [active_eq, (mark_eq_ok h).2]
  split
  · next hj => rw [hj]; rfl
  · rw [active_eq]

/-- Handing a query over keeps the answers. -/
theorem finished?_mark (j : QueryKey) : c'.finished? j = c.finished? j := by
  obtain ⟨hstate, hentry⟩ := mark_eq_ok h
  by_cases hj : j = k
  · subst hj
    rw [state_ne_finished hstate, finished?_eq, hentry, if_pos rfl]
    rfl
  · rw [finished?_eq, hentry, if_neg hj, finished?_eq]

/-- After a query was handed over, it is a cycle for this analysis only. -/
theorem isCycle_mark (j : QueryKey) (client : AnalysisId) :
    c'.isCycle j client = if j = k then decide (a = client) else c.isCycle j client := by
  rw [Bool.eq_iff_iff, isCycle_iff, (mark_eq_ok h).2]
  split
  · simp
  · rw [isCycle_iff]

end Mark

section Finish

variable {c c' : QueryCache α} {k : QueryKey} {answer : α} (h : c.finish k answer = .ok c')

include h

/-- Keeping an answer ends no resolution. -/
theorem active_finish (j : QueryKey) : c'.active j = c.active j := by
  rw [active_eq, (finish_eq_ok h).2]
  split
  · next hj => rw [hj]; rfl
  · rw [active_eq]

/-- The answer that was kept is the answer of its query. -/
theorem finished?_finish (j : QueryKey) :
    c'.finished? j = if j = k then some answer else c.finished? j := by
  rw [finished?_eq, (finish_eq_ok h).2]
  split
  · rfl
  · rw [finished?_eq]

/-- Keeping an answer makes no other query a cycle. -/
theorem isCycle_finish {j : QueryKey} (hj : j ≠ k) (client : AnalysisId) :
    c'.isCycle j client = c.isCycle j client := by
  rw [Bool.eq_iff_iff, isCycle_iff, (finish_eq_ok h).2, if_neg hj, isCycle_iff]

end Finish

/-- A resolution that ends right after it started leaves no trace, if another one is under way. -/
theorem leave_enter {c : QueryCache α} {k : QueryKey} (h : 0 < c.active k) :
    (c.enter k).2.leave k = c := by
  rw [active_eq] at h
  cases he : c.get? k with
  | none => simp [he] at h
  | some e =>
      have hfresh : c.entryOrFresh k = e := by simp [entryOrFresh, he]
      have hself : (c.enter k).2.get? k = some ⟨e.state, e.answer, e.active + 1⟩ := by
        rw [get?_enter, if_pos rfl, active, hfresh]
      rw [leave, hself]
      show (c.set k _).set k _ = c
      rw [set_set]
      exact set_self he

end QueryCache

end JointAnalysis
