import JointAnalysis.Query.Fault
import JointAnalysis.Query.Key

/-!
# The cache of a composer

For every query that a composer has met since its cache was last cleared there is an entry. It says
how far the query is, keeps the answer once there is one, and counts the resolutions of the query
that are under way. The state doubles as the guard against recursion: a query that is asked again by
the analysis to which it was handed last is a cycle.
-/

namespace JointAnalysis

/-- The identity of an analysis or composer that takes part in a composition. -/
structure AnalysisId where
  number : Nat
  deriving DecidableEq, Repr

/-- How far a query is. -/
inductive QueryState where
  | init
  /-- The query was handed to this analysis. -/
  | inAnalysis (analysis : AnalysisId)
  | finished
  deriving DecidableEq, Repr

/-- What is known about one query. -/
structure CacheEntry (α : Type) where
  state : QueryState
  answer : Option α
  /-- The number of resolutions of the query that are under way. -/
  active : Nat
  deriving Repr

/-- The entry of a query that was met for the first time. -/
def CacheEntry.fresh {α : Type} : CacheEntry α := ⟨.init, none, 0⟩

/-- Give a key the entry `e`: replace the entry it has, or add one at the end. -/
def assign {α : Type} (k : QueryKey) (e : CacheEntry α) :
    List (QueryKey × CacheEntry α) → List (QueryKey × CacheEntry α)
  | [] => [(k, e)]
  | (j, d) :: rest => if j = k then (k, e) :: rest else (j, d) :: assign k e rest

/-- Giving `k` an entry adds `k` to the keys and keeps all others. -/
theorem mem_keys_assign {α : Type} {k : QueryKey} {e : CacheEntry α} {j : QueryKey}
    {entries : List (QueryKey × CacheEntry α)} :
    j ∈ (assign k e entries).map Prod.fst ↔ j = k ∨ j ∈ entries.map Prod.fst := by
  induction entries with
  | nil => simp [assign]
  | cons entry rest ih =>
    obtain ⟨i, d⟩ := entry
    by_cases h : i = k
    · simp [assign, h]
    · simp only [assign, h, if_false, List.map_cons, List.mem_cons, ih]
      exact or_left_comm

/-- Giving a key an entry repeats no key. -/
theorem nodup_keys_assign {α : Type} {k : QueryKey} {e : CacheEntry α}
    {entries : List (QueryKey × CacheEntry α)} (h : (entries.map Prod.fst).Nodup) :
    ((assign k e entries).map Prod.fst).Nodup := by
  induction entries with
  | nil => simp [assign]
  | cons entry rest ih =>
    obtain ⟨i, d⟩ := entry
    rw [List.map_cons, List.nodup_cons] at h
    by_cases hi : i = k
    · subst hi
      simpa [assign] using h
    · rw [assign, if_neg hi, List.map_cons, List.nodup_cons, mem_keys_assign]
      exact ⟨fun hm => hm.elim hi h.1, ih h.2⟩

/-- The entries of a composer, at most one for each key. -/
structure QueryCache (α : Type) where
  entries : List (QueryKey × CacheEntry α)
  distinct : (entries.map Prod.fst).Nodup

namespace QueryCache

variable {α : Type}

/-- The cache without entries. -/
def empty : QueryCache α := ⟨[], List.nodup_nil⟩

/-- The number of entries. -/
def size (c : QueryCache α) : Nat := c.entries.length

/-- Whether there are no entries. -/
def isEmpty (c : QueryCache α) : Bool := c.entries.isEmpty

/-- The entry of a key. -/
def get? (c : QueryCache α) (k : QueryKey) : Option (CacheEntry α) :=
  (c.entries.find? (·.1 = k)).map (·.2)

/-- Give a key the entry `e`. -/
def set (c : QueryCache α) (k : QueryKey) (e : CacheEntry α) : QueryCache α :=
  ⟨assign k e c.entries, nodup_keys_assign c.distinct⟩

/-- The entry of a key, a fresh one if there is none. -/
def entryOrFresh (c : QueryCache α) (k : QueryKey) : CacheEntry α :=
  (c.get? k).getD .fresh

/-- How far a query is, if it has been met. -/
def state? (c : QueryCache α) (k : QueryKey) : Option QueryState :=
  (c.get? k).map (·.state)

/-- The answer to a query, once it is finished. -/
def finished? (c : QueryCache α) (k : QueryKey) : Option α := do
  let e ← c.get? k
  if e.state = .finished then e.answer else none

/-- Whether the client asks a query that was handed to it last. -/
def isCycle (c : QueryCache α) (k : QueryKey) (client : AnalysisId) : Bool :=
  c.state? k = some (.inAnalysis client)

/-- Start a resolution. The number says how many were under way before. -/
def enter (c : QueryCache α) (k : QueryKey) : Nat × QueryCache α :=
  let e := c.entryOrFresh k
  (e.active, c.set k { e with active := e.active + 1 })

/-- End a resolution. -/
def leave (c : QueryCache α) (k : QueryKey) : QueryCache α :=
  match c.get? k with
  | some e => c.set k { e with active := e.active - 1 }
  | none => c

/-- Note that an unfinished query is handed to an analysis. -/
def mark (c : QueryCache α) (k : QueryKey) (analysis : AnalysisId) :
    Except Fault (QueryCache α) :=
  let e := c.entryOrFresh k
  if e.state = .finished then
    .error (.backwardTransition k.kind .finished .inAnalysis)
  else
    .ok (c.set k { e with state := .inAnalysis analysis })

/-- Keep the answer to an unfinished query. -/
def finish (c : QueryCache α) (k : QueryKey) (answer : α) : Except Fault (QueryCache α) :=
  let e := c.entryOrFresh k
  if e.state = .finished then
    .error (.backwardTransition k.kind .finished .finished)
  else
    .ok (c.set k { e with state := .finished, answer := some answer })

end QueryCache

end JointAnalysis
