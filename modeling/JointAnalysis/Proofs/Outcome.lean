import JointAnalysis.Composition.Network
import JointAnalysis.Proofs.Cache

/-!
# Outcomes of computations

A computation takes a world to a result, or to the reason why there is none, and to the world that
it leaves. `Run.outcome` is this function, and `Run.outcome_bind` the law by which the outcome of a
sequence is made from those of its parts. Everything else here says what the building blocks of
composers come to, so that later proofs never open a computation.
-/

namespace JointAnalysis

variable {V R M β γ : Type}

namespace World

/-- The world with one more event on the trail. -/
def note (w : World V R M) (event : Event V R) : World V R M :=
  { w with trail := event :: w.trail }

/-- The world with another desk of a composer. -/
def putDesk (w : World V R M) (c : ComposerId) (desk : Desk V R) : World V R M :=
  { w with desk := fun d => if d = c then desk else w.desk d }

/-- The cache of a composer. -/
def cache (w : World V R M) (c : ComposerId) : QueryCache (AnyObject V R) := (w.desk c).cache

/-- The number of queries that a composer is answering. -/
def depth (w : World V R M) (c : ComposerId) : Nat := (w.desk c).depth

/-- The world with another cache of a composer. -/
def putCache (w : World V R M) (c : ComposerId) (cache : QueryCache (AnyObject V R)) :
    World V R M :=
  w.putDesk c ⟨cache, w.depth c⟩

/-- The world with another number of queries that a composer is answering. -/
def putDepth (w : World V R M) (c : ComposerId) (depth : Nat) : World V R M :=
  w.putDesk c ⟨w.cache c, depth⟩

/-- The world after the cache of a composer was cleared. -/
def clear (w : World V R M) (c : ComposerId) : World V R M :=
  (w.putCache c .empty).note (.cleared c)

section Projections

variable (w : World V R M) (e : Event V R) (c d : ComposerId)
  (desk : Desk V R) (cache : QueryCache (AnyObject V R)) (depth : Nat)

@[simp] theorem note_desk : (w.note e).desk d = w.desk d := rfl
@[simp] theorem note_cache : (w.note e).cache d = w.cache d := rfl
@[simp] theorem note_depth : (w.note e).depth d = w.depth d := rfl
@[simp] theorem note_memory : (w.note e).memory = w.memory := rfl
@[simp] theorem note_trail : (w.note e).trail = e :: w.trail := rfl

@[simp] theorem putDesk_memory : (w.putDesk c desk).memory = w.memory := rfl
@[simp] theorem putDesk_trail : (w.putDesk c desk).trail = w.trail := rfl

@[simp] theorem putCache_memory : (w.putCache c cache).memory = w.memory := rfl
@[simp] theorem putCache_trail : (w.putCache c cache).trail = w.trail := rfl

@[simp] theorem putDepth_memory : (w.putDepth c depth).memory = w.memory := rfl
@[simp] theorem putDepth_trail : (w.putDepth c depth).trail = w.trail := rfl

@[simp] theorem clear_memory : (w.clear c).memory = w.memory := rfl
@[simp] theorem clear_trail : (w.clear c).trail = .cleared c :: w.trail := rfl

@[simp]
theorem putDesk_desk : (w.putDesk c desk).desk d = if d = c then desk else w.desk d := rfl

@[simp]
theorem putCache_cache :
    (w.putCache c cache).cache d = if d = c then cache else w.cache d := by
  unfold World.cache putCache
  rw [putDesk_desk]
  split <;> rfl

@[simp]
theorem putCache_depth : (w.putCache c cache).depth d = w.depth d := by
  unfold World.depth putCache
  rw [putDesk_desk]
  split
  · next h => rw [h]; rfl
  · rfl

@[simp]
theorem putDepth_cache : (w.putDepth c depth).cache d = w.cache d := by
  unfold World.cache putDepth
  rw [putDesk_desk]
  split
  · next h => rw [h]; rfl
  · rfl

@[simp]
theorem putDepth_depth :
    (w.putDepth c depth).depth d = if d = c then depth else w.depth d := by
  unfold World.depth putDepth
  rw [putDesk_desk]
  split <;> rfl

@[simp]
theorem clear_cache : (w.clear c).cache d = if d = c then .empty else w.cache d := by
  simp [clear]

@[simp]
theorem clear_depth : (w.clear c).depth d = w.depth d := by
  simp [clear]

variable {c d} in
/-- A new cache of one composer leaves the desks of the others alone. -/
theorem putCache_desk_of_ne (h : d ≠ c) : (w.putCache c cache).desk d = w.desk d := if_neg h

variable {c d} in
/-- Counting the queries of one composer leaves the desks of the others alone. -/
theorem putDepth_desk_of_ne (h : d ≠ c) : (w.putDepth c depth).desk d = w.desk d := if_neg h

/-- Putting back the cache that is there changes nothing. -/
theorem putCache_cache_self : w.putCache c (w.cache c) = w := by
  obtain ⟨desk, memory, trail⟩ := w
  simp only [putCache, putDesk, World.cache, World.depth, World.mk.injEq, and_true]
  funext d
  split
  · next h => rw [h]
  · rfl

/-- Of two caches put on a desk the later one counts. -/
theorem putCache_putCache (cache' : QueryCache (AnyObject V R)) :
    (w.putCache c cache).putCache c cache' = w.putCache c cache' := by
  obtain ⟨desk, memory, trail⟩ := w
  simp only [putCache, putDesk, World.depth, if_true, World.mk.injEq, and_true]
  funext d
  split <;> rfl

end Projections

end World

namespace Run

/-- What a computation comes to when it starts in a world. -/
def outcome (x : Run V R M β) (w : World V R M) : Except Halt β × World V R M := x.run.run w

/-- The outcome of a sequence: the second part starts in the world that the first one leaves, unless
the first one has no result. -/
theorem outcome_bind (x : Run V R M β) (f : β → Run V R M γ) (w : World V R M) :
    (x >>= f).outcome w =
      match x.outcome w with
      | (.ok b, w') => (f b).outcome w'
      | (.error halt, w') => (.error halt, w') := by
  unfold outcome
  rw [ExceptT.run_bind, StateT.run_bind]
  rcases x.run.run w with ⟨_ | b, w'⟩ <;> rfl

/-- A computation that ends well hands its result on. -/
theorem outcome_bind_ok {x : Run V R M β} {f : β → Run V R M γ} {w w' : World V R M} {b : β}
    (h : x.outcome w = (.ok b, w')) : (x >>= f).outcome w = (f b).outcome w' := by
  rw [outcome_bind, h]

/-- A computation without result ends the sequence. -/
theorem outcome_bind_error {x : Run V R M β} {f : β → Run V R M γ} {w w' : World V R M}
    {halt : Halt} (h : x.outcome w = (.error halt, w')) :
    (x >>= f).outcome w = (.error halt, w') := by
  rw [outcome_bind, h]

/-- If a sequence ends well, so does its first part, and the second part starts where it ends. -/
theorem outcome_bind_eq_ok {x : Run V R M β} {f : β → Run V R M γ} {w w' : World V R M} {b : γ}
    (h : (x >>= f).outcome w = (.ok b, w')) :
    ∃ a w₁, x.outcome w = (.ok a, w₁) ∧ (f a).outcome w₁ = (.ok b, w') := by
  rcases hx : x.outcome w with ⟨halt | a, w₁⟩
  · rw [outcome_bind_error hx] at h
    cases h
  · rw [outcome_bind_ok hx] at h
    exact ⟨a, w₁, rfl, h⟩

/-- Where two computations come to the same, sequences that begin with them do. -/
theorem outcome_bind_congr {x y : Run V R M β} {w w' : World V R M}
    (h : x.outcome w = y.outcome w') (f : β → Run V R M γ) :
    (x >>= f).outcome w = (y >>= f).outcome w' := by
  rw [outcome_bind, outcome_bind, h]

section Blocks

variable (w : World V R M) (c : ComposerId)

@[simp]
theorem outcome_pure (b : β) : (pure b : Run V R M β).outcome w = (.ok b, w) := rfl

@[simp]
theorem outcome_throw (halt : Halt) : (throw halt : Run V R M β).outcome w = (.error halt, w) := rfl

@[simp]
theorem outcome_fail (f : Fault) : (fail f : Run V R M β).outcome w = (.error (.fault f), w) := rfl

@[simp]
theorem outcome_record (e : Event V R) :
    (record e : Run V R M Unit).outcome w = (.ok (), w.note e) :=
  rfl

@[simp]
theorem outcome_desk : (desk c : Run V R M _).outcome w = (.ok (w.desk c), w) := rfl

@[simp]
theorem outcome_setDesk (d : Desk V R) :
    (setDesk c d : Run V R M Unit).outcome w = (.ok (), w.putDesk c d) := rfl

@[simp]
theorem outcome_cache : (cache c : Run V R M _).outcome w = (.ok (w.cache c), w) := rfl

@[simp]
theorem outcome_setCache (k : QueryCache (AnyObject V R)) :
    (setCache c k : Run V R M Unit).outcome w = (.ok (), w.putCache c k) := rfl

@[simp]
theorem outcome_clear : (clear c : Run V R M Unit).outcome w = (.ok (), w.clear c) := rfl

@[simp]
theorem outcome_update (f : M → M) :
    (modify fun w => { w with memory := f w.memory } : Run V R M Unit).outcome w =
      (.ok (), { w with memory := f w.memory }) := rfl

end Blocks

end Run

end JointAnalysis
