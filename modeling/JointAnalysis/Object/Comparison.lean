import JointAnalysis.Object.Basic
import JointAnalysis.Query.Fault

/-!
# Comparing and meeting abstract objects

A `Comparison` says how the plain objects of a family compare. From it come the comparisons of all
objects of the family. The built-in objects are decided first. Two combinations are compared child
by child; a combination and a plain object are compared by taking the plain object against every
child. The mode of a combination says whether one child decides for it or all of them together.

Answers are given in a monad `m`, since plain objects may have parts about which someone else is
asked, and since some comparisons of combinations are faults.
-/

namespace JointAnalysis

/-- An object narrowed by a meet, and whether the meet reports a change. -/
structure Met (β : Type) where
  object : β
  changed : Bool
  deriving Repr

/-- How the plain objects of a family are compared, tested and met. -/
structure Comparison (m : Type → Type) (α : Type) where
  /-- Whether two objects may denote a common entity. -/
  mayEqual : α → α → m Bool
  /-- Whether two objects certainly denote one and the same entity. -/
  mustEqual : α → α → m Bool
  /-- Whether two objects denote the same set. -/
  equalSet : α → α → m Bool
  /-- Whether the first object denotes a part of what the second denotes. -/
  subSet : α → α → m Bool
  /-- The first object narrowed to what the second denotes as well. -/
  meet : α → α → m (Met (AbstractObject α))
  isFull : α → m Bool
  isEmpty : α → m Bool
  isLive : α → m Bool
  /-- Whether two combinations are met child by child. Otherwise the whole of the second is met into
  every child of the first. -/
  meetsPairwise : Bool

/-- Ask in turn until an answer is `hit`. The result is `hit` if one is, and the other truth value
if none is. -/
def firstHit {m : Type → Type} [Monad m] (hit : Bool) : List (m Bool) → m Bool
  | [] => pure !hit
  | ask :: rest => do
    if (← ask) == hit then
      pure hit
    else
      firstHit hit rest

/-- Carry out meets in turn and collect the objects. There is a change if one of them reports
one. -/
def Met.collect {m : Type → Type} [Monad m] {β : Type} : List (m (Met β)) → m (Met (List β))
  | [] => pure ⟨[], false⟩
  | meet :: rest => do
    let first ← meet
    let others ← Met.collect rest
    pure ⟨first.object :: others.object, first.changed || others.changed⟩

namespace AbstractObject

variable {m : Type → Type} [Monad m] {α : Type}

/-- Whether the object denotes everything. -/
def isFull (c : Comparison m α) : AbstractObject α → m Bool :=
  fold {
    full := pure true
    empty := pure false
    plain := c.isFull
    combined := fun mode answers => firstHit mode.isUnion answers }

/-- Whether the object denotes nothing. -/
def isEmpty (c : Comparison m α) : AbstractObject α → m Bool :=
  fold {
    full := pure false
    empty := pure true
    plain := c.isEmpty
    combined := fun mode answers => firstHit (!mode.isUnion) answers }

/-- Whether what the object denotes may still exist. -/
def isLive (c : Comparison m α) : AbstractObject α → m Bool :=
  fold {
    full := pure true
    empty := pure false
    plain := c.isLive
    combined := fun mode answers => firstHit mode.isUnion answers }

/-- Whether an object may equal the plain object `y`. -/
def mayEqualPlain (c : Comparison m α) (y : α) : AbstractObject α → m Bool :=
  fold {
    full := pure true
    empty := pure false
    plain := fun x => c.mayEqual x y
    combined := fun mode answers => firstHit mode.isUnion answers }

/-- Whether an object must equal the plain object `y`. -/
def mustEqualPlain (c : Comparison m α) (y : α) : AbstractObject α → m Bool :=
  fold {
    full := pure false
    empty := pure false
    plain := fun x => c.mustEqual x y
    combined := fun mode answers => firstHit (!mode.isUnion) answers }

/-- Whether an object denotes the same set as the plain object `y`. -/
def equalSetPlain (c : Comparison m α) (y : α) : AbstractObject α → m Bool :=
  fold {
    full := c.isFull y
    empty := c.isEmpty y
    plain := fun x => c.equalSet x y
    combined := fun _ answers => firstHit false answers }

/-- Whether an object denotes a part of what the plain object `y` denotes. -/
def subSetPlain (c : Comparison m α) (y : α) : AbstractObject α → m Bool :=
  fold {
    full := c.isFull y
    empty := pure true
    plain := fun x => c.subSet x y
    combined := fun mode answers => firstHit mode.isUnion answers }

/-- Whether an object denotes at least what the plain object `x` denotes. -/
def superSetPlain (c : Comparison m α) (x : α) : AbstractObject α → m Bool :=
  fold {
    full := pure true
    empty := c.isEmpty x
    plain := fun y => c.subSet x y
    combined := fun mode answers => firstHit mode.isUnion answers }

/-- The plain object `x` narrowed to what an object denotes. Narrowing to a combination gives a
combination and always reports a change. -/
def meetIntoPlain (c : Comparison m α) (x : α) : AbstractObject α → m (Met (AbstractObject α)) :=
  fold {
    full := pure ⟨.plain x, false⟩
    empty := pure ⟨.empty, true⟩
    plain := fun y => c.meet x y
    combined := fun mode meets => do
      let met ← Met.collect meets
      pure ⟨.combined mode met.object, true⟩ }

mutual

/-- Whether two objects may denote a common entity. Combinations of different lengths are taken
to do so if the first is a union. -/
def mayEqual (c : Comparison m α) : AbstractObject α → AbstractObject α → m Bool
  | .empty, _ => pure false
  | _, .empty => pure false
  | .full, _ => pure true
  | _, .full => pure true
  | a, .plain y => a.mayEqualPlain c y
  | .plain x, b => b.mayEqualPlain c x
  | .combined mode as, .combined _ bs =>
    if as.length = bs.length then firstHit mode.isUnion (mayEqualPairs c as bs)
    else pure mode.isUnion

/-- The answers of `mayEqual` for two lists, position by position. -/
def mayEqualPairs (c : Comparison m α) :
    List (AbstractObject α) → List (AbstractObject α) → List (m Bool)
  | a :: as, b :: bs => mayEqual c a b :: mayEqualPairs c as bs
  | _, _ => []

end

mutual

/-- Whether two objects certainly denote one and the same entity. The built-in objects never do,
nor do combinations of different lengths. -/
def mustEqual (c : Comparison m α) : AbstractObject α → AbstractObject α → m Bool
  | .full, _ => pure false
  | .empty, _ => pure false
  | _, .full => pure false
  | _, .empty => pure false
  | a, .plain y => a.mustEqualPlain c y
  | .plain x, b => b.mustEqualPlain c x
  | .combined mode as, .combined _ bs =>
    if as.length = bs.length then firstHit (!mode.isUnion) (mustEqualPairs c as bs)
    else pure false

/-- The answers of `mustEqual` for two lists, position by position. -/
def mustEqualPairs (c : Comparison m α) :
    List (AbstractObject α) → List (AbstractObject α) → List (m Bool)
  | a :: as, b :: bs => mustEqual c a b :: mustEqualPairs c as bs
  | _, _ => []

end

variable [MonadExceptOf Fault m]

mutual

/-- Whether two objects denote the same set. Combinations have to have equally many children. -/
def equalSet (c : Comparison m α) : AbstractObject α → AbstractObject α → m Bool
  | .full, b => b.isFull c
  | a, .full => a.isFull c
  | .empty, b => b.isEmpty c
  | a, .empty => a.isEmpty c
  | a, .plain y => a.equalSetPlain c y
  | .plain x, b => b.equalSetPlain c x
  | .combined _ as, .combined _ bs =>
    if as.length = bs.length then firstHit false (equalSetPairs c as bs)
    else throw (.unequalCounts (.relation .equalSet) as.length bs.length)

/-- The answers of `equalSet` for two lists, position by position. -/
def equalSetPairs (c : Comparison m α) :
    List (AbstractObject α) → List (AbstractObject α) → List (m Bool)
  | a :: as, b :: bs => equalSet c a b :: equalSetPairs c as bs
  | _, _ => []

end

mutual

/-- Whether the first object denotes a part of what the second denotes. Combinations have to have
equally many children. -/
def subSet (c : Comparison m α) : AbstractObject α → AbstractObject α → m Bool
  | .empty, _ => pure true
  | _, .full => pure true
  | .full, b => b.isFull c
  | a, .empty => a.isEmpty c
  | a, .plain y => a.subSetPlain c y
  | .plain x, b => b.superSetPlain c x
  | .combined mode as, .combined _ bs =>
    if as.length = bs.length then firstHit mode.isUnion (subSetPairs c as bs)
    else throw (.unequalCounts (.relation .subSet) as.length bs.length)

/-- The answers of `subSet` for two lists, position by position. -/
def subSetPairs (c : Comparison m α) :
    List (AbstractObject α) → List (AbstractObject α) → List (m Bool)
  | a :: as, b :: bs => subSet c a b :: subSetPairs c as bs
  | _, _ => []

end

/-- What the `count` children of a combination are met with: the children of the other object if it
is a combination and combinations are met child by child, and the other object itself otherwise. -/
def peers (c : Comparison m α) (count : Nat) (other : AbstractObject α) :
    m (List (AbstractObject α)) :=
  match c.meetsPairwise, other with
  | true, .combined _ others =>
    if count = others.length then pure others
    else throw (.unequalCounts .meet count others.length)
  | _, _ => pure (List.replicate count other)

mutual

/-- The first object narrowed to what the second denotes as well. -/
def meet (c : Comparison m α) :
    AbstractObject α → AbstractObject α → m (Met (AbstractObject α))
  | .empty, _ => pure ⟨.empty, false⟩
  | a, .full => pure ⟨a, false⟩
  | .full, b => do
    let whole ← b.isFull c
    pure ⟨b, !whole⟩
  | _, .empty => pure ⟨.empty, true⟩
  | .plain x, b => b.meetIntoPlain c x
  | .combined mode as, b => do
    let others ← peers c as.length b
    let met ← Met.collect (meetPairs c as others)
    pure ⟨.combined mode met.object, met.changed⟩

/-- The meets of two lists, position by position. -/
def meetPairs (c : Comparison m α) :
    List (AbstractObject α) → List (AbstractObject α) → List (m (Met (AbstractObject α)))
  | a :: as, b :: bs => meet c a b :: meetPairs c as bs
  | _, _ => []

end

/-- The answer to a comparison of two objects. -/
def relate (c : Comparison m α) (relation : Relation) (a b : AbstractObject α) : m Bool :=
  match relation with
  | .mayEqual => a.mayEqual c b
  | .mustEqual => a.mustEqual c b
  | .equalSet => a.equalSet c b
  | .subSet => a.subSet c b

omit [MonadExceptOf Fault m] in
/-- The answer to a question about one object. -/
def test (c : Comparison m α) (test : Test) (a : AbstractObject α) : m Bool :=
  match test with
  | .isFull => a.isFull c
  | .isEmpty => a.isEmpty c
  | .isLive => a.isLive c

end AbstractObject

end JointAnalysis
