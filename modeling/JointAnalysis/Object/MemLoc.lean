import JointAnalysis.Object.Routing

/-!
# Locations in memory

A location denotes the slots of a region at an index, or at every index if it has none. The place of
a function's result is the whole of the storage for the result. Questions about the region and the
index of a location are put before the arbiter.
-/

namespace JointAnalysis

variable {m : Type → Type} [Monad m] [MonadExceptOf Fault m]
variable {V R : Type} [ValueDomain V] [RegionDomain V R]

/-- How the place of a function's result relates to another plain location: whether they are the
same, or, for a slot, that they are apart. -/
def Cell.resultRelation (edge : EdgeId) : Cell V R → Cell V R → Option Bool
  | .result f, .result g => some (f = g)
  | .result f, .slot s => apart f s
  | .slot s, .result f => apart f s
  | .slot _, .slot _ => none
where
  /-- A slot in a region that is apart from the storage for a result is apart from its place. -/
  apart (f : FunctionName) (s : Slot V R) : Option Bool :=
    match MemRegion.resultRelation edge (.plain (.result f)) s.region with
    | some false => some false
    | _ => none

namespace Slot

/-- A question about the regions of two slots. -/
def relateRegions (arbiter : Arbiter m V R) (edge : EdgeId) (relation : Relation)
    (a b : MemRegion R) : m Bool :=
  MemRegion.shortcuts.relate arbiter edge (MemRegion.comparison edge) relation a b

/-- A question about the indexes of two slots. -/
def relateIndexes (arbiter : Arbiter m V R) (edge : EdgeId) (relation : Relation)
    (a b : Value V) : m Bool :=
  Value.shortcuts.relate arbiter edge (Value.comparison edge) relation a b

omit [MonadExceptOf Fault m] [ValueDomain V] in
/-- A question about the region of a slot. -/
def testRegion (arbiter : Arbiter m V R) (edge : EdgeId) (test : Test) (a : MemRegion R) : m Bool :=
  arbiter.test .memRegion (MemRegion.comparison edge) test a

omit [MonadExceptOf Fault m] [RegionDomain V R] in
/-- A question about the index of a slot. -/
def testIndex (arbiter : Arbiter m V R) (edge : EdgeId) (test : Test) (a : Value V) : m Bool :=
  arbiter.test .value (Value.comparison edge) test a

/-- Whether two slots may overlap. Slots of which one has no index overlap if their regions do. -/
def mayEqual (arbiter : Arbiter m V R) (edge : EdgeId) (a b : Slot V R) : m Bool := do
  if ← relateRegions arbiter edge .mayEqual a.region b.region then
    match a.index, b.index with
    | some i, some j => relateIndexes arbiter edge .mayEqual i j
    | _, _ => pure true
  else
    pure false

/-- Whether two slots certainly are one and the same. -/
def mustEqual (arbiter : Arbiter m V R) (edge : EdgeId) (a b : Slot V R) : m Bool := do
  if ← relateRegions arbiter edge .mustEqual a.region b.region then
    match a.index, b.index with
    | none, none => pure true
    | some i, some j => relateIndexes arbiter edge .mustEqual i j
    | _, _ => pure false
  else
    pure false

/-- Whether two slots denote the same set. -/
def equalSet (arbiter : Arbiter m V R) (edge : EdgeId) (a b : Slot V R) : m Bool := do
  if ← relateRegions arbiter edge .equalSet a.region b.region then
    match a.index, b.index with
    | none, none => pure true
    | some i, some j => relateIndexes arbiter edge .equalSet i j
    | _, _ => pure false
  else
    pure false

/-- Whether the first slot denotes a part of what the second denotes. A whole region fits inside an
index only if the index covers everything. -/
def subSet (arbiter : Arbiter m V R) (edge : EdgeId) (a b : Slot V R) : m Bool := do
  if ← relateRegions arbiter edge .subSet a.region b.region then
    match a.index, b.index with
    | _, none => pure true
    | some i, some j => relateIndexes arbiter edge .subSet i j
    | none, some j => testIndex arbiter edge .isFull j
  else
    pure false

/-- The first slot narrowed to what the second denotes as well. A missing index is taken over from
the second slot, which always is a change. -/
def meet (arbiter : Arbiter m V R) (edge : EdgeId) (a b : Slot V R) : m (Met (Slot V R)) := do
  let region ← arbiter.meet .memRegion (MemRegion.comparison edge) a.region b.region
  match a.index, b.index with
  | index, none => pure ⟨⟨region.object, index⟩, region.changed⟩
  | none, some j => pure ⟨⟨region.object, some j⟩, true⟩
  | some i, some j => do
    let index ← arbiter.meet .value (Value.comparison edge) i j
    pure ⟨⟨region.object, some index.object⟩, region.changed || index.changed⟩

omit [MonadExceptOf Fault m] in
/-- Whether a slot denotes everything. -/
def isFull (arbiter : Arbiter m V R) (edge : EdgeId) (a : Slot V R) : m Bool := do
  if ← testRegion arbiter edge .isFull a.region then
    match a.index with
    | none => pure true
    | some i => testIndex arbiter edge .isFull i
  else
    pure false

omit [MonadExceptOf Fault m] in
/-- Whether a slot denotes nothing. -/
def isEmpty (arbiter : Arbiter m V R) (edge : EdgeId) (a : Slot V R) : m Bool := do
  if ← testRegion arbiter edge .isEmpty a.region then
    pure true
  else
    match a.index with
    | none => pure false
    | some i => testIndex arbiter edge .isEmpty i

omit [MonadExceptOf Fault m] [ValueDomain V] in
/-- Whether a slot may still exist: whether its region may. -/
def isLive (arbiter : Arbiter m V R) (edge : EdgeId) (a : Slot V R) : m Bool :=
  testRegion arbiter edge .isLive a.region

/-- A slot in listings: the region and, in brackets, the index. -/
def text (s : Slot V R) : String :=
  match s.index with
  | some i => MemRegion.text s.region ++ "[" ++ Value.text i ++ "]"
  | none => MemRegion.text s.region

end Slot

namespace Cell

/-- A comparison of plain locations, by how function results relate them or else slot by slot. -/
def relate (edge : EdgeId) (slots : Slot V R → Slot V R → m Bool) (x y : Cell V R) : m Bool :=
  match x.resultRelation edge y with
  | some answer => pure answer
  | none => slots x.toSlot y.toSlot

/-- The first plain location narrowed to what the second denotes as well. The place of a function's
result stays as it is unless it changes. -/
def meet (arbiter : Arbiter m V R) (edge : EdgeId) (x y : Cell V R) : m (Met (MemLoc V R)) :=
  match x.resultRelation edge y with
  | some true => pure ⟨.plain x, false⟩
  | some false => pure ⟨.empty, true⟩
  | none => do
    let met ← x.toSlot.meet arbiter edge y.toSlot
    match x, met.changed with
    | .result f, false => pure ⟨.plain (.result f), false⟩
    | _, changed => pure ⟨.plain (.slot met.object), changed⟩

omit [MonadExceptOf Fault m] in
/-- Whether a plain location denotes everything. -/
def isFull (arbiter : Arbiter m V R) (edge : EdgeId) : Cell V R → m Bool
  | .result _ => pure false
  | .slot s => s.isFull arbiter edge

omit [MonadExceptOf Fault m] in
/-- Whether a plain location denotes nothing. -/
def isEmpty (arbiter : Arbiter m V R) (edge : EdgeId) : Cell V R → m Bool
  | .result _ => pure false
  | .slot s => s.isEmpty arbiter edge

omit [MonadExceptOf Fault m] [ValueDomain V] in
/-- Whether a plain location may still exist. -/
def isLive (arbiter : Arbiter m V R) (edge : EdgeId) : Cell V R → m Bool
  | .result _ => pure true
  | .slot s => s.isLive arbiter edge

/-- The term from which a plain location was built: a slot without index is named by whatever names
its region. -/
def base : Cell V R → Option TermId
  | .slot ⟨region, none⟩ => MemRegion.base region
  | _ => none

/-- A plain location in listings. -/
def text : Cell V R → String
  | .result f => "result(" ++ f.text ++ ")"
  | .slot s => s.text

end Cell

namespace MemLoc

/-- How plain locations compare at an edge. -/
def comparison (arbiter : Arbiter m V R) (edge : EdgeId) : Comparison m (Cell V R) where
  mayEqual := Cell.relate edge (Slot.mayEqual arbiter edge)
  mustEqual := Cell.relate edge (Slot.mustEqual arbiter edge)
  equalSet := Cell.relate edge (Slot.equalSet arbiter edge)
  subSet := Cell.relate edge (Slot.subSet arbiter edge)
  meet := Cell.meet arbiter edge
  isFull := Cell.isFull arbiter edge
  isEmpty := Cell.isEmpty arbiter edge
  isLive := Cell.isLive arbiter edge
  meetsPairwise := false

/-- How function results relate two locations, if one of them is the place of a function's
result. -/
def resultRelation (edge : EdgeId) : MemLoc V R → MemLoc V R → Option Bool
  | .plain x, .plain y => x.resultRelation edge y
  | _, _ => none

/-- The region and index of a location, if it is a plain one. -/
def slot? (l : MemLoc V R) : Option (Slot V R) := l.plain?.map Cell.toSlot

/-- The term from which a location was built. -/
def base (l : MemLoc V R) : Option TermId :=
  AbstractObject.base Cell.base l

/-- A location in listings. -/
def text (l : MemLoc V R) : String :=
  AbstractObject.text "FullMemLoc" "EmptyMemLoc" Cell.text l

/-- What is settled about locations in advance. -/
def shortcuts : Shortcuts V R .memLoc where
  results := resultRelation
  base := base

end MemLoc

end JointAnalysis
