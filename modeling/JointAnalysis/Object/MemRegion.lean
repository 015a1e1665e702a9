import JointAnalysis.Object.Value

/-!
# Regions of memory

The storage for the result of a function is disjoint from the storage for the result of any other
function and from every leaf that denotes neither everything nor nothing.
-/

namespace JointAnalysis

namespace Storage

variable {V R : Type} [RegionDomain V R]

/-- How the storage for a function's result relates to another plain region: whether they are the
same. There is no answer between two leaves, nor for a leaf that denotes everything or nothing. -/
def resultRelation (edge : EdgeId) : Storage R → Storage R → Option Bool
  | .result f, .result g => some (f = g)
  | .result _, .leaf r => apart r
  | .leaf r, .result _ => apart r
  | .leaf _, .leaf _ => none
where
  /-- A leaf that is neither full nor empty is apart from every result. -/
  apart (r : R) : Option Bool :=
    if RegionDomain.isFull edge r || RegionDomain.isEmpty edge r then none else some false

/-- Whether two plain regions may overlap. -/
def mayEqual (edge : EdgeId) (x y : Storage R) : Bool :=
  match resultRelation edge x y, x, y with
  | some answer, _, _ => answer
  | none, .leaf r, .leaf s => RegionDomain.mayEqual edge r s
  | none, .result _, .leaf r => !RegionDomain.isEmpty edge r
  | none, .leaf r, .result _ => !RegionDomain.isEmpty edge r
  | none, .result _, .result _ => true

/-- Whether two plain regions are certainly one and the same. -/
def mustEqual (edge : EdgeId) (x y : Storage R) : Bool :=
  match resultRelation edge x y, x, y with
  | some answer, _, _ => answer
  | none, .leaf r, .leaf s => RegionDomain.mustEqual edge r s
  | none, _, _ => false

/-- Whether two plain regions denote the same set. -/
def equalSet (edge : EdgeId) (x y : Storage R) : Bool :=
  match resultRelation edge x y, x, y with
  | some answer, _, _ => answer
  | none, .leaf r, .leaf s => RegionDomain.equalSet edge r s
  | none, _, _ => false

/-- Whether the first plain region denotes a part of what the second denotes. -/
def subSet (edge : EdgeId) (x y : Storage R) : Bool :=
  match resultRelation edge x y, x, y with
  | some answer, _, _ => answer
  | none, .leaf r, .leaf s => RegionDomain.subSet edge r s
  | none, .result _, .leaf r => RegionDomain.isFull edge r
  | none, .leaf r, .result _ => RegionDomain.isEmpty edge r
  | none, .result _, .result _ => false

/-- The first plain region narrowed to what the second denotes as well. -/
def meet (edge : EdgeId) (x y : Storage R) : Met (MemRegion R) :=
  match resultRelation edge x y, x, y with
  | some true, _, _ => ⟨.plain x, false⟩
  | some false, _, _ => ⟨.empty, true⟩
  | none, .result _, .leaf r =>
    if RegionDomain.isEmpty edge r then ⟨.empty, true⟩ else ⟨.plain x, false⟩
  | none, .leaf r, .result f =>
    if RegionDomain.isFull edge r then ⟨.plain (.result f), true⟩ else ⟨.plain x, false⟩
  | none, .leaf r, .leaf s =>
    let met := RegionDomain.meet edge r s
    ⟨.plain (.leaf met.object), met.changed⟩
  | none, .result _, .result _ => ⟨.plain x, false⟩

/-- Whether a plain region denotes everything. -/
def isFull (edge : EdgeId) : Storage R → Bool
  | .result _ => false
  | .leaf r => RegionDomain.isFull edge r

/-- Whether a plain region denotes nothing. -/
def isEmpty (edge : EdgeId) : Storage R → Bool
  | .result _ => false
  | .leaf r => RegionDomain.isEmpty edge r

/-- Whether a plain region may still be allocated. -/
def isLive (edge : EdgeId) : Storage R → Bool
  | .result _ => true
  | .leaf r => RegionDomain.isLive edge r

/-- The size of a plain region; that of a function's result is unknown. -/
def size (edge : EdgeId) : Storage R → Value V
  | .result _ => .full
  | .leaf r => RegionDomain.size edge r

/-- The term from which a plain region was built. -/
def base : Storage R → Option TermId
  | .result _ => none
  | .leaf r => RegionDomain.base r

/-- A plain region in listings. -/
def text : Storage R → String
  | .result f => "result(" ++ f.text ++ ")"
  | .leaf r => RegionDomain.text r

end Storage

namespace MemRegion

variable {V R : Type} [RegionDomain V R]

/-- How plain regions compare at an edge. -/
def comparison {m : Type → Type} [Monad m] (edge : EdgeId) : Comparison m (Storage R) where
  mayEqual x y := pure (x.mayEqual edge y)
  mustEqual x y := pure (x.mustEqual edge y)
  equalSet x y := pure (x.equalSet edge y)
  subSet x y := pure (x.subSet edge y)
  meet x y := pure (x.meet edge y)
  isFull x := pure (x.isFull edge)
  isEmpty x := pure (x.isEmpty edge)
  isLive x := pure (x.isLive edge)
  meetsPairwise := true

/-- How function results relate two regions, if one of them is the storage for a function's
result. -/
def resultRelation (edge : EdgeId) : MemRegion R → MemRegion R → Option Bool
  | .plain x, .plain y => x.resultRelation edge y
  | _, _ => none

/-- The size of a region; the sizes of a combination's children are combined in the same way. -/
def size (edge : EdgeId) : MemRegion R → Value V :=
  AbstractObject.fold {
    full := .full
    empty := .empty
    plain := Storage.size edge
    combined := .combined }

/-- The term from which a region was built. -/
def base (r : MemRegion R) : Option TermId :=
  AbstractObject.base Storage.base r

/-- A region in listings. -/
def text (r : MemRegion R) : String :=
  AbstractObject.text "FullRegion" "EmptyRegion" Storage.text r

end MemRegion

end JointAnalysis
