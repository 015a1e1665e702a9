import JointAnalysis.Domain.Values
import JointAnalysis.Object.MemRegion

/-!
# Domains of regions

Three kinds of region leaves: placed regions, which form a flat lattice over their names, sets of
allocation sites, and named blocks. Leaves of different kinds know nothing about each other.
-/

namespace JointAnalysis

/-- A region known by its name, no region, or any region. -/
abbrev Place := Flat String

namespace Place

/-- The size of a placed region: eight if it has a name. -/
def size : Place → Value ValueLeaf
  | .bottom => Value.impossible
  | .exactly _ => Value.constant 8
  | .top => Value.unknown

/-- A placed region in listings. -/
def text (p : Place) : String := Flat.text "nowhere" "anywhere" (fun name => name) p

end Place

/-- A set of allocation sites. At some edges the set is known to be live, and at some it stands for
everything. -/
structure SiteSet where
  names : List String
  liveAt : List EdgeId
  fullAt : List EdgeId
  size : Value ValueLeaf
  deriving Repr

namespace SiteSet

/-- Whether two sets have a site in common. -/
def mayEqual (s t : SiteSet) : Bool := s.names.any (· ∈ t.names)

/-- Whether two sets hold the same single site. -/
def mustEqual (s t : SiteSet) : Bool := s.names.length = 1 && s.names = t.names

/-- Whether the second set holds every site of the first. -/
def subSet (s t : SiteSet) : Bool := s.names.all (· ∈ t.names)

/-- The first set without the sites that the second does not hold. -/
def meet (s t : SiteSet) : Met SiteSet :=
  ⟨{ s with names := s.names.filter (· ∈ t.names) }, !s.subSet t⟩

/-- A set in listings. -/
def text (s : SiteSet) : String := "<" ++ "+".intercalate s.names ++ ">"

end SiteSet

/-- A leaf of a region object. -/
inductive RegionLeaf where
  /-- A placed region, whether it is live, and the term from which it was built. -/
  | placed (place : Place) (live : Bool) (base : Option TermId)
  /-- A set of allocation sites and the term from which it was built. -/
  | sites (set : SiteSet) (base : Option TermId)
  /-- A block of memory of which only the name is known. -/
  | block (name : String)
  deriving Repr

namespace RegionLeaf

/-- Whether two leaves may denote the same region. -/
def mayEqual : RegionLeaf → RegionLeaf → Bool
  | .placed a _ _, .placed b _ _ => a.mayEqual b
  | .sites s _, .sites t _ => s.mayEqual t
  | .block a, .block b => a = b
  | _, _ => true

/-- Whether two leaves certainly denote one and the same region. -/
def mustEqual : RegionLeaf → RegionLeaf → Bool
  | .placed a _ _, .placed b _ _ => a.mustEqual b
  | .sites s _, .sites t _ => s.mustEqual t
  | .block a, .block b => a = b
  | _, _ => false

/-- Whether two leaves denote the same set of regions. -/
def equalSet : RegionLeaf → RegionLeaf → Bool
  | .placed a _ _, .placed b _ _ => a = b
  | .sites s _, .sites t _ => s.subSet t && t.subSet s
  | .block a, .block b => a = b
  | _, _ => false

/-- Whether the first leaf denotes a part of what the second denotes. -/
def subSet : RegionLeaf → RegionLeaf → Bool
  | .placed a _ _, .placed b _ _ => a.subSet b
  | .sites s _, .sites t _ => s.subSet t
  | .block a, .block b => a = b
  | _, _ => false

/-- The first leaf narrowed to what the second denotes as well. It stays as it is beside a leaf of
another kind and beside a block, and all else that is known of it is kept. -/
def meet : RegionLeaf → RegionLeaf → Met RegionLeaf
  | .placed a live base, .placed b _ _ =>
    let met := a.meet b
    ⟨.placed met.object live base, met.changed⟩
  | .sites s base, .sites t _ =>
    let met := s.meet t
    ⟨.sites met.object base, met.changed⟩
  | leaf, _ => ⟨leaf, false⟩

/-- Whether a leaf denotes every region at an edge. -/
def isFull (edge : EdgeId) : RegionLeaf → Bool
  | .placed a _ _ => a = .top
  | .sites s _ => edge ∈ s.fullAt
  | .block _ => false

/-- Whether a leaf denotes no region. -/
def isEmpty : RegionLeaf → Bool
  | .placed a _ _ => a = .bottom
  | .sites s _ => s.names.isEmpty
  | .block _ => false

/-- Whether a region of the leaf may still be allocated at an edge. -/
def isLive (edge : EdgeId) : RegionLeaf → Bool
  | .placed _ live _ => live
  | .sites s _ => edge ∈ s.liveAt
  | .block _ => true

/-- The size of the regions that a leaf denotes. -/
def size : RegionLeaf → Value ValueLeaf
  | .placed a _ _ => Place.size a
  | .sites s _ => s.size
  | .block _ => .full

/-- The term from which a leaf was built. -/
def base : RegionLeaf → Option TermId
  | .placed _ _ base => base
  | .sites _ base => base
  | .block _ => none

/-- A leaf in listings. -/
def text : RegionLeaf → String
  | .placed a _ _ => Place.text a
  | .sites s _ => s.text
  | .block name => "#" ++ name

end RegionLeaf

instance : RegionDomain ValueLeaf RegionLeaf where
  mayEqual _ := RegionLeaf.mayEqual
  mustEqual _ := RegionLeaf.mustEqual
  equalSet _ := RegionLeaf.equalSet
  subSet _ := RegionLeaf.subSet
  meet _ := RegionLeaf.meet
  isFull := RegionLeaf.isFull
  isEmpty _ := RegionLeaf.isEmpty
  isLive := RegionLeaf.isLive
  size _ := RegionLeaf.size
  base := RegionLeaf.base
  text := RegionLeaf.text

/-- The region of the given name. -/
def MemRegion.named (name : String) : MemRegion RegionLeaf :=
  .plain (.leaf (.placed (.exactly name) true none))

/-- The placed region of which nothing is known. -/
def MemRegion.anywhere : MemRegion RegionLeaf :=
  .plain (.leaf (.placed .top true none))

end JointAnalysis
