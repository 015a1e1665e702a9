import JointAnalysis.Query.Kind

/-!
# Keys of queries

A query is known by what it asks for, about which term and at which edge.
-/

namespace JointAnalysis

/-- A question of some kind about a term at an edge. -/
structure QueryKey where
  term : TermId
  edge : EdgeId
  kind : QueryKind
  deriving DecidableEq, Repr

namespace QueryKey

/-- A key in listings: `Value(t1 @ e0)`. -/
def text (k : QueryKey) : String :=
  s!"{k.kind.text}({k.term.text} @ {k.edge.text})"

/-- Keys are ordered by term, then by edge, then by kind. -/
def le (j k : QueryKey) : Bool :=
  if j.term.index = k.term.index then
    if j.edge.index = k.edge.index then j.kind.rank ≤ k.kind.rank
    else j.edge.index < k.edge.index
  else j.term.index < k.term.index

/-- The keys in ascending order. -/
def sort (keys : List QueryKey) : List QueryKey := keys.mergeSort le

/-- The number of different keys in a list. -/
def countDistinct (keys : List QueryKey) : Nat := keys.eraseDups.length

end QueryKey

end JointAnalysis
