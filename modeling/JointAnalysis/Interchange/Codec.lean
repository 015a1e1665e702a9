import JointAnalysis.Interchange.Number
import JointAnalysis.Program.Forest
import JointAnalysis.Query.Config
import JointAnalysis.Query.Kind

/-!
# Programs and settings as JSON

Each type has an encoding and a decoding. A variant without content is written as its name, one with
content as a record whose only field bears the name; a type with one field is written as that field.
Fields that a decoding does not know are ignored.
-/

namespace JointAnalysis

namespace Json

/-- An integer within bounds. -/
def integerIn? (low high : Int) : Json → Option Int
  | .number n => n.integer?.filter fun i => low ≤ i && i ≤ high
  | _ => none

/-- A natural number below a bound. -/
def natBelow? (bound : Nat) (j : Json) : Option Nat :=
  (j.integerIn? 0 (bound - 1)).map Int.toNat

/-- A text. -/
def text? : Json → Option String
  | .text s => some s
  | _ => none

/-- A truth value. -/
def bool? : Json → Option Bool
  | .bool b => some b
  | _ => none

/-- The one of several values whose name is given. -/
def variant? {β : Type} (names : List (String × β)) : Json → Option β
  | .text s => (names.find? (·.1 = s)).map (·.2)
  | _ => none

/-- A field that may be missing: the default then, and nothing if it is there and wrong. -/
def fieldOr? {β : Type} (name : String) (default : β) (decode : Json → Option β) (j : Json) :
    Option β :=
  match j.field? name with
  | none => some default
  | some value => decode value

end Json

/-- The bound of identifiers. -/
def idBound : Nat := UInt32.size

namespace Literal

/-- The encoding of a literal. -/
def toJson : Literal → Json
  | .bool b => .record [("Bool", .bool b)]
  | .int i => .record [("Int", Json.int i.toInt)]
  | .uint u => .record [("UInt", Json.nat u.toNat)]
  | .float f => .record [("Float", Json.ofOption .number (Numeral.ofBinary64? f))]
  | .char c => .record [("Char", .text (String.singleton c))]
  | .str s => .record [("Str", .text s)]
  | .null => .text "Null"

/-- The content of a literal of the given variant. -/
def ofContent? (variant : String) (content : Json) : Option Literal :=
  match variant with
  | "Bool" => content.bool?.map .bool
  | "Int" =>
    (content.integerIn? Int64.minValue.toInt Int64.maxValue.toInt).map fun i => .int (Int64.ofInt i)
  | "UInt" => (content.natBelow? UInt64.size).map fun n => .uint (UInt64.ofNat n)
  | "Float" =>
    match content with
    | .number n => some (.float n.toBinary64)
    | _ => none
  | "Char" => do
    match (← content.text?).toList with
    | [c] => some (.char c)
    | _ => none
  | "Str" => content.text?.map .str
  | _ => none

/-- The literal that an encoding stands for. -/
def ofJson? : Json → Option Literal
  | .text "Null" => some .null
  | .record [(variant, content)] => ofContent? variant content
  | _ => none

end Literal

namespace TermKind

/-- The encoding of the kind of a term. -/
def toJson : TermKind → Json
  | .expression => .text "Expression"
  | .statement => .text "Statement"
  | .declaration => .text "Declaration"
  | .literal l => .record [("Literal", l.toJson)]

/-- The kinds of terms without content. -/
def named : List (String × TermKind) :=
  [("Expression", .expression), ("Statement", .statement), ("Declaration", .declaration)]

/-- The kind of a term that an encoding stands for. -/
def ofJson? : Json → Option TermKind
  | .record [("Literal", content)] => (Literal.ofJson? content).map .literal
  | j => j.variant? named

end TermKind

namespace Term

/-- The encoding of a term. -/
def toJson (t : Term) : Json := .record [("kind", t.kind.toJson), ("label", .text t.label)]

/-- The term that an encoding stands for. -/
def ofJson? (j : Json) : Option Term := do
  let kind ← TermKind.ofJson? (← j.field? "kind")
  let label ← (← j.field? "label").text?
  return ⟨kind, label⟩

end Term

namespace TermId

/-- The encoding of a term's identifier. -/
def toJson (t : TermId) : Json := Json.nat t.index

/-- The term's identifier that an encoding stands for. -/
def ofJson? (j : Json) : Option TermId := (j.natBelow? idBound).map TermId.mk

end TermId

namespace PartId

/-- The encoding of a part's identifier. -/
def toJson (p : PartId) : Json := Json.nat p.index

/-- The part's identifier that an encoding stands for. -/
def ofJson? (j : Json) : Option PartId := (j.natBelow? idBound).map PartId.mk

end PartId

namespace EdgeId

/-- The encoding of an edge's identifier. -/
def toJson (e : EdgeId) : Json := Json.nat e.index

/-- The edge's identifier that an encoding stands for. -/
def ofJson? (j : Json) : Option EdgeId := (j.natBelow? idBound).map EdgeId.mk

end EdgeId

namespace Direction

/-- The encoding of a direction. -/
def toJson (d : Direction) : Json := .text d.text

/-- The direction that an encoding stands for. -/
def ofJson? (j : Json) : Option Direction :=
  j.variant? [("Forward", .forward), ("Backward", .backward)]

end Direction

namespace Mode

/-- The encoding of a mode. -/
def toJson (m : Mode) : Json := .text m.text

/-- The mode that an encoding stands for. -/
def ofJson? (j : Json) : Option Mode := j.variant? [("Union", .union), ("Intersect", .intersect)]

end Mode

namespace CachePolicy

/-- The encoding of a cache policy. -/
def toJson : CachePolicy → Json
  | .retain => .text "Retain"
  | .perTopLevelQuery => .text "PerTopLevelQuery"

/-- The cache policy that an encoding stands for. -/
def ofJson? (j : Json) : Option CachePolicy :=
  j.variant? [("Retain", .retain), ("PerTopLevelQuery", .perTopLevelQuery)]

end CachePolicy

namespace Config

/-- The encoding of a composer's settings. -/
def toJson (c : Config) : Json :=
  .record [("cache_policy", c.cachePolicy.toJson), ("operand_combination", c.operandMode.toJson),
    ("reentrant_resolutions", Json.nat c.reentrantResolutions)]

/-- The settings that an encoding stands for. A missing field has its default. -/
def ofJson? (j : Json) : Option Config := do
  let .record _ := j | none
  let defaults : Config := {}
  let cachePolicy ← j.fieldOr? "cache_policy" defaults.cachePolicy CachePolicy.ofJson?
  let operandMode ← j.fieldOr? "operand_combination" defaults.operandMode Mode.ofJson?
  let reentrantResolutions ←
    j.fieldOr? "reentrant_resolutions" defaults.reentrantResolutions (·.natBelow? UInt64.size)
  return { cachePolicy, operandMode, reentrantResolutions }

end Config

end JointAnalysis
