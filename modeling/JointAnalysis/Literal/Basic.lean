import JointAnalysis.Literal.Binary64
import JointAnalysis.Text.Quoted

/-!
# Literals

The constants that can occur in a program. `Literal.agrees` says when two literals are the same
constant: integers agree by the number they denote, whether signed or not, and floating-point
constants by their bits.
-/

namespace JointAnalysis

/-- A constant of the program under analysis. -/
inductive Literal where
  | bool (value : Bool)
  | int (value : Int64)
  | uint (value : UInt64)
  | float (value : Binary64)
  | char (value : Char)
  | str (value : String)
  | null
  deriving DecidableEq, Repr

namespace Literal

/-- The mathematical integer that an integer literal denotes. -/
def integer? : Literal → Option Int
  | .int i => some i.toInt
  | .uint u => some u.toNat
  | _ => none

/-- A signed integer as an unsigned one, unless it is negative. -/
def unsigned? (i : Int64) : Option UInt64 := if 0 ≤ i then some i.toUInt64 else none

/-- Whether two literals are the same constant. -/
def agrees : Literal → Literal → Bool
  | .bool a, .bool b => a == b
  | .int a, .int b => a == b
  | .uint a, .uint b => a == b
  | .int a, .uint b | .uint b, .int a => unsigned? a == some b
  | .float a, .float b => a.bits == b.bits
  | .char a, .char b => a == b
  | .str a, .str b => a == b
  | .null, .null => true
  | _, _ => false

/-- Equality as values of one kind, with the comparison of arithmetic on floating-point
constants. -/
def beq : Literal → Literal → Bool
  | .float a, .float b => a.beq b
  | a, b => a = b

/-- How the literal decides a condition, where it decides one. -/
def truth : Literal → Option Bool
  | .bool b => some b
  | .int i => some (i != 0)
  | .uint u => some (u != 0)
  | .float f => some (!f.isZero)
  | .char c => some (c != '\x00')
  | .str _ => none
  | .null => some false

/-- The literal as it is written in listings. -/
def text : Literal → String
  | .bool b => if b then "true" else "false"
  | .int i => toString i.toInt
  | .uint u => toString u.toNat ++ "u"
  | .float f => String.ofList f.text
  | .char c => String.ofList (Text.quoted '\x27' [c])
  | .str s => String.ofList (Text.quoted '"' s.toList)
  | .null => "null"

end Literal

end JointAnalysis
