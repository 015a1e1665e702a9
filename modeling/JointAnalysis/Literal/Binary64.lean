import JointAnalysis.Text.Shortest

/-!
# Floating-point constants

A floating-point constant is kept as its 64 bits, so that two constants can be told apart even where
arithmetic cannot. `Binary64.beq` is the comparison of arithmetic, under which the two zeros are
equal and no not-a-number is equal to anything.
-/

namespace JointAnalysis

/-- A 64-bit binary floating-point constant, by its bits. -/
structure Binary64 where
  bits : UInt64
  deriving DecidableEq, Repr

namespace Binary64

/-- The bits without the sign bit. -/
def magnitude (x : Binary64) : Nat := x.bits.toNat % Nat.pow 2 63

/-- Whether the sign bit is set. -/
def negative (x : Binary64) : Bool := Nat.pow 2 63 ≤ x.bits.toNat

/-- The eleven bits of the biased exponent. -/
def exponentField (x : Binary64) : Nat := x.magnitude / Nat.pow 2 52

/-- The fifty-two bits of the fraction. -/
def fractionField (x : Binary64) : Nat := x.magnitude % Nat.pow 2 52

/-- Whether the constant is one of the two zeros. -/
def isZero (x : Binary64) : Bool := x.magnitude == 0

/-- Whether the constant is not a number. -/
def isNaN (x : Binary64) : Bool := x.exponentField == 2047 && x.fractionField != 0

/-- Whether the constant is one of the two infinities. -/
def isInfinite (x : Binary64) : Bool := x.exponentField == 2047 && x.fractionField == 0

/-- Equality of the numbers: zeros are equal whatever their sign, and not-a-number equals
nothing. -/
def beq (x y : Binary64) : Bool :=
  !x.isNaN && !y.isNaN && (x.bits == y.bits || x.isZero && y.isZero)

/-- The reals that round to the absolute value of a finite constant other than zero. -/
def rounding (x : Binary64) : Text.Rounding :=
  if x.exponentField = 0 then
    Text.Rounding.ofBinary x.fractionField (-1074) false
  else
    Text.Rounding.ofBinary (Nat.pow 2 52 + x.fractionField) (x.exponentField - 1075)
      (x.fractionField == 0 && 1 < x.exponentField)

/-- The shortest text that reads back as the constant. Numbers from a ten-thousandth up to, but not
including, ten to the sixteenth are written positionally. -/
def text (x : Binary64) : List Char :=
  if x.isNaN then "NaN".toList
  else
    let sign := if x.negative then ['-'] else []
    let absolute :=
      if x.isInfinite then "inf".toList
      else if x.isZero then "0.0".toList
      else x.rounding.shortest.text (-4) 15
    sign ++ absolute

end Binary64

end JointAnalysis
