import JointAnalysis.Interchange.Json

/-!
# Numbers in JSON

A whole number is an integer if it fits a 64-bit word, signed or unsigned; a negative zero and whole
numbers outside that range are floating-point constants, as decimals are.

A decimal is read with one rounding for its digits and one for the scaling by a power of ten. Of
digits that exceed a 64-bit word the front counts.
-/

namespace JointAnalysis.Numeral

/-- The integer that a numeral denotes, if it denotes one. -/
def integer? : Numeral → Option Int
  | .whole false n => if n < UInt64.size then some n else none
  | .whole true n => if 0 < n ∧ n ≤ Nat.pow 2 63 then some (-n) else none
  | .decimal .. => none

/-- The leading digits of a decimal that fit a 64-bit word, with the power of ten that makes up for
the others. -/
structure Significand where
  digits : Nat
  exponent : Int

namespace Significand

/-- Whether one more digit fits. -/
def fits (s : Significand) (digit : Nat) : Bool := s.digits * 10 + digit < UInt64.size

/-- Take the digits before the point. A digit that does not fit, and all after it, only move the
point. -/
def takeInteger (s : Significand) : List Char → Significand
  | [] => s
  | c :: rest =>
    let digit := c.toNat - '0'.toNat
    if s.fits digit then takeInteger ⟨s.digits * 10 + digit, s.exponent⟩ rest
    else ⟨s.digits, s.exponent + (rest.length + 1 : Nat)⟩

/-- Take the digits after the point. A digit that does not fit, and all after it, are dropped. -/
def takeFraction (s : Significand) : List Char → Significand
  | [] => s
  | c :: rest =>
    let digit := c.toNat - '0'.toNat
    if s.fits digit then takeFraction ⟨s.digits * 10 + digit, s.exponent - 1⟩ rest
    else s

/-- A power of ten that a floating-point constant can hold. -/
def tenTo (n : Nat) : Float := Float.ofScientific 1 false n

/-- Scale by a power of ten. Exponents that no power of ten reaches are divided off in portions. -/
def scale : Nat → Float → Int → Float
  | 0, _, _ => 0
  | portions + 1, x, e =>
    if 0 ≤ e then x * tenTo e.toNat
    else if -308 ≤ e then x / tenTo e.natAbs
    else scale portions (x / tenTo 308) (e + 308)

end Significand

/-- The floating-point constant that a numeral denotes. -/
def toBinary64 (n : Numeral) : Binary64 :=
  let (negative, s) :=
    match n with
    | .whole negative magnitude =>
      (negative, Significand.takeInteger ⟨0, 0⟩ (Nat.toDigits 10 magnitude))
    | .decimal negative integer fraction exponent =>
      let s := (Significand.takeInteger ⟨0, 0⟩ integer).takeFraction fraction
      (negative, ⟨s.digits, s.exponent + exponent⟩)
  let x := Significand.scale 4 (Float.ofNat s.digits) s.exponent
  ⟨(if negative then -x else x).toBits⟩

/-- The numeral with the fewest digits that denotes a finite floating-point constant. -/
def ofBinary64? (x : Binary64) : Option Numeral :=
  if x.isNaN || x.isInfinite then none
  else if x.isZero then some (.decimal x.negative ['0'] [] 0)
  else
    let d := x.rounding.shortest
    some (.decimal x.negative (Nat.toDigits 10 d.digits) [] d.exponent)

end JointAnalysis.Numeral
