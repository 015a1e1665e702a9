/-!
# Shortest decimals

The real number `m * 2 ^ q` stands for every real that rounds to it. `shortest` finds a decimal with
as few digits as possible among those reals, and of several such decimals the one nearest to the
number itself; of two that are equally near it takes the upper one. All tests are made in exact
arithmetic on natural numbers.
-/

namespace JointAnalysis.Text

/-- The decimal `digits * 10 ^ exponent`. -/
structure Decimal where
  digits : Nat
  exponent : Int
  deriving DecidableEq, Repr

/-- A positive real given by the fraction `value / unit`, with the ends `low / unit` and
`high / unit` of the reals that round to it. -/
structure Rounding where
  value : Nat
  low : Nat
  high : Nat
  unit : Nat
  /-- Whether the two ends belong to the reals that round to the value. -/
  closed : Bool

namespace Rounding

/-- The reals that round to `m * 2 ^ q` in a binary format. The gap below is half as wide when
`m` is the least mantissa of its binade, which `narrow` says. Ends belong to even mantissas. -/
def ofBinary (m : Nat) (q : Int) (narrow : Bool) : Rounding :=
  let scale := Nat.pow 2 (q - 2).toNat
  { value := 4 * m * scale
    low := (4 * m - if narrow then 1 else 2) * scale
    high := (4 * m + 2) * scale
    unit := Nat.pow 2 (2 - q).toNat
    closed := m % 2 == 0 }

/-- Whether the decimal `d * 10 ^ e` rounds to the value. -/
def admits (r : Rounding) (d : Nat) (e : Int) : Bool :=
  let point := d * Nat.pow 10 e.toNat * r.unit
  let scale := Nat.pow 10 (-e).toNat
  if r.closed then r.low * scale ≤ point && point ≤ r.high * scale
  else r.low * scale < point && point < r.high * scale

/-- The multiple of `10 ^ e` next below the value, or the value itself. -/
def below (r : Rounding) (e : Int) : Nat :=
  r.value * Nat.pow 10 (-e).toNat / (r.unit * Nat.pow 10 e.toNat)

/-- Whether the value is at least as near to the multiple above it as to the one below it. -/
def nearerAbove (r : Rounding) (e : Int) : Bool :=
  let d := r.below e
  (2 * d + 1) * (r.unit * Nat.pow 10 e.toNat) ≤ 2 * (r.value * Nat.pow 10 (-e).toNat)

/-- The best multiple of `10 ^ e` that rounds to the value, if there is one. -/
def onGrid (r : Rounding) (e : Int) : Option Nat :=
  let d := r.below e
  match r.admits d e, r.admits (d + 1) e with
  | true, true => some (if r.nearerAbove e then d + 1 else d)
  | true, false => some d
  | false, true => some (d + 1)
  | false, false => none

/-- The least `k` with `value < unit * 10 ^ k`. -/
def magnitude (r : Rounding) : Int :=
  let guess : Int := (Nat.toDigits 10 r.value).length - (Nat.toDigits 10 r.unit).length
  if r.value * Nat.pow 10 (-guess).toNat < r.unit * Nat.pow 10 guess.toNat then guess else guess + 1

/-- A decimal of the fewest digits that rounds to the value, the nearest of those. Seventeen digits
suffice for 53-bit mantissas. -/
def shortest (r : Rounding) : Decimal :=
  let k := r.magnitude
  let grid := (List.range 17).findSome? fun n =>
    let e := k - (n + 1 : Nat)
    (r.onGrid e).map (Decimal.mk · e)
  grid.getD ⟨r.below (k - 17), k - 17⟩

end Rounding

/-- The significant digits of a decimal without the zeros at their end, and the position of the
decimal point counted from the first of them. -/
def Decimal.significant (d : Decimal) : List Char × Int :=
  let digits := Nat.toDigits 10 d.digits
  ((digits.reverse.dropWhile (· = '0')).reverse, digits.length + d.exponent)

/-- How a positive decimal is written: positionally, with at least one digit on either side of the
point, if its leading digit stands for a power of ten from `least` to `greatest`; otherwise as one
digit, the rest behind a point, and the exponent. -/
def Decimal.text (d : Decimal) (least greatest : Int) : List Char :=
  let (digits, point) := d.significant
  let lead := point - 1
  if least ≤ lead ∧ lead ≤ greatest then
    if point ≤ 0 then ['0', '.'] ++ List.replicate (-point).toNat '0' ++ digits
    else
      let whole := digits.take point.toNat
      let fraction := digits.drop point.toNat
      whole ++ List.replicate (point.toNat - whole.length) '0' ++ ['.'] ++
        (if fraction.isEmpty then ['0'] else fraction)
  else
    let sign := if lead < 0 then ['-'] else []
    digits.take 1 ++ (if digits.length ≤ 1 then [] else '.' :: digits.drop 1) ++
      ['e'] ++ sign ++ Nat.toDigits 10 lead.natAbs

end JointAnalysis.Text
