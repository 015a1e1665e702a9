import JointAnalysis.Literal.Basic
import Mathlib.Algebra.Ring.Int.Defs

/-!
# When literals are the same constant

Integers are compared as 64-bit words, a signed one with an unsigned one after a conversion that may
refuse. The conversion keeps the number, and refuses only where no unsigned word denotes it:
`Literal.unsigned?_eq_some`. So literals are the same constant if they denote the same integer, or
if they denote none and are equal: `Literal.agrees_iff`. Being the same constant is then an
equivalence, and literals that are the same constant decide a condition alike.
-/

namespace JointAnalysis

/-- A floating-point constant is known by its bits. -/
theorem Binary64.bits_inj {x y : Binary64} : x.bits = y.bits ↔ x = y := by
  cases x
  cases y
  simp

namespace Literal

variable {a b c l : Literal}

/-- A signed integer becomes an unsigned one if and only if that one denotes the same number. -/
theorem unsigned?_eq_some {i : Int64} {u : UInt64} :
    unsigned? i = some u ↔ i.toInt = (u.toNat : Int) := by
  have hsign : 0 ≤ i ↔ 0 ≤ i.toInt := Int64.le_iff_toInt_le
  rw [unsigned?]
  split
  · next hi =>
      have hnumber : (i.toUInt64.toNat : Int) = i.toInt := by
        rw [Int64.toNat_toUInt64_of_le hi, ← Int64.toNat_toInt, Int.toNat_of_nonneg (hsign.1 hi)]
      rw [Option.some_inj, ← UInt64.toNat_inj, ← Int.natCast_inj, hnumber]
  · next hi =>
      -- A negative word has the bits of some unsigned one, which denotes another number.
      have hnegative : i.toInt < 0 := Int.not_le.1 fun h => hi (hsign.2 h)
      have hunsigned : 0 ≤ (u.toNat : Int) := Int.natCast_nonneg _
      constructor
      · intro h
        cases h
      · intro h
        omega

/-- Two literals are the same constant if and only if they denote the same integer, or denote none
and are equal. -/
theorem agrees_iff :
    a.agrees b = true ↔ a.integer? = b.integer? ∧ (a.integer? = none → a = b) := by
  cases a <;> cases b <;>
    simp [agrees.eq_def, integer?, Binary64.bits_inj, unsigned?_eq_some, Int64.toInt_inj,
      UInt64.toNat_inj]
  -- Whichever side the sign is on, it is the signed integer that is converted.
  case uint.int => exact eq_comm

/-- A literal is the same constant as itself. -/
theorem agrees_self (l : Literal) : l.agrees l = true := agrees_iff.2 ⟨rfl, fun _ => rfl⟩

/-- Being the same constant does not depend on the order. -/
theorem agrees_symm (h : a.agrees b = true) : b.agrees a = true := by
  obtain ⟨hinteger, heq⟩ := agrees_iff.1 h
  exact agrees_iff.2 ⟨hinteger.symm, fun hnone => (heq (hinteger.trans hnone)).symm⟩

/-- What is the same constant as a third literal is the same constant. -/
theorem agrees_trans (hab : a.agrees b = true) (hbc : b.agrees c = true) : a.agrees c = true := by
  obtain ⟨hinteger, heq⟩ := agrees_iff.1 hab
  obtain ⟨hinteger', heq'⟩ := agrees_iff.1 hbc
  refine agrees_iff.2 ⟨hinteger.trans hinteger', fun hnone => ?_⟩
  exact (heq hnone).trans (heq' (hinteger.symm.trans hnone))

/-- An integer decides a condition by whether it is zero, however it is written. -/
theorem truth_of_integer {n : Int} (h : l.integer? = some n) : l.truth = some (n != 0) := by
  cases l with
  | int i =>
      cases h
      have hzero : i = 0 ↔ i.toInt = 0 := Int64.toInt_inj.symm
      simp only [truth, bne, beq_eq_decide, hzero]
  | uint u =>
      cases h
      have hzero : u = 0 ↔ (u.toNat : Int) = 0 := by
        rw [← UInt64.toNat_inj, Int.natCast_eq_zero]
        rfl
      simp only [truth, bne, beq_eq_decide, hzero]
  | _ => cases h

/-- Literals that are the same constant decide a condition alike. -/
theorem truth_eq_of_agrees (h : a.agrees b = true) : a.truth = b.truth := by
  obtain ⟨hinteger, heq⟩ := agrees_iff.1 h
  cases hn : a.integer? with
  | none => rw [heq hn]
  | some n => rw [truth_of_integer hn, truth_of_integer (hinteger.symm.trans hn)]

/-- Being the same constant is an equivalence on all literals. A signed and an unsigned integer are
the same constant if and only if they denote the same number, and a literal that denotes no integer
is the same constant as itself only, down to the bits of a floating-point one. Literals that are the
same constant decide a condition alike, or both decide none. -/
theorem agrees_equivalence :
    Equivalence (fun a b : Literal => a.agrees b = true) ∧
    (∀ (i : Int64) (u : UInt64),
      (int i).agrees (uint u) = true ↔ i.toInt = (u.toNat : Int)) ∧
    (∀ a b : Literal,
      a.agrees b = true ↔ a.integer? = b.integer? ∧ (a.integer? = none → a = b)) ∧
    ∀ a b : Literal, a.agrees b = true → a.truth = b.truth := by
  refine ⟨⟨agrees_self, agrees_symm, agrees_trans⟩, ?_, fun _ _ => agrees_iff,
    fun _ _ => truth_eq_of_agrees⟩
  intro i u
  show (unsigned? i == some u) = true ↔ i.toInt = (u.toNat : Int)
  rw [beq_iff_eq, unsigned?_eq_some]

/-- The largest signed integer is the same constant without its sign, and decides a condition alike.
Minus one has the bits of the largest unsigned integer, and is another constant. -/
theorem agrees_at_limits :
    (agrees (.uint 9223372036854775807) (.int Int64.maxValue) = true ∧
      truth (.uint 9223372036854775807) = truth (.int Int64.maxValue)) ∧
    (Int64.toUInt64 (-1) = 18446744073709551615 ∧
      ¬ agrees (.int (-1)) (.uint 18446744073709551615) = true) := by
  obtain ⟨hequivalence, hmixed, _, htruth⟩ := agrees_equivalence
  have hlargest : agrees (.uint 9223372036854775807) (.int Int64.maxValue) = true :=
    hequivalence.symm ((hmixed _ _).2 (by decide))
  refine ⟨⟨hlargest, htruth _ _ hlargest⟩, by decide, fun h => ?_⟩
  exact absurd ((hmixed _ _).1 h) (by decide)

end Literal

end JointAnalysis
