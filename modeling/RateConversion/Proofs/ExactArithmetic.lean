import Mathlib.Algebra.Field.Rat
import Mathlib.Algebra.Module.Basic
import RateConversion.Proofs.GapZeros

/-! Exact arithmetic. Nothing is rounded where the reals are a field and the samples a space
over it: sums of half weights add up, and zeros are inert if nothing else passes for zero. -/

namespace RateConversion

/-- Reals that are a field of numbers and samples that are a space over it. -/
structure Exact (α ρ : Type) [Field ρ] [AddCommGroup α] [Module ρ α] [Scalar ρ] [Sample α ρ] :
    Prop where
  scale_eq (x : α) (t : ρ) : scale x t = t • x
  divide_eq (x : α) (w : ρ) : divide x w = w⁻¹ • x
  ofRatio_eq (n : Int) (d : Nat) : (Scalar.ofRatio n d : ρ) = n / d

namespace Exact

variable {α ρ : Type} [Field ρ] [AddCommGroup α] [Module ρ α] [Scalar ρ] [Sample α ρ]

theorem halves_eq (e : Exact α ρ) (n : Nat) : (TaperedMean.halves n : ρ) = n / 2 := by
  rw [TaperedMean.halves, e.ofRatio_eq, Int.cast_natCast, Nat.cast_ofNat]

theorem halves_zero (e : Exact α ρ) : (TaperedMean.halves 0 : ρ) = 0 := by
  rw [e.halves_eq, Nat.cast_zero, zero_div]

theorem halves_add (e : Exact α ρ) (a b : Nat) :
    (TaperedMean.halves a + TaperedMean.halves b : ρ) = TaperedMean.halves (a + b) := by
  simp only [e.halves_eq]
  rw [Nat.cast_add, add_div]

theorem exactWeights (e : Exact α ρ) (config : Config) : config.ExactWeights ρ :=
  fun a b _ => e.halves_add a b

theorem inertZeros (e : Exact α ρ) (hz : ∀ x : α, isZero x = true → x = 0) :
    InertZeros α ρ where
  eq_zero := hz
  add_zero := add_zero 0
  sub_zero := sub_zero 0
  scale_zero t := (e.scale_eq 0 t).trans (smul_zero t)
  divide_weight _ _ := (e.divide_eq 0 _).trans (smul_zero _)
  divide_two := (e.divide_eq 0 _).trans (smul_zero _)

end Exact

namespace Complex

instance {ρ : Type} [Neg ρ] : Neg (Complex ρ) := ⟨fun z => ⟨-z.re, -z.im⟩⟩

instance {ρ : Type} [AddCommGroup ρ] : AddCommGroup (Complex ρ) where
  add_assoc _ _ _ := congr_arg₂ mk (add_assoc _ _ _) (add_assoc _ _ _)
  zero_add _ := congr_arg₂ mk (zero_add _) (zero_add _)
  add_zero _ := congr_arg₂ mk (add_zero _) (add_zero _)
  nsmul := nsmulRec
  sub_eq_add_neg _ _ := congr_arg₂ mk (sub_eq_add_neg _ _) (sub_eq_add_neg _ _)
  zsmul := zsmulRec
  neg_add_cancel _ := congr_arg₂ mk (neg_add_cancel _) (neg_add_cancel _)
  add_comm _ _ := congr_arg₂ mk (add_comm _ _) (add_comm _ _)

instance {ρ : Type} [Ring ρ] : Module ρ (Complex ρ) where
  smul t z := ⟨t * z.re, t * z.im⟩
  one_smul _ := congr_arg₂ mk (one_mul _) (one_mul _)
  mul_smul _ _ _ := congr_arg₂ mk (mul_assoc _ _ _) (mul_assoc _ _ _)
  smul_zero _ := congr_arg₂ mk (mul_zero _) (mul_zero _)
  smul_add _ _ _ := congr_arg₂ mk (mul_add _ _ _) (mul_add _ _ _)
  add_smul _ _ _ := congr_arg₂ mk (add_mul _ _ _) (add_mul _ _ _)
  zero_smul _ := congr_arg₂ mk (zero_mul _) (zero_mul _)

theorem exact {ρ : Type} [Field ρ] [Scalar ρ] [Sample ρ ρ] (e : Exact ρ ρ) :
    Exact (Complex ρ) ρ where
  scale_eq _ _ := congr_arg₂ mk (e.scale_eq _ _) (e.scale_eq _ _)
  divide_eq _ _ := congr_arg₂ mk (e.divide_eq _ _) (e.divide_eq _ _)
  ofRatio_eq := e.ofRatio_eq

end Complex

theorem Rational.exact : Exact ℚ ℚ where
  scale_eq x t := mul_comm x t
  divide_eq x w := div_eq_inv_mul x w
  ofRatio_eq _ _ := rfl

end RateConversion
