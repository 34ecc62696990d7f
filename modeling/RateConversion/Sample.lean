/-! What a kernel may do with samples. Coefficients live in a type of reals, `ρ`, and
samples in a type `α` that can be added, subtracted and scaled by them. No law
is assumed, so every statement about kernels that asks for none holds of floating
point too. -/

namespace RateConversion

class Scalar (ρ : Type) where
  /-- The quotient of two integers, rounded as the reals are. -/
  ofRatio : Int → Nat → ρ
  ofFloat : Float → ρ

class Sample (α : Type) (ρ : outParam Type) where
  isZero : α → Bool
  scale : α → ρ → α
  divide : α → ρ → α

export Sample (isZero scale divide)

structure Complex (ρ : Type) where
  re : ρ
  im : ρ
  deriving DecidableEq, Repr

namespace Complex

variable {ρ : Type}

instance [Zero ρ] : Zero (Complex ρ) := ⟨⟨0, 0⟩⟩
instance [Add ρ] : Add (Complex ρ) := ⟨fun a b => ⟨a.re + b.re, a.im + b.im⟩⟩
instance [Sub ρ] : Sub (Complex ρ) := ⟨fun a b => ⟨a.re - b.re, a.im - b.im⟩⟩

end Complex

instance {ρ : Type} [Sample ρ ρ] : Sample (Complex ρ) ρ where
  isZero a := isZero a.re && isZero a.im
  scale a t := ⟨scale a.re t, scale a.im t⟩
  divide a w := ⟨divide a.re w, divide a.im w⟩

instance : Scalar Float where
  ofRatio n d := Float.ofInt n / d.toFloat
  ofFloat x := x

instance : Scalar Float32 where
  ofRatio n d := (Float.ofInt n / d.toFloat).toFloat32
  ofFloat x := x.toFloat32

instance : Sample Float Float where
  isZero x := x == 0
  scale x t := x * t
  divide x w := x / w

instance : Sample Float32 Float32 where
  isZero x := x == 0
  scale x t := x * t
  divide x w := x / w

end RateConversion
