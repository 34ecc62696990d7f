import RateConversion.Checked
import RateConversion.Conversion
import RateConversion.Feed
import RateConversion.Sample

/-! Interpolation by an integer factor. A sample completes the segment that ends at the
one before it, or with cubic splines the segment before that. A completed segment
gives `factor` samples, of which the first is its left knot. -/

namespace RateConversion

inductive Knots (α : Type)
  | empty
  | single (newest : α)
  | pair (previous newest : α)
  deriving DecidableEq, Repr

namespace Knots

variable {α : Type}

def push (x : α) : Knots α → Knots α
  | .empty => .single x
  | .single a => .pair a x
  | .pair _ b => .pair b x

def size : Knots α → Nat
  | .empty => 0
  | .single _ => 1
  | .pair _ _ => 2

def toList : Knots α → List α
  | .empty => []
  | .single a => [a]
  | .pair a b => [a, b]

theorem toList_push (x : α) (k : Knots α) :
    (k.push x).toList = (k.toList ++ [x]).drop (k.size - 1) := by
  cases k <;> rfl

end Knots

structure Upsampler (α : Type) where
  factor : Nat
  interpolation : Interpolation
  knots : Knots α
  /-- The slope at the older knot of a pair, threaded between cubic segments. -/
  slope : α
  deriving DecidableEq, Repr

namespace Upsampler

variable {α ρ : Type} [Zero α] [Add α] [Sub α] [Mul ρ] [Scalar ρ] [Sample α ρ]

def start (factor : Nat) (interpolation : Interpolation) : Upsampler α :=
  ⟨factor, interpolation, .empty, 0⟩

def reset (u : Upsampler α) : Upsampler α := start u.factor u.interpolation

/-- Samples that `n` more inputs complete when `carried` knots are there. -/
def outputLenFrom (factor : Nat) (i : Interpolation) (carried n : Nat) : Checked Nat := do
  let known ← Checked.add n (min carried i.lead)
  Checked.mul (known - i.lead) factor

def outputLen (u : Upsampler α) (n : Nat) : Checked Nat :=
  outputLenFrom u.factor u.interpolation u.knots.size n

/-- The left knot and the `factor - 1` values between the knots, `f` of the fraction. -/
def between (factor : Nat) (knot : α) (f : ρ → α) : List α :=
  knot :: (List.range (factor - 1)).map fun i => f (Scalar.ofRatio (i + 1 : Nat) factor)

def two : ρ := Scalar.ofRatio 2 1
def three : ρ := Scalar.ofRatio 3 1

def line (factor : Nat) (a next : α) : List α :=
  let slope := next - a
  between factor a fun t => a + scale slope t

def parabola (factor : Nat) (a slope next : α) : List α :=
  let bend := next - a - slope
  between factor a fun t => a + scale slope t + scale bend (t * t)

def cubic (factor : Nat) (a b slopeA slopeB : α) : List α :=
  let bend := scale (b - a) three - slopeB - scale slopeA two
  let twist := scale (a - b) two + slopeB + slopeA
  between factor a fun t => a + scale slopeA t + scale bend (t * t) + scale twist (t * t * t)

/-- The samples that `next` completes and the slope to carry, if enough knots are there. -/
def segment? (u : Upsampler α) (next : α) : Option (List α × α) :=
  match u.interpolation, u.knots with
  | .hold, _ => some (List.replicate u.factor next, u.slope)
  | .linear, .single a | .linear, .pair _ a => some (line u.factor a next, u.slope)
  | .quadratic, .single a => some (parabola u.factor a 0 next, u.slope)
  | .quadratic, .pair p a => some (parabola u.factor a (divide (next - p) two) next, u.slope)
  | .cubic, .pair a b =>
    let slope := divide (next - a) two
    some (cubic u.factor a b u.slope slope, slope)
  | _, _ => none

def step (u : Upsampler α) (next : α) : Upsampler α × List α :=
  let knots := u.knots.push next
  match u.segment? next with
  | some (ys, slope) => ({ u with knots, slope }, ys)
  | none => ({ u with knots }, [])

def isSilent (u : Upsampler α) : Bool :=
  u.knots.toList.all isZero && isZero u.slope

def skip (u : Upsampler α) (n : Nat) : Upsampler α :=
  { u with knots := (List.replicate (min n 2) 0).foldl (fun k x => k.push x) u.knots }

end Upsampler

end RateConversion
