import RateConversion.Checked
import RateConversion.Sample

/-! Symmetric filters: a tap for the centre of a window and one for each distance from
it. The low-pass filter is a sinc whose first zero lies one output period from
the centre, under a Blackman window, divided by its gain. A table of its taps is made
once and kept for as long as the same filter is asked for. -/

namespace RateConversion

structure Taps (ρ : Type) where
  center : ρ
  sides : List ρ
  deriving DecidableEq, Repr

namespace Taps

variable {α ρ κ : Type}

def reach (t : Taps ρ) : Nat := t.sides.length

def gain [Zero κ] [Add κ] (t : Taps κ) : κ :=
  let side := t.sides.foldl (· + ·) 0
  t.center + (side + side)

def normalize [Zero κ] [Add κ] [Div κ] (t : Taps κ) : Taps κ :=
  let gain := t.gain
  ⟨t.center / gain, t.sides.map (· / gain)⟩

def map (f : κ → ρ) (t : Taps κ) : Taps ρ := ⟨f t.center, t.sides.map f⟩

def addPairs [Add α] [Sample α ρ] (read : Nat → α) (c : Nat) : Nat → List ρ → α → α
  | _, [], acc => acc
  | m, tap :: taps, acc =>
    addPairs read c (m + 1) taps (acc + scale (read (c - m) + read (c + m)) tap)

/-- The filter centred on the sample that `read` gives for `c`. -/
def apply [Add α] [Sample α ρ] (t : Taps ρ) (read : Nat → α) (c : Nat) : α :=
  addPairs read c 1 t.sides (scale (read c) t.center)

def output [Add α] [Sample α ρ] (t : Taps ρ) (read : Nat → α) (size newest : Nat) :
    Checked α :=
  if 2 * t.reach ≤ newest ∧ newest < size then .ok (t.apply read (newest - t.reach))
  else .error .outOfRange

def pi : Float := 3.141592653589793

def sinc (x : Float) : Float :=
  if x == 0 then 1 else (pi * x).sin / (pi * x)

def blackman (m reach : Nat) : Float :=
  let phase := pi * m.toFloat / reach.toFloat
  0.42 + 0.5 * phase.cos + 0.08 * (2 * phase).cos

def rawTap (factor reach m : Nat) : Float :=
  sinc (m.toFloat / factor.toFloat) * blackman m reach

/-- The low-pass filter for decimation by `factor` over a span of output periods. -/
def lowPass [Scalar ρ] (factor span : Nat) : Taps ρ :=
  let reach := span * factor / 2
  let raw : Taps Float :=
    ⟨rawTap factor reach 0, (List.range reach).map fun i => rawTap factor reach (i + 1)⟩
  raw.normalize.map Scalar.ofFloat

end Taps

structure SincTable (ρ : Type) [Scalar ρ] where
  factor : Nat
  span : Nat
  taps : Taps ρ
  made : taps = .lowPass factor span
  deriving DecidableEq, Repr

namespace SincTable

variable {ρ : Type} [Scalar ρ]

def make (factor span : Nat) : SincTable ρ := ⟨factor, span, .lowPass factor span, rfl⟩

def fits (t : SincTable ρ) (factor span : Nat) : Bool := t.factor == factor && t.span == span

def reuse (table? : Option (SincTable ρ)) (factor span : Nat) : SincTable ρ :=
  match table? with
  | some t => if t.fits factor span then t else make factor span
  | none => make factor span

end SincTable

end RateConversion
