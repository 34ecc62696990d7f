/-! The kernels on offer in each direction and the conversion that a configuration
resolves to. Quality levels number the kernels of a direction from the cheapest up. -/

namespace RateConversion

inductive Direction
  | passthrough
  | upsampling
  | downsampling
  deriving DecidableEq, Repr

def Direction.text : Direction → String
  | .passthrough => "passing through"
  | .upsampling => "upsampling"
  | .downsampling => "downsampling"

def maxQuality : Nat := 3

inductive Interpolation
  | hold
  | linear
  | quadratic
  | cubic
  deriving DecidableEq, Repr

namespace Interpolation

instance : Inhabited Interpolation := ⟨.hold⟩

def name : Interpolation → String
  | .hold => "Hold"
  | .linear => "Linear"
  | .quadratic => "Quadratic"
  | .cubic => "Cubic"

def ofQuality? : Nat → Option Interpolation
  | 0 => some .hold
  | 1 => some .linear
  | 2 => some .quadratic
  | 3 => some .cubic
  | _ => none

def quality : Interpolation → Nat
  | .hold => 0
  | .linear => 1
  | .quadratic => 2
  | .cubic => 3

/-- Samples that must have arrived before the next one completes a segment. -/
def lead : Interpolation → Nat
  | .hold => 0
  | .linear | .quadratic => 1
  | .cubic => 2

theorem ofQuality?_quality (i : Interpolation) : ofQuality? i.quality = some i := by
  cases i <;> rfl

end Interpolation

inductive Decimation
  | pick
  | tukey
  | shortSinc
  | longSinc
  deriving DecidableEq, Repr

namespace Decimation

instance : Inhabited Decimation := ⟨.pick⟩

def name : Decimation → String
  | .pick => "Pick"
  | .tukey => "Tukey"
  | .shortSinc => "ShortSinc"
  | .longSinc => "LongSinc"

def ofQuality? : Nat → Option Decimation
  | 0 => some .pick
  | 1 => some .tukey
  | 2 => some .shortSinc
  | 3 => some .longSinc
  | _ => none

def quality : Decimation → Nat
  | .pick => 0
  | .tukey => 1
  | .shortSinc => 2
  | .longSinc => 3

def shortSpan : Nat := 32
def longSpan : Nat := 192

def span? : Decimation → Option Nat
  | .pick | .tukey => none
  | .shortSinc => some shortSpan
  | .longSinc => some longSpan

/-- Input samples from a tick to the end of its window. -/
def reach (factor : Nat) (d : Decimation) : Nat :=
  match d, d.span? with
  | _, some n => n * factor / 2
  | .tukey, none => factor / 2
  | _, none => 0

/-- Input samples before the first tick, so that its window is full. -/
def warmup (factor : Nat) (d : Decimation) : Nat :=
  match d.span? with
  | some n => n * factor / 2
  | none => 0

theorem ofQuality?_quality (d : Decimation) : ofQuality? d.quality = some d := by
  cases d <;> rfl

end Decimation

inductive Conversion
  | copy
  | up (factor : Nat) (interpolation : Interpolation)
  | down (factor : Nat) (decimation : Decimation) (zeroLatency : Bool)
  deriving DecidableEq, Repr

namespace Conversion

def direction : Conversion → Direction
  | .copy => .passthrough
  | .up .. => .upsampling
  | .down .. => .downsampling

def withZeroLatency (b : Bool) : Conversion → Conversion
  | .down n d _ => .down n d b
  | c => c

/-- Output periods by which the reported position of a segment runs ahead of its start. -/
def delay : Conversion → Nat
  | .down _ d zeroLatency =>
    match d.span? with
    | some n => if zeroLatency then n / 2 else n
    | none => 0
  | _ => 0

end Conversion

end RateConversion
