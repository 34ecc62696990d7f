import RateConversion.SincFilter
import RateConversion.TaperedMean
import RateConversion.Upsampler

/-! The kernels under one face: feeding samples, telling the length of what a span will
give, passing silence without touching every zero, and starting over. A gap goes
through a kernel in blocks of zeros until the kernel is silent, and the rest of it
is passed at once. The zeros and the table of a filter outlive the kernel. -/

namespace RateConversion

inductive Kernel (α ρ : Type)
  | copy
  | pick (clock : TickClock)
  | mean (mean : TaperedMean α ρ)
  | sinc (filter : SincFilter α ρ)
  | spline (upsampler : Upsampler α)
  deriving DecidableEq, Repr

/-- What a kernel makes of a span, and how much of that comes before lasting silence. -/
structure Produced (α ρ : Type) where
  kernel : Kernel α ρ
  output : List α
  loud : Nat
  deriving DecidableEq, Repr

/-- Zeros at hand for a kernel that is not silent when a gap arrives. -/
structure Zeros (α : Type) [Zero α] where
  samples : List α
  zero : ∀ x ∈ samples, x = 0
  deriving DecidableEq, Repr

namespace Zeros

variable {α : Type} [Zero α]

def empty : Zeros α := ⟨[], nofun⟩

def upTo (z : Zeros α) (n : Nat) : Zeros α where
  samples := z.samples ++ List.replicate (n - z.samples.length) 0
  zero := by simpa [or_imp, forall_and] using z.zero

end Zeros

namespace Kernel

variable {α ρ : Type} [Zero α] [Add α] [Sub α] [Add ρ] [Mul ρ] [Scalar ρ] [Sample α ρ]

def buildDecimation (table? : Option (SincTable ρ)) (factor : Nat) (d : Decimation) :
    Kernel α ρ × Option (SincTable ρ) :=
  match d, d.span? with
  | _, some span =>
    let table := SincTable.reuse table? factor span
    (.sinc (.start table.taps factor 0), some table)
  | .tukey, none => (.mean (.start factor 0), table?)
  | d, none => (.pick (.ofDecimation factor d 0), table?)

def build (table? : Option (SincTable ρ)) : Conversion → Kernel α ρ × Option (SincTable ρ)
  | .copy => (.copy, table?)
  | .up factor i => (.spline (.start factor i), table?)
  | .down factor d _ => buildDecimation table? factor d

/-- Drops the history. A decimating kernel will pass over `leading` samples. -/
def reset (leading : Nat) : Kernel α ρ → Kernel α ρ
  | .copy => .copy
  | .pick clock => .pick (.ofDecimation clock.stride .pick leading)
  | .mean m => .mean (.start m.clock.stride leading)
  | .sinc f => .sinc (f.reset leading)
  | .spline u => .spline u.reset

def outputLen (n : Nat) : Kernel α ρ → Checked Nat
  | .copy => .ok n
  | .pick clock => .ok (clock.count n)
  | .mean m => .ok (m.clock.count n)
  | .sinc f => .ok (f.clock.count n)
  | .spline u => u.outputLen n

def feed (xs : List α) : Kernel α ρ → Checked (Kernel α ρ × List α)
  | .copy => .ok (.copy, xs)
  | .pick clock =>
    let r := RateConversion.feed TickClock.pick clock xs
    .ok (.pick r.1, r.2)
  | .mean m =>
    let r := RateConversion.feed TaperedMean.step m xs
    .ok (.mean r.1, r.2)
  | .sinc f => do
    let r ← f.feed xs
    .ok (.sinc r.1, r.2)
  | .spline u =>
    let r := RateConversion.feed Upsampler.step u xs
    .ok (.spline r.1, r.2)

/-- Whether zeros in would give zeros out. -/
def isSilent : Kernel α ρ → Bool
  | .copy => true
  | .pick _ => true
  | .mean m => m.isSilent
  | .sinc f => f.isSilent
  | .spline u => u.isSilent

def skip (n : Nat) : Kernel α ρ → Checked (Kernel α ρ)
  | .copy => .ok .copy
  | .pick clock => do
    let clock ← clock.skip n
    .ok (.pick clock)
  | .mean m => do
    let m ← m.skip n
    .ok (.mean m)
  | .sinc f => do
    let f ← f.skip n
    .ok (.sinc f)
  | .spline u => .ok (.spline (u.skip n))

def blockLen : Nat := 4096

def loudLen (ys : List α) : Nat := (ys.reverse.dropWhile isZero).length

/-- Runs `n` zeros into the `room` that is left for what they give. The zeros at hand are
brought up to a block. -/
def fillGap (zeros : Zeros α) (k : Kernel α ρ) (n room : Nat) :
    Checked (Produced α ρ × Zeros α) :=
  if n = 0 then .ok (⟨k, [], 0⟩, zeros)
  else if k.isSilent then do
    let k ← k.skip n
    .ok (⟨k, List.replicate room 0, 0⟩, zeros)
  else do
    let block := min n blockLen
    let zeros := zeros.upTo block
    let (k, ys) ← k.feed (zeros.samples.take block)
    if room < ys.length then .error .outOfRange
    else
      let (p, zeros) ← fillGap zeros k (n - block) (room - ys.length)
      .ok (⟨p.kernel, ys ++ p.output, if p.loud = 0 then loudLen ys else ys.length + p.loud⟩,
        zeros)
  termination_by n
  decreasing_by simp only [blockLen]; omega

end Kernel

end RateConversion
