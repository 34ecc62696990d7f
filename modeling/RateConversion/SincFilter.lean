import RateConversion.History
import RateConversion.Taps
import RateConversion.TickClock

/-! Decimation by a symmetric filter. A tick is computed when the last sample of its
window arrives, from the history and the samples at hand. -/

namespace RateConversion

structure SincFilter (α ρ : Type) where
  taps : Taps ρ
  clock : TickClock
  history : History α
  deriving DecidableEq, Repr

namespace SincFilter

variable {α ρ : Type} [Zero α] [Add α] [Sample α ρ]

def start (taps : Taps ρ) (factor leading : Nat) : SincFilter α ρ where
  taps := taps
  clock := .start factor taps.reach taps.reach leading
  history := .blank (2 * taps.reach)

def reset (f : SincFilter α ρ) (leading : Nat) : SincFilter α ρ :=
  { f with
    clock := .start f.clock.stride f.taps.reach f.taps.reach leading
    history := f.history.clear }

def read (h : History α) (xs : Array α) (i : Nat) : α :=
  if i < h.size then h.get i else xs.getD (i - h.size) 0

/-- The tick whose window ends at `newest`. A window that lies in the block is read from
there alone. -/
def output (f : SincFilter α ρ) (block : Array α) (newest : Nat) : Checked α :=
  let carried := f.history.size
  if carried + 2 * f.taps.reach ≤ newest then
    f.taps.output (block.getD · 0) block.size (newest - carried)
  else f.taps.output (read f.history block) (carried + block.size) newest

def feed (f : SincFilter α ρ) (xs : List α) : Checked (SincFilter α ρ × List α) := do
  let emitted := f.clock.count xs.length
  let first := f.history.size + f.clock.wait
  let block := xs.toArray
  let ys ← (List.range emitted).mapM fun k => f.output block (first + k * f.clock.stride)
  let clock ← f.clock.advance xs.length emitted
  .ok ({ f with clock, history := f.history.extend xs }, ys)

def isSilent (f : SincFilter α ρ) : Bool := f.history.isSilent

def skip (f : SincFilter α ρ) (n : Nat) : Checked (SincFilter α ρ) := do
  let clock ← f.clock.skip n
  .ok { f with clock, history := f.history.extendZeros n }

end SincFilter

end RateConversion
