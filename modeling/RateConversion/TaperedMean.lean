import RateConversion.Feed
import RateConversion.Sample
import RateConversion.TickClock

/-! The mean of the samples within half a stride of each tick. With an even stride the
window has one sample more, and its two ends count half, so that each end is shared
with the neighbouring window. A window cut short by the start is divided by the
weight that it has. -/

namespace RateConversion

structure TaperedMean (α ρ : Type) where
  clock : TickClock
  sum : α
  weight : ρ
  deriving DecidableEq, Repr

namespace TaperedMean

variable {α ρ : Type} [Zero α] [Add α] [Add ρ] [Scalar ρ] [Sample α ρ]

/-- Weights are whole or half numbers, counted here in halves. -/
def halves (n : Nat) : ρ := Scalar.ofRatio n 2

def start (factor leading : Nat) : TaperedMean α ρ :=
  ⟨.ofDecimation factor .tukey leading, 0, halves 0⟩

def tapered (m : TaperedMean α ρ) : Bool := m.clock.stride % 2 == 0

/-- The weight, in halves, of the place `i` of a window that is centred on 0. -/
def placeWeight (m : TaperedMean α ρ) (i : Int) : Nat :=
  if m.tapered && i.natAbs == m.clock.lookahead then 1 else 2

def take (m : TaperedMean α ρ) (x : α) : TaperedMean α ρ :=
  if -(m.clock.lookahead : Int) ≤ m.clock.phase then
    let w := halves (m.placeWeight m.clock.phase)
    { m with sum := m.sum + scale x w, weight := m.weight + w }
  else m

def restart (m : TaperedMean α ρ) (x : α) : TaperedMean α ρ :=
  if m.tapered then { m with sum := scale x (halves 1), weight := halves 1 }
  else { m with sum := 0, weight := halves 0 }

def step (m : TaperedMean α ρ) (x : α) : TaperedMean α ρ × List α :=
  let clock := m.clock.next
  let m := m.take x
  if m.clock.ready then ({ m.restart x with clock }, [divide m.sum m.weight])
  else ({ m with clock }, [])

def isSilent (m : TaperedMean α ρ) : Bool := isZero m.sum

def windowWeight (m : TaperedMean α ρ) (first last : Int) : Nat :=
  let reach : Int := m.clock.lookahead
  let first := max first (-reach)
  if last < first then 0
  else
    let full := 2 * (last - first + 1).toNat
    if m.tapered then
      full - (if first = -reach then 1 else 0) - (if last = reach then 1 else 0)
    else full

/-- Passes `n` zeros that follow silence: the window holds nothing but its weight. -/
def skip (m : TaperedMean α ρ) (n : Nat) : Checked (TaperedMean α ρ) := do
  let emitted := m.clock.count n
  let clock ← m.clock.advance n emitted
  let last := clock.phase - 1
  let weight :=
    if 0 < emitted then halves (m.windowWeight (-m.clock.lookahead) last)
    else m.weight + halves (m.windowWeight m.clock.phase last)
  .ok { clock, sum := 0, weight }

end TaperedMean

end RateConversion
