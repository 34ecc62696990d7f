import RateConversion.Checked
import RateConversion.Conversion

/-! Where the next output tick falls among the incoming samples. Ticks are `stride`
samples apart, and the output of a tick is ready when the sample `lookahead` places
after it arrives. The clock moves one sample at a time or over a whole span, and
tells the ticks of a span beforehand. -/

namespace RateConversion

structure TickClock where
  stride : Nat
  lookahead : Nat
  /-- Index of the next sample less the index of the next tick. -/
  phase : Int
  deriving DecidableEq, Repr

namespace TickClock

def start (stride lookahead warmup leading : Nat) : TickClock :=
  ⟨stride, lookahead, -Checked.signed (leading + warmup)⟩

def ofDecimation (factor : Nat) (d : Decimation) (leading : Nat) : TickClock :=
  start factor (d.reach factor) (d.warmup factor) leading

/-- Samples to come before the one that makes the next tick ready. -/
def wait (c : TickClock) : Nat :=
  Checked.word (c.lookahead - c.phase)

/-- Ticks that the next `n` samples make ready. -/
def count (c : TickClock) (n : Nat) : Nat :=
  if c.wait < n then (n - 1 - c.wait) / c.stride + 1 else 0

def advance (c : TickClock) (n emitted : Nat) : Checked TickClock := do
  let back ← Checked.mul emitted c.stride
  let move ← Checked.signedRange (Checked.signed n - Checked.signed back)
  let phase ← Checked.signedRange (c.phase + move)
  .ok { c with phase }

def skip (c : TickClock) (n : Nat) : Checked TickClock :=
  c.advance n (c.count n)

def ready (c : TickClock) : Bool := c.phase == c.lookahead

def next (c : TickClock) : TickClock :=
  { c with phase := if c.ready then c.phase + 1 - c.stride else c.phase + 1 }

def pick {α : Type} (c : TickClock) (x : α) : TickClock × List α :=
  (c.next, if c.ready then [x] else [])

end TickClock

end RateConversion
