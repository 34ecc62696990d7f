import RateConversion.Buffer
import RateConversion.Conversion
import RateConversion.Scale

/-! The output grid. Input positions and times are rounded onto it where a segment
starts, so that segments that start apart still share its ticks. -/

namespace RateConversion.Grid

/-- The place of a buffer on the input grid, by its time if it has one. -/
def position (rateIn : Nat) (h : Header) : Nat :=
  match h.timestamp? with
  | some time => Scale.round time rateIn nanosPerSecond
  | none => h.offset

/-- Input samples to pass over so that the first output falls on a tick. -/
def leading (rateIn factor : Nat) (h : Header) : Nat :=
  (factor - position rateIn h % factor) % factor

def timeOfTick (rateOut tick : Nat) : Nat := Scale.round tick nanosPerSecond rateOut

/-- The time of the tick that a segment starts on. Going down it is the next tick,
unless the time misses the nearest one by less than half an input period. -/
def align (rateIn rateOut : Nat) (direction : Direction) (time : Nat) : Nat :=
  let nearest := timeOfTick rateOut (Scale.round time rateOut nanosPerSecond)
  let miss := (time - nearest) + (nearest - time)
  if direction = .downsampling ∧ nanosPerSecond / 2 / rateIn ≤ miss then
    timeOfTick rateOut (Scale.ceil time rateOut nanosPerSecond)
  else nearest

end RateConversion.Grid
