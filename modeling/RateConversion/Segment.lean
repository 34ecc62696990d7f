import RateConversion.Grid

/-! Bookkeeping of a segment: where and when it starts on the output grid, which offset
must come next on either side, and whether its first output is still to be marked. -/

namespace RateConversion

structure Segment where
  /-- Time of the output offset `origin`. -/
  start? : Option Nat
  origin : Nat
  nextIn? : Option Nat
  nextOut : Nat
  /-- No output yet, so the next one carries the discontinuity mark. -/
  armed : Bool
  deriving DecidableEq, Repr

namespace Segment

def idle : Segment := ⟨none, 0, none, 0, true⟩

def continues (s : Segment) (h : Header) : Bool :=
  !h.discont && h.timestamp?.isSome && s.start?.isSome && s.nextIn? == some h.offset

def timeAt (s : Segment) (rateOut offset : Nat) : Checked (Option Nat) :=
  match s.start? with
  | none => .ok none
  | some start => do
    let ticks ← Checked.sub offset s.origin
    let time ← Checked.add start (Grid.timeOfTick rateOut ticks)
    .ok (some time)

def timeBetween (s : Segment) (rateOut offset offsetEnd : Nat) : Checked (Option Nat) := do
  match ← s.timeAt rateOut offsetEnd, ← s.timeAt rateOut offset with
  | some till, some since => do
    let d ← Checked.sub till since
    .ok (some d)
  | _, _ => .ok none

/-- Stamps the next `len` output samples, of which a gap leaves `loud` before silence. -/
def stamp (s : Segment) (rateOut len : Nat) (gap : Bool) (loud : Nat) :
    Checked (Segment × Stamp) := do
  let offset := s.nextOut
  let offsetEnd ← Checked.add offset len
  let discont := s.armed && 0 < len
  let timestamp? ← s.timeAt rateOut offset
  let duration? ← s.timeBetween rateOut offset offsetEnd
  .ok
    ({ s with nextOut := offsetEnd, armed := s.armed && !discont },
      { offset, offsetEnd, timestamp?, duration?, discont,
        gap := gap && loud == 0,
        gapStart := if gap then offset + loud else offsetEnd })

def split (s : Segment) (rateOut : Nat) (m : Stamp) : Checked (Option (Stamp × Stamp)) :=
  if m.gapStart ≤ m.offset ∨ m.offsetEnd ≤ m.gapStart then .ok none
  else do
    let headDuration ← s.timeBetween rateOut m.offset m.gapStart
    let tailTime ← s.timeAt rateOut m.gapStart
    let tailDuration ← s.timeBetween rateOut m.gapStart m.offsetEnd
    .ok (some
      ({ m with offsetEnd := m.gapStart, duration? := headDuration, gap := false },
        { m with
          offset := m.gapStart, timestamp? := tailTime, duration? := tailDuration
          discont := false, gap := true }))

end Segment

end RateConversion
