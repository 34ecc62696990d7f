import RateConversion.Config
import RateConversion.Kernel
import RateConversion.Segment

/-! Rate conversion of a stream, one buffer at a time. A buffer that is marked, has no
time or does not start where the last one ended opens a new segment: staged settings
come into effect, the history is dropped and the output grid is anchored anew.
Within a segment the output does not depend on how the input is cut into buffers. -/

namespace RateConversion

structure Setup where
  config : Config
  conversion : Conversion
  deriving DecidableEq, Repr

namespace Setup

def ofConfig (config : Config) : Except ConfigError Setup := do
  let conversion ← config.conversion
  .ok { config, conversion }

def withQuality (s : Setup) (quality : Nat) : Except ConfigError Setup :=
  ofConfig { s.config with quality }

def withZeroLatency (s : Setup) (zeroLatency : Bool) : Setup :=
  ⟨{ s.config with zeroLatency }, s.conversion.withZeroLatency zeroLatency⟩

def rateIn (s : Setup) : Nat := s.config.rateIn.hz
def rateOut (s : Setup) : Nat := s.config.rateOut.hz

/-- Input samples that a segment opened by this header passes over. -/
def leading (s : Setup) (h : Header) : Nat :=
  match s.conversion with
  | .down factor _ _ => Grid.leading s.rateIn factor h
  | _ => 0

def openSegment (s : Setup) (h : Header) : Checked Segment := do
  let origin := Scale.ceil h.offset s.rateOut s.rateIn
  let nextOut ← Checked.add origin s.conversion.delay
  .ok
    { start? := h.timestamp?.map (Grid.align s.rateIn s.rateOut s.conversion.direction)
      origin, nextIn? := none, nextOut, armed := true }

end Setup

structure Converter (α ρ : Type) [Zero α] [Scalar ρ] where
  setup : Setup
  /-- Settings that wait for the next segment. -/
  staged? : Option Setup
  kernel : Kernel α ρ
  table? : Option (SincTable ρ)
  zeros : Zeros α
  segment : Segment
  deriving DecidableEq, Repr

structure Transformed (α ρ : Type) [Zero α] [Scalar ρ] where
  converter : Converter α ρ
  slice : List α
  stamp : Stamp
  deriving DecidableEq, Repr

/-- A buffer that was turned away: the state and the slice after that, and why. -/
structure Rejected (σ β : Type) where
  state : σ
  slice : β
  why : Rejection
  deriving DecidableEq, Repr

structure Refused (σ : Type) where
  state : σ
  why : ConfigError
  deriving DecidableEq, Repr

namespace Converter

variable {α ρ : Type} [Zero α] [Add α] [Sub α] [Add ρ] [Mul ρ] [Scalar ρ] [Sample α ρ]

/-- Builds the kernel of the conversion in effect, with the table at hand if that serves. -/
def rebuild (c : Converter α ρ) : Converter α ρ :=
  let built := Kernel.build c.table? c.setup.conversion
  { c with kernel := built.1, table? := built.2 }

def ofSetup (s : Setup) : Converter α ρ := rebuild ⟨s, none, .copy, none, .empty, .idle⟩

/-- A converter has one element type, which its configuration must name. -/
def check (α : Type) [Element α] (config : Config) : Except ConfigError Setup :=
  if config.type = Element.type α then Setup.ofConfig config
  else .error (.elementMismatch (Element.type α) config.type)

def ofConfig [Element α] (config : Config) : Except ConfigError (Converter α ρ) := do
  let s ← check α config
  .ok (ofSetup s)

/-- Forgets all history and keeps the settings, staged ones included. -/
def reset (c : Converter α ρ) : Converter α ρ :=
  { c with kernel := c.kernel.reset 0, segment := .idle }

def configure [Element α] (c : Converter α ρ) (config : Config) :
    Except (Refused (Converter α ρ)) (Converter α ρ) :=
  match check α config with
  | .error why => .error ⟨c, why⟩
  | .ok s => .ok { c with setup := s, staged? := none }.rebuild.reset

def pending (c : Converter α ρ) : Setup := c.staged?.getD c.setup

def setQuality (c : Converter α ρ) (quality : Nat) :
    Except (Refused (Converter α ρ)) (Converter α ρ) :=
  match c.pending.withQuality quality with
  | .error why => .error ⟨c, why⟩
  | .ok s => .ok { c with staged? := some s }

def setZeroLatency (c : Converter α ρ) (zeroLatency : Bool) : Converter α ρ :=
  { c with staged? := some (c.pending.withZeroLatency zeroLatency) }

/-- Input samples that give `n` output samples once the kernel has filled up. -/
def requiredLen (c : Converter α ρ) (n : Nat) : Checked Nat :=
  match c.setup.conversion with
  | .copy => .ok n
  | .up factor _ => .ok (n / factor)
  | .down factor _ _ => Checked.mul n factor

def predict (c : Converter α ρ) (h : Header) : Checked Nat :=
  if c.segment.continues h then c.kernel.outputLen h.len
  else
    match c.pending.conversion with
    | .copy => .ok h.len
    | .up factor i => Upsampler.outputLenFrom factor i 0 h.len
    | .down factor d _ =>
      .ok ((TickClock.ofDecimation factor d (Grid.leading c.setup.rateIn factor h)).count h.len)

/-- Brings staged settings into effect. The kernel is kept if they ask for the same. -/
def adopt (c : Converter α ρ) : Converter α ρ :=
  match c.staged? with
  | none => c
  | some s =>
    let next := { c with setup := s, staged? := none }
    if s.conversion = c.setup.conversion then next else next.rebuild

def openSegment (c : Converter α ρ) (h : Header) : Checked (Converter α ρ) := do
  let c := c.adopt
  let segment ← c.setup.openSegment h
  .ok { c with segment, kernel := c.kernel.reset (c.setup.leading h) }

def absorb (c : Converter α ρ) (b : Buffer α) (expected : Nat) :
    Checked (Converter α ρ × List α × Stamp) := do
  let c ← if c.segment.continues b.header then .ok c else c.openSegment b.header
  let nextIn ← b.header.offsetEnd
  let len ← c.kernel.outputLen b.header.len
  Checked.require (len = expected) .miscount
  let (p, zeros) ←
    if b.header.gap then c.kernel.fillGap c.zeros b.header.len expected
    else do
      let (kernel, output) ← c.kernel.feed b.samples
      .ok (⟨kernel, output, expected⟩, c.zeros)
  Checked.require (p.output.length = expected) .miscount
  let (segment, stamp) ←
    { c.segment with nextIn? := some nextIn }.stamp c.setup.rateOut expected b.header.gap p.loud
  .ok ({ c with kernel := p.kernel, zeros, segment }, p.output, stamp)

/-- Converts one buffer into the front of `slice`, or turns it away. No kernel sees what the
slice held before. -/
def transform (c : Converter α ρ) (b : Buffer α) (slice : List α) :
    Checked (Except (Rejected (Converter α ρ) (List α)) (Transformed α ρ)) :=
  if b.header.gap = false ∧ b.samples.length ≠ b.header.len then
    .ok (.error ⟨c, slice, .inputLength b.header.len b.samples.length⟩)
  else do
    let expected ← c.predict b.header
    if slice.length < expected then
      .ok (.error ⟨c, slice, .outputLength expected slice.length⟩)
    else
      let (converter, output, stamp) ← c.absorb b expected
      .ok (.ok { converter, slice := output ++ slice.drop expected, stamp })

def splitStamp (c : Converter α ρ) (m : Stamp) : Checked (Option (Stamp × Stamp)) :=
  c.segment.split c.setup.rateOut m

end Converter

end RateConversion
