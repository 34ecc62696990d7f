import RateConversion.Session

/-! A converter whose element type is chosen by its configuration, and sequences of
samples of any element type. Samples of another type than the configured one are
turned away, and a configuration of another type replaces the converter. -/

namespace RateConversion

inductive Samples
  | f32 (xs : List Float32)
  | f64 (xs : List Float)
  | z64 (xs : List (Complex Float32))
  | z128 (xs : List (Complex Float))

namespace Samples

def type : Samples → ElementType
  | .f32 _ => .f32
  | .f64 _ => .f64
  | .z64 _ => .z64
  | .z128 _ => .z128

def length : Samples → Nat
  | .f32 xs => xs.length
  | .f64 xs => xs.length
  | .z64 xs => xs.length
  | .z128 xs => xs.length

def isEmpty (s : Samples) : Bool := s.length == 0

end Samples

inductive AnyConverter
  | f32 (c : Converter Float32 Float32)
  | f64 (c : Converter Float Float)
  | z64 (c : Converter (Complex Float32) Float32)
  | z128 (c : Converter (Complex Float) Float)

structure AnyJob where
  header : Header
  samples : Samples
  slice : Samples

def Refused.lift {σ τ : Type} (wrap : σ → τ) : Except (Refused σ) σ → Except (Refused τ) τ
  | .ok state => .ok (wrap state)
  | .error r => .error ⟨wrap r.state, r.why⟩

namespace AnyConverter

def ofType (config : Config) : ElementType → Except ConfigError AnyConverter
  | .f32 => (Converter.ofConfig config).map .f32
  | .f64 => (Converter.ofConfig config).map .f64
  | .z64 => (Converter.ofConfig config).map .z64
  | .z128 => (Converter.ofConfig config).map .z128

def ofConfig (config : Config) : Except ConfigError AnyConverter := ofType config config.type

def type : AnyConverter → ElementType
  | .f32 _ => .f32
  | .f64 _ => .f64
  | .z64 _ => .z64
  | .z128 _ => .z128

def setup : AnyConverter → Setup
  | .f32 c => c.setup
  | .f64 c => c.setup
  | .z64 c => c.setup
  | .z128 c => c.setup

def reconfigure (config : Config) : AnyConverter → Except (Refused AnyConverter) AnyConverter
  | .f32 c => Refused.lift .f32 (c.configure config)
  | .f64 c => Refused.lift .f64 (c.configure config)
  | .z64 c => Refused.lift .z64 (c.configure config)
  | .z128 c => Refused.lift .z128 (c.configure config)

def configure (c : AnyConverter) (config : Config) :
    Except (Refused AnyConverter) AnyConverter :=
  if config.type = c.type then c.reconfigure config
  else
    match ofConfig config with
    | .error why => .error ⟨c, why⟩
    | .ok made => .ok made

def reset : AnyConverter → AnyConverter
  | .f32 c => .f32 c.reset
  | .f64 c => .f64 c.reset
  | .z64 c => .z64 c.reset
  | .z128 c => .z128 c.reset

def setQuality (quality : Nat) : AnyConverter → Except (Refused AnyConverter) AnyConverter
  | .f32 c => Refused.lift .f32 (c.setQuality quality)
  | .f64 c => Refused.lift .f64 (c.setQuality quality)
  | .z64 c => Refused.lift .z64 (c.setQuality quality)
  | .z128 c => Refused.lift .z128 (c.setQuality quality)

def setZeroLatency (zeroLatency : Bool) : AnyConverter → AnyConverter
  | .f32 c => .f32 (c.setZeroLatency zeroLatency)
  | .f64 c => .f64 (c.setZeroLatency zeroLatency)
  | .z64 c => .z64 (c.setZeroLatency zeroLatency)
  | .z128 c => .z128 (c.setZeroLatency zeroLatency)

def requiredLen (n : Nat) : AnyConverter → Checked Nat
  | .f32 c => c.requiredLen n
  | .f64 c => c.requiredLen n
  | .z64 c => c.requiredLen n
  | .z128 c => c.requiredLen n

def predict (h : Header) : AnyConverter → Checked Nat
  | .f32 c => c.predict h
  | .f64 c => c.predict h
  | .z64 c => c.predict h
  | .z128 c => c.predict h

def splitStamp (m : Stamp) : AnyConverter → Checked (Option (Stamp × Stamp))
  | .f32 c => c.splitStamp m
  | .f64 c => c.splitStamp m
  | .z64 c => c.splitStamp m
  | .z128 c => c.splitStamp m

abbrev Outcome : Type := Except (Rejected AnyConverter Samples) (AnyConverter × Samples × Stamp)

def Outcome.ofTyped {α ρ : Type} [Zero α] [Scalar ρ] (wrap : Converter α ρ → AnyConverter)
    (list : List α → Samples) :
    Except (Rejected (Converter α ρ) (List α)) (Transformed α ρ) → Outcome
  | .ok t => .ok (wrap t.converter, list t.slice, t.stamp)
  | .error r => .error ⟨wrap r.state, list r.slice, r.why⟩

/-- Converts one buffer if both sequences have the configured type. Of two that do not,
the input is named. -/
def transform (c : AnyConverter) (job : AnyJob) : Checked Outcome :=
  match c, job.samples, job.slice with
  | .f32 c, .f32 xs, .f32 ys => do
    let r ← c.transform ⟨job.header, xs⟩ ys
    .ok (.ofTyped .f32 .f32 r)
  | .f64 c, .f64 xs, .f64 ys => do
    let r ← c.transform ⟨job.header, xs⟩ ys
    .ok (.ofTyped .f64 .f64 r)
  | .z64 c, .z64 xs, .z64 ys => do
    let r ← c.transform ⟨job.header, xs⟩ ys
    .ok (.ofTyped .z64 .z64 r)
  | .z128 c, .z128 xs, .z128 ys => do
    let r ← c.transform ⟨job.header, xs⟩ ys
    .ok (.ofTyped .z128 .z128 r)
  | c, xs, ys =>
    .ok (.error ⟨c, ys, .elementType c.type (if xs.type = c.type then ys.type else xs.type)⟩)

def respond (c : AnyConverter) : Request AnyJob → Checked (AnyConverter × Reply Samples)
  | .transform job => do
    match ← c.transform job with
    | .ok (c, slice, stamp) => .ok (c, .transformed slice stamp)
    | .error r => .ok (r.state, .rejected r.slice r.why)
  | .predict h => do
    let n ← c.predict h
    .ok (c, .length n)
  | .required n => do
    let n ← c.requiredLen n
    .ok (c, .length n)
  | .setQuality q => .ok (settle (c.setQuality q))
  | .setZeroLatency b => .ok (c.setZeroLatency b, .done)
  | .configure config => .ok (settle (c.configure config))
  | .reset => .ok (c.reset, .done)
  | .split m => do
    let parts ← c.splitStamp m
    .ok (c, .parts parts)

def run (c : AnyConverter) :
    List (Request AnyJob) → Checked (AnyConverter × List (Reply Samples))
  | [] => .ok (c, [])
  | r :: rs => do
    let (c, y) ← c.respond r
    let (c, ys) ← run c rs
    .ok (c, y :: ys)

end AnyConverter

end RateConversion
