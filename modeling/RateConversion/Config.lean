import RateConversion.ElementType
import RateConversion.Conversion

/-! Configurations, the stream descriptions they are negotiated from, and the
conversion they resolve to. One rate must divide the other: the ratio of the
rates in lowest terms has 1 above or below. -/

namespace RateConversion

structure Rate where
  hz : Nat
  pos : 0 < hz
  lt : hz < 0x100000000
  deriving DecidableEq, Repr

def Rate.ofWord? (w : UInt32) : Option Rate :=
  if h : 0 < w.toNat then some ⟨w.toNat, h, w.toNat_lt⟩ else none

inductive ConfigError
  | missingRate
  | zeroRate
  | missingFormat
  | unsupportedFormat (format : String)
  | formatMismatch (input output : ElementType)
  | nonIntegerRatio (rateIn rateOut : Nat)
  | unsupportedQuality (quality : Nat) (direction : Direction)
  | unitSize (type : ElementType) (stated expected : Nat)
  | elementMismatch (expected requested : ElementType)
  deriving DecidableEq, Repr

def ConfigError.message : ConfigError → String
  | .missingRate => "Stream format is missing a sample rate"
  | .zeroRate => "Sample rate must be positive"
  | .missingFormat => "Stream format is missing an element format"
  | .unsupportedFormat format => "Unsupported element format: '" ++ format ++ "'"
  | .formatMismatch input output =>
    "Input format " ++ input.name ++ " does not match output format " ++ output.name
  | .nonIntegerRatio rateIn rateOut =>
    "Output rate " ++ toString rateOut ++ " is not an integer multiple or divisor of input rate "
      ++ toString rateIn
  | .unsupportedQuality quality direction =>
    "Quality " ++ toString quality ++ " is not supported when " ++ direction.text
  | .unitSize type stated expected =>
    "Unit size " ++ toString stated ++ " does not match " ++ type.name ++ " ("
      ++ toString expected ++ " bytes)"
  | .elementMismatch expected requested =>
    "Resampler for " ++ expected.name ++ " samples cannot be configured for " ++ requested.name

def ElementType.ofFormat [Target] (text : String) : Except ConfigError ElementType :=
  match ofFormat? text with
  | some t => .ok t
  | none => .error (.unsupportedFormat text)

structure Config where
  rateIn : Rate
  rateOut : Rate
  type : ElementType
  quality : Nat := 0
  zeroLatency : Bool := false
  unitSize? : Option Nat := none
  deriving DecidableEq, Repr

namespace Config

def direction (c : Config) : Direction :=
  match compare c.rateOut.hz c.rateIn.hz with
  | .eq => .passthrough
  | .gt => .upsampling
  | .lt => .downsampling

def checkUnitSize (c : Config) : Except ConfigError Unit :=
  match c.unitSize? with
  | some n => if n = c.type.unitSize then .ok () else .error (.unitSize c.type n c.type.unitSize)
  | none => .ok ()

def ratio (c : Config) : Nat × Nat :=
  let g := Nat.gcd c.rateOut.hz c.rateIn.hz
  (c.rateOut.hz / g, c.rateIn.hz / g)

def badQuality (c : Config) : ConfigError := .unsupportedQuality c.quality c.direction

def resolve (c : Config) (num den : Nat) : Except ConfigError Conversion :=
  match c.direction with
  | .passthrough => if c.quality ≤ maxQuality then .ok .copy else .error c.badQuality
  | .upsampling =>
    match Interpolation.ofQuality? c.quality with
    | some i => .ok (.up num i)
    | none => .error c.badQuality
  | .downsampling =>
    match Decimation.ofQuality? c.quality with
    | some d => .ok (.down den d c.zeroLatency)
    | none => .error c.badQuality

def conversion (c : Config) : Except ConfigError Conversion := do
  c.checkUnitSize
  let (num, den) := c.ratio
  if num ≠ 1 ∧ den ≠ 1 then .error (.nonIntegerRatio c.rateIn.hz c.rateOut.hz)
  else c.resolve num den

end Config

/-- One side of a stream as its peer describes it. -/
structure Caps where
  rate? : Option UInt32
  format? : Option String
  unitSize? : Option Nat
  deriving DecidableEq, Repr

namespace Caps

def rate (c : Caps) : Except ConfigError Rate :=
  match c.rate? with
  | none => .error .missingRate
  | some w =>
    match Rate.ofWord? w with
    | some r => .ok r
    | none => .error .zeroRate

def type [Target] (c : Caps) : Except ConfigError ElementType :=
  match c.format? with
  | none => .error .missingFormat
  | some text => ElementType.ofFormat text

end Caps

def Config.declare (c : Config) : Option Nat → Except ConfigError Config
  | none => .ok c
  | some n => do
    let c := { c with unitSize? := some n }
    c.checkUnitSize
    .ok c

/-- The configuration of quality 0 that two stream descriptions agree on. Both unit
sizes are checked and the one stated last is kept. -/
def Config.ofCaps [Target] (input output : Caps) : Except ConfigError Config := do
  let rateIn ← input.rate
  let rateOut ← output.rate
  let typeIn ← input.type
  let typeOut ← output.type
  if typeIn ≠ typeOut then .error (.formatMismatch typeIn typeOut)
  else
    let c : Config := { rateIn, rateOut, type := typeIn }
    let c ← c.declare input.unitSize?
    let c ← c.declare output.unitSize?
    let _ ← c.conversion
    .ok c

end RateConversion
