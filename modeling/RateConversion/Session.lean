import RateConversion.Converter

/-! Runs of a converter: the requests it takes, the replies it gives, and the state that
each leaves behind. -/

namespace RateConversion

structure Job (α : Type) where
  buffer : Buffer α
  slice : List α
  deriving DecidableEq, Repr

inductive Request (τ : Type)
  | transform (job : τ)
  | predict (header : Header)
  | required (n : Nat)
  | setQuality (quality : Nat)
  | setZeroLatency (zeroLatency : Bool)
  | configure (config : Config)
  | reset
  | split (stamp : Stamp)
  deriving DecidableEq, Repr

inductive Reply (β : Type)
  | transformed (slice : β) (stamp : Stamp)
  | rejected (slice : β) (why : Rejection)
  | length (n : Nat)
  | done
  | refused (why : ConfigError)
  | parts (parts? : Option (Stamp × Stamp))
  deriving DecidableEq, Repr

namespace Request

variable {τ υ : Type}

def map (f : τ → υ) (g : Config → Config) : Request τ → Request υ
  | .transform job => .transform (f job)
  | .predict h => .predict h
  | .required n => .required n
  | .setQuality q => .setQuality q
  | .setZeroLatency b => .setZeroLatency b
  | .configure config => .configure (g config)
  | .reset => .reset
  | .split m => .split m

end Request

namespace Reply

variable {β γ : Type}

def map (f : β → γ) (g : ConfigError → ConfigError) : Reply β → Reply γ
  | .transformed slice stamp => .transformed (f slice) stamp
  | .rejected slice why => .rejected (f slice) why
  | .length n => .length n
  | .done => .done
  | .refused why => .refused (g why)
  | .parts parts? => .parts parts?

end Reply

def settle {σ β : Type} : Except (Refused σ) σ → σ × Reply β
  | .ok state => (state, .done)
  | .error r => (r.state, .refused r.why)

namespace Converter

variable {α ρ : Type} [Zero α] [Add α] [Sub α] [Add ρ] [Mul ρ] [Scalar ρ] [Sample α ρ]
variable [Element α]

def respond (c : Converter α ρ) :
    Request (Job α) → Checked (Converter α ρ × Reply (List α))
  | .transform job => do
    match ← c.transform job.buffer job.slice with
    | .ok t => .ok (t.converter, .transformed t.slice t.stamp)
    | .error r => .ok (r.state, .rejected r.slice r.why)
  | .predict h => do
    let n ← c.predict h
    .ok (c, .length n)
  | .required n => do
    let n ← c.requiredLen n
    .ok (c, .length n)
  | .setQuality q => .ok (settle (c.setQuality q))
  | .setZeroLatency b => .ok (c.setZeroLatency b, .done)
  | .configure config => .ok (settle (c.configure config))
  | .reset => .ok (c.reset, .done)
  | .split m => do
    let parts ← c.splitStamp m
    .ok (c, .parts parts)

def run (c : Converter α ρ) :
    List (Request (Job α)) → Checked (Converter α ρ × List (Reply (List α)))
  | [] => .ok (c, [])
  | r :: rs => do
    let (c, y) ← c.respond r
    let (c, ys) ← run c rs
    .ok (c, y :: ys)

end Converter

end RateConversion
