import RateConversion.Proofs.Refusals
import RateConversion.Proofs.Staging

/-! The converter of any element type against typed converters. A run of it answers as a
converter of the configured type would, where another type means a new converter of that
type, and the one arm of its conversion that no typed converter stands behind is never
taken. -/

namespace RateConversion

namespace ElementType

def Value : ElementType → Type
  | .f32 => Float32
  | .f64 => Float
  | .z64 => Complex Float32
  | .z128 => Complex Float

def Coefficient : ElementType → Type
  | .f32 | .z64 => Float32
  | .f64 | .z128 => Float

section Instances

variable (t : ElementType)

instance : Zero t.Value :=
  match t with
  | .f32 => inferInstanceAs (Zero Float32)
  | .f64 => inferInstanceAs (Zero Float)
  | .z64 => inferInstanceAs (Zero (Complex Float32))
  | .z128 => inferInstanceAs (Zero (Complex Float))

instance : Add t.Value :=
  match t with
  | .f32 => inferInstanceAs (Add Float32)
  | .f64 => inferInstanceAs (Add Float)
  | .z64 => inferInstanceAs (Add (Complex Float32))
  | .z128 => inferInstanceAs (Add (Complex Float))

instance : Sub t.Value :=
  match t with
  | .f32 => inferInstanceAs (Sub Float32)
  | .f64 => inferInstanceAs (Sub Float)
  | .z64 => inferInstanceAs (Sub (Complex Float32))
  | .z128 => inferInstanceAs (Sub (Complex Float))

instance : Add t.Coefficient :=
  match t with
  | .f32 | .z64 => inferInstanceAs (Add Float32)
  | .f64 | .z128 => inferInstanceAs (Add Float)

instance : Mul t.Coefficient :=
  match t with
  | .f32 | .z64 => inferInstanceAs (Mul Float32)
  | .f64 | .z128 => inferInstanceAs (Mul Float)

instance : Scalar t.Coefficient :=
  match t with
  | .f32 | .z64 => inferInstanceAs (Scalar Float32)
  | .f64 | .z128 => inferInstanceAs (Scalar Float)

instance : Sample t.Value t.Coefficient :=
  match t with
  | .f32 => inferInstanceAs (Sample Float32 Float32)
  | .f64 => inferInstanceAs (Sample Float Float)
  | .z64 => inferInstanceAs (Sample (Complex Float32) Float32)
  | .z128 => inferInstanceAs (Sample (Complex Float) Float)

instance : Element t.Value := ⟨t⟩

end Instances

end ElementType

namespace Samples

def of : (t : ElementType) → List t.Value → Samples
  | .f32, xs => .f32 xs
  | .f64, xs => .f64 xs
  | .z64, xs => .z64 xs
  | .z128, xs => .z128 xs

def as? : (t : ElementType) → Samples → Option (List t.Value)
  | .f32, .f32 xs => some xs
  | .f64, .f64 xs => some xs
  | .z64, .z64 xs => some xs
  | .z128, .z128 xs => some xs
  | _, _ => none

end Samples

/-- A converter of the element type that its configuration names. -/
structure TypedConverter where
  type : ElementType
  converter : Converter type.Value type.Coefficient

namespace TypedConverter

def ofConfig (config : Config) : Except ConfigError TypedConverter := do
  let c ← Converter.ofConfig config
  .ok ⟨config.type, c⟩

def ask (c : TypedConverter) (q : Request (Job c.type.Value)) :
    Checked (TypedConverter × Reply Samples) := do
  let (d, y) ← c.converter.respond q
  .ok (⟨c.type, d⟩, y.map (Samples.of c.type) id)

def respond (c : TypedConverter) : Request AnyJob → Checked (TypedConverter × Reply Samples)
  | .transform job =>
    match job.samples.as? c.type, job.slice.as? c.type with
    | some xs, some ys => c.ask (.transform ⟨⟨job.header, xs⟩, ys⟩)
    | some _, none => .ok (c, .rejected job.slice (.elementType c.type job.slice.type))
    | none, _ => .ok (c, .rejected job.slice (.elementType c.type job.samples.type))
  | .predict h => c.ask (.predict h)
  | .required n => c.ask (.required n)
  | .setQuality q => c.ask (.setQuality q)
  | .setZeroLatency b => c.ask (.setZeroLatency b)
  | .configure config =>
    if config.type = c.type then c.ask (.configure config)
    else
      match ofConfig config with
      | .error why => .ok (c, .refused why)
      | .ok fresh => .ok (fresh, .done)
  | .reset => c.ask .reset
  | .split m => c.ask (.split m)

def run (c : TypedConverter) :
    List (Request AnyJob) → Checked (TypedConverter × List (Reply Samples))
  | [] => .ok (c, [])
  | r :: rs => do
    let (c, y) ← c.respond r
    let (c, ys) ← run c rs
    .ok (c, y :: ys)

end TypedConverter

namespace AnyConverter

def of : (t : ElementType) → Converter t.Value t.Coefficient → AnyConverter
  | .f32, c => .f32 c
  | .f64, c => .f64 c
  | .z64, c => .z64 c
  | .z128, c => .z128 c

theorem carries_of (t : ElementType) : Carries (of t) (Samples.of t) := by
  cases t with
  | f32 => exact carries_f32
  | f64 => exact carries_f64
  | z64 => exact carries_z64
  | z128 => exact carries_z128

end AnyConverter

namespace Samples

variable {t : ElementType} {xs : Samples}

theorem as?_eq_some_iff {ys : List t.Value} : xs.as? t = some ys ↔ xs = of t ys := by
  constructor
  · cases t <;> cases xs <;> rintro ⟨⟩ <;> rfl
  · rintro rfl
    cases t <;> rfl

theorem as?_eq_none_iff : xs.as? t = none ↔ xs.type ≠ t := by
  cases t <;> cases xs <;> simp [as?, type]

theorem type_of (xs : List t.Value) : (of t xs).type = t := by
  cases t <;> rfl

end Samples

def Job.any {α : Type} (list : List α → Samples) (job : Job α) : AnyJob :=
  ⟨job.buffer.header, list job.buffer.samples, list job.slice⟩

namespace AnyConverter

section Carries

theorem settle_lift {σ τ β γ : Type} (wrap : σ → τ) (f : β → γ)
    (r : Except (Refused σ) σ) :
    settle (Refused.lift wrap r) = Prod.map wrap (Reply.map f id) (settle r) := by
  cases r <;> rfl

variable {α ρ : Type} [Zero α] [Add α] [Sub α] [Add ρ] [Mul ρ] [Scalar ρ] [Sample α ρ] [Element α]
variable {wrap : Converter α ρ → AnyConverter} {list : List α → Samples}

theorem Carries.respond (w : Carries wrap list) (c : Converter α ρ) {q : Request (Job α)}
    (hq : ∀ config, q = .configure config → config.type = Element.type α) :
    (wrap c).respond (q.map (Job.any list) id) =
      (c.respond q).map (Prod.map wrap (Reply.map list id)) := by
  cases q with
  | transform job =>
    simp only [Request.map, Job.any, AnyConverter.respond, Converter.respond, w.transform]
    cases c.transform job.buffer job.slice with
    | error f => rfl
    | ok r => cases r <;> rfl
  | predict h =>
    simp only [Request.map, AnyConverter.respond, Converter.respond, w.predict]
    cases c.predict h <;> rfl
  | required n =>
    simp only [Request.map, AnyConverter.respond, Converter.respond, w.required]
    cases c.requiredLen n <;> rfl
  | setQuality n =>
    simp only [Request.map, AnyConverter.respond, Converter.respond, w.quality]
    exact congr_arg Except.ok (settle_lift wrap list _)
  | setZeroLatency b =>
    simp only [Request.map, AnyConverter.respond, Converter.respond, w.latency]
    rfl
  | configure config =>
    have htype : config.type = (wrap c).type := (hq config rfl).trans (w.type c).symm
    simp only [Request.map, id_eq, AnyConverter.respond, Converter.respond, configure,
      if_pos htype, w.reconfigure]
    exact congr_arg Except.ok (settle_lift wrap list _)
  | reset =>
    simp only [Request.map, AnyConverter.respond, Converter.respond, w.reset]
    rfl
  | split m =>
    simp only [Request.map, AnyConverter.respond, Converter.respond, w.split]
    cases c.splitStamp m <;> rfl

end Carries

theorem ofType_eq (config : Config) (t : ElementType) :
    ofType config t = (Converter.ofConfig config).map (of t) := by
  cases t <;> rfl

end AnyConverter

namespace TypedConverter

open AnyConverter (carries_of)

/-- The converter of any type that has this one inside. -/
def erase (c : TypedConverter) : AnyConverter := .of c.type c.converter

theorem erase_type (c : TypedConverter) : c.erase.type = c.type :=
  (carries_of c.type).type c.converter

theorem erase_setup (c : TypedConverter) : c.erase.setup = c.converter.setup :=
  (carries_of c.type).setup c.converter

theorem erase_ofConfig (config : Config) :
    AnyConverter.ofConfig config = (ofConfig config).map erase := by
  rw [AnyConverter.ofConfig, AnyConverter.ofType_eq, ofConfig]
  cases (Converter.ofConfig config :
    Except ConfigError (Converter config.type.Value config.type.Coefficient)) <;> rfl

theorem erase_ask (c : TypedConverter) {q : Request (Job c.type.Value)}
    (hq : ∀ config, q = .configure config → config.type = c.type) :
    c.erase.respond (q.map (Job.any (Samples.of c.type)) id) =
      (c.ask q).map (Prod.map erase id) := by
  rw [erase, (carries_of c.type).respond c.converter hq, ask]
  cases c.converter.respond q <;> rfl

theorem erase_mistyped (c : TypedConverter) {job : AnyJob}
    (h : ¬(job.samples.type = c.type ∧ job.slice.type = c.type)) :
    c.erase.respond (.transform job) = .ok (c.erase, .rejected job.slice (.elementType c.type
      (if job.samples.type = c.type then job.slice.type else job.samples.type))) := by
  rw [← c.erase_type] at h ⊢
  rw [AnyConverter.respond, AnyConverter.transform_of_type_ne h]
  rfl

theorem erase_respond_transform (c : TypedConverter) (job : AnyJob) :
    c.erase.respond (.transform job) =
      (c.respond (.transform job)).map (Prod.map erase id) := by
  obtain ⟨header, xs, ys⟩ := job
  simp only [respond]
  cases hx : xs.as? c.type with
  | none =>
    have hne := Samples.as?_eq_none_iff.mp hx
    rw [c.erase_mistyped fun h => hne h.1, if_neg hne]
    rfl
  | some as =>
    obtain rfl := Samples.as?_eq_some_iff.mp hx
    cases hy : ys.as? c.type with
    | none =>
      have hne := Samples.as?_eq_none_iff.mp hy
      rw [c.erase_mistyped fun h => hne h.2, if_pos (Samples.type_of as)]
      rfl
    | some bs =>
      obtain rfl := Samples.as?_eq_some_iff.mp hy
      exact c.erase_ask (q := .transform ⟨⟨header, as⟩, bs⟩) nofun

theorem erase_respond_configure (c : TypedConverter) (config : Config) :
    c.erase.respond (.configure config) =
      (c.respond (.configure config)).map (Prod.map erase id) := by
  by_cases h : config.type = c.type
  · simp only [respond, if_pos h]
    apply c.erase_ask (q := .configure config)
    rintro _ ⟨⟩
    exact h
  · simp only [respond, if_neg h, AnyConverter.respond, AnyConverter.configure, erase_type,
      erase_ofConfig]
    cases ofConfig config <;> rfl

theorem erase_respond (c : TypedConverter) (r : Request AnyJob) :
    c.erase.respond r = (c.respond r).map (Prod.map erase id) := by
  cases r with
  | transform job => exact c.erase_respond_transform job
  | predict h => exact c.erase_ask (q := .predict h) nofun
  | required n => exact c.erase_ask (q := .required n) nofun
  | setQuality n => exact c.erase_ask (q := .setQuality n) nofun
  | setZeroLatency b => exact c.erase_ask (q := .setZeroLatency b) nofun
  | configure config => exact c.erase_respond_configure config
  | reset => exact c.erase_ask (q := .reset) nofun
  | split m => exact c.erase_ask (q := .split m) nofun

theorem erase_run (c : TypedConverter) (rs : List (Request AnyJob)) :
    c.erase.run rs = (c.run rs).map (Prod.map erase id) := by
  induction rs generalizing c with
  | nil => rfl
  | cons r rs ih =>
    simp only [AnyConverter.run, run, erase_respond]
    cases c.respond r with
    | error f => rfl
    | ok p =>
      show (do let q ← p.1.erase.run rs; _) = _
      rw [ih]
      show _ = Except.map _ (do let q ← p.1.run rs; _)
      cases p.1.run rs <;> rfl

inductive Alike : TypedConverter → TypedConverter → Prop
  | of {t : ElementType} {c d : Converter t.Value t.Coefficient} (h : c.Alike d) :
    Alike ⟨t, c⟩ ⟨t, d⟩

namespace Alike

variable {c d : TypedConverter}

theorem refl (c : TypedConverter) : c.Alike c := .of (.refl c.converter)

theorem setup (a : c.Alike d) : c.converter.setup = d.converter.setup := by
  cases a with
  | of h => exact h.setup

theorem ask {t : ElementType} {c d : Converter t.Value t.Coefficient} (a : c.Alike d)
    (q : Request (Job t.Value)) :
    Checked.Both (fun p q => p.1.Alike q.1 ∧ p.2 = q.2) (TypedConverter.ask ⟨t, c⟩ q)
      (TypedConverter.ask ⟨t, d⟩ q) :=
  (a.respond q).bind fun _ _ h => .ok ⟨.of h.1, congr_arg (Reply.map (Samples.of t) id) h.2⟩

theorem respond (a : c.Alike d) (r : Request AnyJob) :
    Checked.Both (fun p q => p.1.Alike q.1 ∧ p.2 = q.2) (c.respond r) (d.respond r) := by
  cases a with
  | @of t c d h =>
    cases r with
    | transform job =>
      simp only [TypedConverter.respond]
      split
      · exact ask h _
      · exact .ok ⟨.of h, rfl⟩
      · exact .ok ⟨.of h, rfl⟩
    | configure config =>
      simp only [TypedConverter.respond]
      split_ifs
      · exact ask h _
      · cases ofConfig config with
        | error why => exact .ok ⟨.of h, rfl⟩
        | ok fresh => exact .ok ⟨.refl fresh, rfl⟩
    | predict | required | setQuality | setZeroLatency | reset | split => exact ask h _

theorem run (a : c.Alike d) (rs : List (Request AnyJob)) :
    Checked.Both (fun p q => p.1.Alike q.1 ∧ p.2 = q.2) (c.run rs) (d.run rs) := by
  induction rs generalizing c d with
  | nil => exact .ok ⟨a, rfl⟩
  | cons r rs ih =>
    refine (a.respond r).bind ?_
    rintro ⟨_, _⟩ ⟨_, _⟩ ⟨h, hy⟩
    refine (ih h).bind ?_
    rintro ⟨_, _⟩ ⟨_, _⟩ ⟨h', hys⟩
    cases hy
    cases hys
    exact .ok ⟨h', rfl⟩

end Alike

/-- No run of requests tells the states apart, whatever types it names. -/
def Indistinguishable (c d : TypedConverter) : Prop :=
  ∀ rs : List (Request AnyJob),
    (c.run rs).map (fun r => (r.1.converter.setup, r.2)) =
      (d.run rs).map fun r => (r.1.converter.setup, r.2)

theorem Alike.indistinguishable {c d : TypedConverter} (a : c.Alike d) :
    c.Indistinguishable d := by
  intro rs
  apply (a.run rs).map_eq
  rintro p q ⟨hpq, hys⟩
  rw [hpq.setup, hys]

theorem ofConfig_eq (config : Config) :
    ofConfig config = (Converter.check config.type.Value config).map fun s =>
      ⟨config.type, Converter.ofSetup s⟩ := by
  simp only [ofConfig, Converter.ofConfig]
  cases Converter.check config.type.Value config <;> rfl

theorem respond_configure_error (c : TypedConverter) {config : Config} {why : ConfigError}
    (h : ofConfig config = .error why) :
    c.respond (.configure config) = .ok (c, .refused why) := by
  by_cases ht : config.type = c.type
  · obtain ⟨t, c⟩ := c
    cases ht
    simp only [respond, if_pos, ask, Converter.respond]
    rw [ofConfig_eq] at h
    obtain ⟨s, hs, -⟩ | ⟨why, hs, hc⟩ := c.configure_cases config
    · rw [hs] at h
      cases h
    · rw [hs] at h
      cases h
      rw [hc]
      rfl
  · simp only [respond, if_neg ht, h]

theorem respond_configure_ok (c : TypedConverter) {config : Config} {fresh : TypedConverter}
    (h : ofConfig config = .ok fresh) :
    ∃ d, c.respond (.configure config) = .ok (d, .done) ∧ d.Alike fresh := by
  by_cases ht : config.type = c.type
  · obtain ⟨t, c⟩ := c
    cases ht
    simp only [respond, if_pos, ask, Converter.respond]
    rw [ofConfig_eq] at h
    obtain ⟨s, hs, hc⟩ | ⟨why, hs, -⟩ := c.configure_cases config
    · rw [hs] at h
      cases h
      rw [hc]
      exact ⟨_, rfl, .of (c.configured_alike s)⟩
    · rw [hs] at h
      cases h
  · exact ⟨fresh, by simp only [respond, if_neg ht, h], .refl fresh⟩

end TypedConverter

namespace AnyConverter

theorem Reachable.run {a b : AnyConverter} (ha : a.Reachable) {rs : List (Request AnyJob)}
    {ys : List (Reply Samples)} (h : a.run rs = .ok (b, ys)) : b.Reachable := by
  induction rs generalizing a ys with
  | nil =>
    cases h
    exact ha
  | cons r rs ih =>
    obtain ⟨p, hp, h⟩ := Checked.bind_eq_ok_iff.mp h
    obtain ⟨q, hq, h⟩ := Checked.bind_eq_ok_iff.mp h
    cases h
    exact ih (ha.step hp) hq

theorem Reachable.type_eq {a : AnyConverter} (ha : a.Reachable) : a.type = a.setup.config.type := by
  have hinner := ha.inner
  induction a using of_carries with
  | h w c =>
    rw [w.type, w.setup]
    exact ((w.inner c).mp hinner).settled.type.symm

end AnyConverter

def AnyJob.mistyped? (job : AnyJob) (expected : ElementType) : Option ElementType :=
  [job.samples.type, job.slice.type].find? (· ≠ expected)

namespace AnyConverter

/-- The conversion by the arm that the three types select, if there is one. -/
def arm? : AnyConverter → AnyJob → Option (Checked Outcome)
  | .f32 c, ⟨header, .f32 xs, .f32 ys⟩ => some do
    let r ← c.transform ⟨header, xs⟩ ys
    .ok (.ofTyped .f32 .f32 r)
  | .f64 c, ⟨header, .f64 xs, .f64 ys⟩ => some do
    let r ← c.transform ⟨header, xs⟩ ys
    .ok (.ofTyped .f64 .f64 r)
  | .z64 c, ⟨header, .z64 xs, .z64 ys⟩ => some do
    let r ← c.transform ⟨header, xs⟩ ys
    .ok (.ofTyped .z64 .z64 r)
  | .z128 c, ⟨header, .z128 xs, .z128 ys⟩ => some do
    let r ← c.transform ⟨header, xs⟩ ys
    .ok (.ofTyped .z128 .z128 r)
  | _, _ => none

def dispatch? (a : AnyConverter) (job : AnyJob) : Option (Checked Outcome) :=
  match job.mistyped? a.type with
  | some provided => some (.ok (.error ⟨a, job.slice, .elementType a.type provided⟩))
  | none => a.arm? job

theorem dispatch?_eq (a : AnyConverter) (job : AnyJob) :
    a.dispatch? job = some (a.transform job) := by
  obtain ⟨header, xs, ys⟩ := job
  cases a <;> cases xs <;> cases ys <;> rfl

/-- A converter of any type is made, and runs, as the converter of the configured type does. Its
type is the configured one, a configuration of whatever type starts afresh or changes nothing,
and there is an arm for all sequences that the check of their types lets through. -/
theorem runs_as_typed (config : Config) :
    ofConfig config = (TypedConverter.ofConfig config).map TypedConverter.erase ∧
    ∀ c, TypedConverter.ofConfig config = .ok c →
      ∀ rs, c.erase.run rs = (c.run rs).map (Prod.map TypedConverter.erase id) ∧
        ∀ d ys, c.run rs = .ok (d, ys) →
          (d.erase.setup = d.converter.setup ∧ d.erase.type = d.erase.setup.config.type) ∧
          (∀ config' why, TypedConverter.ofConfig config' = .error why →
            d.respond (.configure config') = .ok (d, .refused why)) ∧
          (∀ config' fresh, TypedConverter.ofConfig config' = .ok fresh →
            ∃ e, d.respond (.configure config') = .ok (e, .done) ∧ e.Indistinguishable fresh) ∧
          ∀ job, d.erase.dispatch? job = some (d.erase.transform job) := by
  refine ⟨TypedConverter.erase_ofConfig config, fun c hc rs => ⟨c.erase_run rs, ?_⟩⟩
  intro d ys hd
  have hmade : ofConfig config = .ok c.erase := by
    rw [TypedConverter.erase_ofConfig, hc]
    rfl
  have hrun : c.erase.run rs = .ok (d.erase, ys) := by
    rw [TypedConverter.erase_run, hd]
    rfl
  have hreached : d.erase.Reachable := (Reachable.made hmade).run hrun
  refine ⟨⟨d.erase_setup, hreached.type_eq⟩, fun config' why => d.respond_configure_error,
    fun config' fresh hfresh => ?_, d.erase.dispatch?_eq⟩
  obtain ⟨e, he, halike⟩ := d.respond_configure_ok hfresh
  exact ⟨e, he, halike.indistinguishable⟩

open Converter in
/-- A quality that there is not leaves the type, and with another type comes a new converter,
which turns samples of the old type away. -/
theorem runs_as_typed_from_f64_to_f32 :
    ∃ (c d : TypedConverter) (why : ConfigError),
      ofConfig (tripling 0 .hold).config = .ok c.erase ∧ c.erase.type = .f64 ∧
      c.erase.run
        [.configure { (tripling 0 .hold).config with type := .z64, quality := 9 },
          .configure { (tripling 0 .hold).config with type := .f32 },
          .transform ⟨threePoints.header, .f64 [1, 2, 4], .f32 []⟩] =
        .ok (d.erase, [.refused why, .done, .rejected (.f32 []) (.elementType .f32 .f64)]) ∧
      d.erase.type = .f32 ∧ d.erase.setup.config.type = .f32 := by
  obtain ⟨d, why, hd, htype⟩ : ∃ (d : TypedConverter) (why : ConfigError),
      TypedConverter.run ⟨.f64, (ofSetup (tripling 0 .hold) : Converter Float Float)⟩
        [.configure { (tripling 0 .hold).config with type := .z64, quality := 9 },
          .configure { (tripling 0 .hold).config with type := .f32 },
          .transform ⟨threePoints.header, .f64 [1, 2, 4], .f32 []⟩] =
        .ok (d, [.refused why, .done, .rejected (.f32 []) (.elementType .f32 .f64)]) ∧
      d.type = .f32 := ⟨_, _, rfl, rfl⟩
  obtain ⟨hmade, hruns⟩ := runs_as_typed (tripling 0 .hold).config
  obtain ⟨hrun, hall⟩ := hruns ⟨.f64, (ofSetup (tripling 0 .hold) : Converter Float Float)⟩ rfl
    [.configure { (tripling 0 .hold).config with type := .z64, quality := 9 },
      .configure { (tripling 0 .hold).config with type := .f32 },
      .transform ⟨threePoints.header, .f64 [1, 2, 4], .f32 []⟩]
  obtain ⟨⟨-, heq⟩, -⟩ := hall d _ hd
  have herased : d.erase.type = .f32 := d.erase_type.trans htype
  rw [hd] at hrun
  exact ⟨_, d, why, hmade, rfl, hrun, herased, heq ▸ herased⟩

end AnyConverter

end RateConversion
