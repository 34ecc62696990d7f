import RateConversion.AnyConverter
import RateConversion.Proofs.Reachability

/-! The converter of any element type as four converters of one type each. What every typed
converter does is proved once, for the way in which a converter of one type stands among
those of any, and carries over to all four. -/

namespace RateConversion

theorem ConfigError.map_eq_ok_iff {σ τ : Type} {f : σ → τ} {x : Except ConfigError σ} {b : τ} :
    x.map f = .ok b ↔ ∃ a, x = .ok a ∧ b = f a := by
  cases x with
  | error e => simp [Except.map]
  | ok a => simp [Except.map, eq_comm]

namespace AnyConverter

inductive Reachable : AnyConverter → Prop
  | made {config : Config} {a : AnyConverter} (h : ofConfig config = .ok a) : Reachable a
  | step {a a' : AnyConverter} {r : Request AnyJob} {y : Reply Samples} (ha : Reachable a)
    (h : a.respond r = .ok (a', y)) : Reachable a'

def Inner : AnyConverter → Prop
  | .f32 c => c.Reachable
  | .f64 c => c.Reachable
  | .z64 c => c.Reachable
  | .z128 c => c.Reachable

section Carries

variable {α ρ : Type} [Zero α] [Add α] [Sub α] [Add ρ] [Mul ρ] [Scalar ρ] [Sample α ρ] [Element α]

/-- Converters and sequences of one element type stand so among those of any. -/
structure Carries (wrap : Converter α ρ → AnyConverter) (list : List α → Samples) : Prop where
  type (c : Converter α ρ) : (wrap c).type = Element.type α
  setup (c : Converter α ρ) : (wrap c).setup = c.setup
  inner (c : Converter α ρ) : (wrap c).Inner ↔ c.Reachable
  samples (xs : Samples) : xs.type = Element.type α ↔ ∃ ys, xs = list ys
  length (xs : List α) : (list xs).length = xs.length
  transform (c : Converter α ρ) (h : Header) (xs ys : List α) :
    (wrap c).transform ⟨h, list xs, list ys⟩ = (do
      let r ← c.transform ⟨h, xs⟩ ys
      .ok (.ofTyped wrap list r))
  predict (c : Converter α ρ) (h : Header) : (wrap c).predict h = c.predict h
  quality (c : Converter α ρ) (q : Nat) : (wrap c).setQuality q =
    Refused.lift wrap (c.setQuality q)
  latency (c : Converter α ρ) (b : Bool) : (wrap c).setZeroLatency b = wrap (c.setZeroLatency b)
  reconfigure (c : Converter α ρ) (config : Config) :
    (wrap c).reconfigure config = Refused.lift wrap (c.configure config)
  reset (c : Converter α ρ) : (wrap c).reset = wrap c.reset
  required (c : Converter α ρ) (n : Nat) : (wrap c).requiredLen n = c.requiredLen n
  split (c : Converter α ρ) (m : Stamp) : (wrap c).splitStamp m = c.splitStamp m

end Carries

theorem carries_f32 : Carries AnyConverter.f32 Samples.f32 :=
  ⟨fun _ => rfl, fun _ => rfl, fun _ => .rfl,
    fun xs => by cases xs <;> simp [Samples.type, Element.type], fun _ => rfl,
    fun _ _ _ _ => rfl, fun _ _ => rfl, fun _ _ => rfl, fun _ _ => rfl, fun _ _ => rfl,
    fun _ => rfl, fun _ _ => rfl, fun _ _ => rfl⟩

theorem carries_f64 : Carries AnyConverter.f64 Samples.f64 :=
  ⟨fun _ => rfl, fun _ => rfl, fun _ => .rfl,
    fun xs => by cases xs <;> simp [Samples.type, Element.type], fun _ => rfl,
    fun _ _ _ _ => rfl, fun _ _ => rfl, fun _ _ => rfl, fun _ _ => rfl, fun _ _ => rfl,
    fun _ => rfl, fun _ _ => rfl, fun _ _ => rfl⟩

theorem carries_z64 : Carries AnyConverter.z64 Samples.z64 :=
  ⟨fun _ => rfl, fun _ => rfl, fun _ => .rfl,
    fun xs => by cases xs <;> simp [Samples.type, Element.type], fun _ => rfl,
    fun _ _ _ _ => rfl, fun _ _ => rfl, fun _ _ => rfl, fun _ _ => rfl, fun _ _ => rfl,
    fun _ => rfl, fun _ _ => rfl, fun _ _ => rfl⟩

theorem carries_z128 : Carries AnyConverter.z128 Samples.z128 :=
  ⟨fun _ => rfl, fun _ => rfl, fun _ => .rfl,
    fun xs => by cases xs <;> simp [Samples.type, Element.type], fun _ => rfl,
    fun _ _ _ _ => rfl, fun _ _ => rfl, fun _ _ => rfl, fun _ _ => rfl, fun _ _ => rfl,
    fun _ => rfl, fun _ _ => rfl, fun _ _ => rfl⟩

/-- What holds of typed converters of every type holds of those of any type. -/
theorem of_carries {P : AnyConverter → Prop}
    (h : ∀ {α ρ : Type} [Zero α] [Add α] [Sub α] [Add ρ] [Mul ρ] [Scalar ρ] [Sample α ρ]
      [Element α] {wrap : Converter α ρ → AnyConverter} {list : List α → Samples},
      Carries wrap list → ∀ c, P (wrap c)) (a : AnyConverter) : P a := by
  cases a with
  | f32 c => exact h carries_f32 c
  | f64 c => exact h carries_f64 c
  | z64 c => exact h carries_z64 c
  | z128 c => exact h carries_z128 c

theorem inner_of_ofConfig {config : Config} {a : AnyConverter} (h : ofConfig config = .ok a) :
    a.Inner := by
  simp only [ofConfig] at h
  cases ht : config.type with
  | f32 | f64 | z64 | z128 =>
    rw [ht] at h
    obtain ⟨c, hc, rfl⟩ := ConfigError.map_eq_ok_iff.mp h
    exact Converter.Reachable.made hc

theorem transform_of_type_ne {a : AnyConverter} {job : AnyJob}
    (h : ¬(job.samples.type = a.type ∧ job.slice.type = a.type)) :
    a.transform job = .ok (.error ⟨a, job.slice, .elementType a.type
      (if job.samples.type = a.type then job.slice.type else job.samples.type)⟩) := by
  obtain ⟨header, xs, ys⟩ := job
  cases a <;> cases xs <;> cases ys <;> first | rfl | exact absurd ⟨rfl, rfl⟩ h

section Respond

variable {α ρ : Type} [Zero α] [Add α] [Sub α] [Add ρ] [Mul ρ] [Scalar ρ] [Sample α ρ] [Element α]
variable {wrap : Converter α ρ → AnyConverter} {list : List α → Samples}

theorem Carries.transform_cases (w : Carries wrap list) (c : Converter α ρ) {job : AnyJob}
    {r : Outcome} (h : (wrap c).transform job = .ok r) :
    (∃ why, r = .error ⟨wrap c, job.slice, why⟩) ∨
      ∃ xs ys t, job.samples = list xs ∧ job.slice = list ys ∧
        c.transform ⟨job.header, xs⟩ ys = .ok (.ok t) ∧
        r = .ok (wrap t.converter, list t.slice, t.stamp) := by
  by_cases ht : job.samples.type = (wrap c).type ∧ job.slice.type = (wrap c).type
  · obtain ⟨header, xs, ys⟩ := job
    rw [w.type] at ht
    obtain ⟨xs, rfl⟩ := (w.samples xs).mp ht.1
    obtain ⟨ys, rfl⟩ := (w.samples ys).mp ht.2
    rw [w.transform] at h
    obtain ⟨r', hr, h⟩ := Checked.bind_eq_ok_iff.mp h
    cases h
    cases r' with
    | error r' =>
      obtain ⟨why, rfl⟩ := Converter.exists_of_rejected hr
      exact .inl ⟨why, rfl⟩
    | ok t => exact .inr ⟨xs, ys, t, rfl, rfl, hr, rfl⟩
  · rw [transform_of_type_ne ht] at h
    cases h
    exact .inl ⟨_, rfl⟩

theorem Carries.quality_cases (w : Carries wrap list) (c : Converter α ρ) (q : Nat) :
    (∃ d, c.setQuality q = .ok d ∧ (wrap c).setQuality q = .ok (wrap d)) ∨
      ∃ why, (wrap c).setQuality q = .error ⟨wrap c, why⟩ := by
  rw [w.quality]
  obtain ⟨s, -, hq⟩ | ⟨why, -, hq⟩ := c.setQuality_cases q
  · exact .inl ⟨_, hq, by rw [hq]; rfl⟩
  · exact .inr ⟨why, by rw [hq]; rfl⟩

theorem Carries.configure_cases (w : Carries wrap list) (c : Converter α ρ) (config : Config) :
    (∃ d, c.configure config = .ok d ∧ (wrap c).configure config = .ok (wrap d)) ∨
      (∃ a, ofConfig config = .ok a ∧ (wrap c).configure config = .ok a) ∨
      ∃ why, (wrap c).configure config = .error ⟨wrap c, why⟩ := by
  simp only [configure]
  split_ifs
  · rw [w.reconfigure]
    obtain ⟨s, -, hc⟩ | ⟨why, -, hc⟩ := c.configure_cases config
    · exact .inl ⟨_, hc, by rw [hc]; rfl⟩
    · exact .inr (.inr ⟨why, by rw [hc]; rfl⟩)
  · cases ofConfig config with
    | ok a => exact .inr (.inl ⟨a, rfl, rfl⟩)
    | error why => exact .inr (.inr ⟨why, rfl⟩)

theorem Carries.inner_of_respond (w : Carries wrap list) {c : Converter α ρ} (hc : c.Reachable)
    {r : Request AnyJob} {a : AnyConverter} {y : Reply Samples}
    (h : (wrap c).respond r = .ok (a, y)) : a.Inner := by
  cases r with
  | transform job =>
    obtain ⟨x, hx, h⟩ := Checked.bind_eq_ok_iff.mp h
    obtain ⟨why, rfl⟩ | ⟨xs, ys, t, -, -, ht, rfl⟩ := w.transform_cases c hx
    · cases h
      exact (w.inner c).mpr hc
    · cases h
      exact (w.inner _).mpr (hc.step (Converter.respond_of_transform ht))
  | predict | required | split =>
    obtain ⟨_, -, h⟩ := Checked.bind_eq_ok_iff.mp h
    cases h
    exact (w.inner c).mpr hc
  | setQuality q =>
    rw [respond] at h
    obtain ⟨d, hd, hq⟩ | ⟨why, hq⟩ := w.quality_cases c q
    · rw [hq] at h
      cases h
      exact (w.inner _).mpr (hc.step (Converter.respond_of_setQuality hd))
    · rw [hq] at h
      cases h
      exact (w.inner c).mpr hc
  | setZeroLatency b =>
    cases h
    rw [w.latency]
    exact (w.inner _).mpr (hc.step (r := .setZeroLatency b) rfl)
  | configure config =>
    rw [respond] at h
    obtain ⟨d, hd, hc'⟩ | ⟨made, hmade, hc'⟩ | ⟨why, hc'⟩ := w.configure_cases c config
    · rw [hc'] at h
      cases h
      exact (w.inner _).mpr (hc.step (Converter.respond_of_configure hd))
    · rw [hc'] at h
      cases h
      exact inner_of_ofConfig hmade
    · rw [hc'] at h
      cases h
      exact (w.inner c).mpr hc
  | reset =>
    cases h
    rw [w.reset]
    exact (w.inner _).mpr (hc.step (r := .reset) rfl)

end Respond

theorem inner_of_respond {a a' : AnyConverter} {r : Request AnyJob} {y : Reply Samples}
    (ha : a.Inner) (h : a.respond r = .ok (a', y)) : a'.Inner := by
  induction a using of_carries with
  | h w c => exact w.inner_of_respond ((w.inner c).mp ha) h

theorem Reachable.inner {a : AnyConverter} (ha : a.Reachable) : a.Inner := by
  induction ha with
  | made h => exact inner_of_ofConfig h
  | step _ h ih => exact inner_of_respond ih h

end AnyConverter

end RateConversion
