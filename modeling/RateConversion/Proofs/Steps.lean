import RateConversion.Proofs.Opening

/-! What a request can do to a converter: nothing, if it only asks or is refused, or one of
five things. What a request keeps is proved once for each. -/

namespace RateConversion

theorem Kernel.reset_ofConversion {α ρ : Type} [Zero α] [Scalar ρ] (conv : Conversion) :
    (ofConversion conv : Kernel α ρ).reset 0 = ofConversion conv := by
  cases conv with
  | down factor d z => cases d <;> rfl
  | _ => rfl

namespace Converter

section Buffers

variable {α ρ : Type} [Zero α] [Add α] [Sub α] [Add ρ] [Mul ρ] [Scalar ρ] [Sample α ρ]
  {c : Converter α ρ} {b : Buffer α} {slice : List α} {t : Transformed α ρ}

theorem settings_of_continuous (hd : ¬c.Discontinuous b.header)
    (ht : c.transform b slice = .ok (.ok t)) :
    t.converter.setup = c.setup ∧ t.converter.staged? = c.staged? := by
  obtain ⟨-, n, d, output, -, -, he, hr, -⟩ := exists_of_transform ht
  cases (enter_of_continuous hd).symm.trans he
  exact settings_of_proceed hr

theorem settings_of_discontinuous (hd : c.Discontinuous b.header)
    (ht : c.transform b slice = .ok (.ok t)) :
    t.converter.setup = c.pending ∧ t.converter.staged? = none := by
  obtain ⟨-, n, d, output, -, -, he, hr, -⟩ := exists_of_transform ht
  obtain ⟨-, rfl⟩ := (enter_of_discontinuous hd).mp he
  exact settings_of_proceed hr

theorem pending_of_transform (ht : c.transform b slice = .ok (.ok t)) :
    t.converter.pending = c.pending := by
  by_cases hd : c.Discontinuous b.header
  · obtain ⟨hsetup, hstaged⟩ := settings_of_discontinuous hd ht
    rw [pending, hsetup, hstaged]
    rfl
  · obtain ⟨hsetup, hstaged⟩ := settings_of_continuous hd ht
    rw [pending, hsetup, hstaged]
    rfl

end Buffers

section Settings

variable {α ρ : Type} [Zero α] [Scalar ρ] {c d : Converter α ρ}

theorem setQuality_cases (c : Converter α ρ) (q : Nat) :
    (∃ s, c.pending.withQuality q = .ok s ∧
      c.setQuality q = .ok { c with staged? := some s }) ∨
    ∃ why, c.pending.withQuality q = .error why ∧ c.setQuality q = .error ⟨c, why⟩ := by
  simp only [setQuality]
  cases c.pending.withQuality q with
  | ok s => exact .inl ⟨s, rfl, rfl⟩
  | error why => exact .inr ⟨why, rfl, rfl⟩

def configured (c : Converter α ρ) (s : Setup) : Converter α ρ :=
  { c with setup := s, staged? := none }.rebuild.reset

theorem configured_kernel (c : Converter α ρ) (s : Setup) :
    (c.configured s).kernel = .ofConversion s.conversion := by
  simp only [configured, reset, rebuild_kernel, Kernel.reset_ofConversion]

variable [Element α]

theorem configure_cases (c : Converter α ρ) (config : Config) :
    (∃ s, check α config = .ok s ∧ c.configure config = .ok (c.configured s)) ∨
    ∃ why, check α config = .error why ∧ c.configure config = .error ⟨c, why⟩ := by
  simp only [configure]
  cases check α config with
  | ok s => exact .inl ⟨s, rfl, rfl⟩
  | error why => exact .inr ⟨why, rfl, rfl⟩

end Settings

variable {α ρ : Type} [Zero α] [Scalar ρ] [Element α]
variable [Add α] [Sub α] [Add ρ] [Mul ρ] [Sample α ρ]

theorem respond_of_transform {c : Converter α ρ} {b : Buffer α} {slice : List α}
    {t : Transformed α ρ} (h : c.transform b slice = .ok (.ok t)) :
    c.respond (.transform ⟨b, slice⟩) = .ok (t.converter, .transformed t.slice t.stamp) := by
  rw [respond, h]
  rfl

theorem respond_of_setQuality {c d : Converter α ρ} {q : Nat} (h : c.setQuality q = .ok d) :
    c.respond (.setQuality q) = .ok (d, .done) := by
  rw [respond, h]
  rfl

theorem respond_of_configure {c d : Converter α ρ} {config : Config}
    (h : c.configure config = .ok d) : c.respond (.configure config) = .ok (d, .done) := by
  rw [respond, h]
  rfl

inductive Step (c : Converter α ρ) : Request (Job α) → Converter α ρ → Prop
  | kept {r : Request (Job α)} : Step c r c
  | transformed {job : Job α} {t : Transformed α ρ}
    (h : c.transform job.buffer job.slice = .ok (.ok t)) : Step c (.transform job) t.converter
  | quality {q : Nat} {s : Setup} (h : c.pending.withQuality q = .ok s) :
    Step c (.setQuality q) { c with staged? := some s }
  | latency (b : Bool) :
    Step c (.setZeroLatency b) { c with staged? := some (c.pending.withZeroLatency b) }
  | configured {config : Config} {s : Setup} (h : check α config = .ok s) :
    Step c (.configure config) (c.configured s)
  | reset : Step c .reset c.reset

theorem step_of_respond {c c' : Converter α ρ} {r : Request (Job α)} {y : Reply (List α)}
    (h : c.respond r = .ok (c', y)) : c.Step r c' := by
  cases r with
  | transform job =>
    obtain ⟨t, ht, h⟩ := Checked.bind_eq_ok_iff.mp h
    cases t with
    | ok t =>
      cases h
      exact .transformed ht
    | error r =>
      obtain ⟨why, rfl⟩ := exists_of_rejected ht
      cases h
      exact .kept
  | predict | required | split =>
    obtain ⟨_, -, h⟩ := Checked.bind_eq_ok_iff.mp h
    cases h
    exact .kept
  | setQuality q =>
    rw [respond] at h
    obtain ⟨s, hs, hq⟩ | ⟨why, -, hq⟩ := c.setQuality_cases q
    · rw [hq] at h
      cases h
      exact .quality hs
    · rw [hq] at h
      cases h
      exact .kept
  | setZeroLatency b =>
    cases h
    exact .latency b
  | configure config =>
    rw [respond] at h
    obtain ⟨s, hs, hc⟩ | ⟨why, -, hc⟩ := c.configure_cases config
    · rw [hc] at h
      cases h
      exact .configured hs
    · rw [hc] at h
      cases h
      exact .kept
  | reset =>
    cases h
    exact .reset

end Converter

end RateConversion
