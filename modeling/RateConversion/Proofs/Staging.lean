import RateConversion.Proofs.Reachability

/-! Settings that wait. What is staged describes the stream that the settings in effect
describe, so it can be staged anew from them, and every configuration in use is one that
a converter of this element type can be made from. -/

namespace RateConversion

structure Config.SameStream (c d : Config) : Prop where
  rateIn : d.rateIn = c.rateIn
  rateOut : d.rateOut = c.rateOut
  type : d.type = c.type
  unitSize : d.unitSize? = c.unitSize?

theorem Config.SameStream.trans {c d e : Config} (h : c.SameStream d) (h' : d.SameStream e) :
    c.SameStream e :=
  ⟨h'.rateIn.trans h.rateIn, h'.rateOut.trans h.rateOut, h'.type.trans h.type,
    h'.unitSize.trans h.unitSize⟩

theorem Config.SameStream.eq_of_settings {c d : Config} (h : c.SameStream d)
    (hq : c.quality = d.quality) (hz : c.zeroLatency = d.zeroLatency) : c = d := by
  obtain ⟨h1, h2, h3, h4⟩ := h
  cases c
  cases d
  cases h1
  cases h2
  cases h3
  cases h4
  cases hq
  cases hz
  rfl

namespace Setup

theorem Coherent.eq_of_config {s s' : Setup} (h : s.Coherent) (h' : s'.Coherent)
    (hc : s.config = s'.config) : s = s' := by
  obtain ⟨config, conversion⟩ := s
  obtain ⟨config', conversion'⟩ := s'
  cases hc
  cases h.symm.trans h'
  rfl

theorem exists_withQuality {s s' : Setup} (h' : s'.Coherent)
    (hsame : s.config.SameStream s'.config) :
    ∃ m, s.withQuality s'.config.quality = .ok m ∧
      m.withZeroLatency s'.config.zeroLatency = s' := by
  have hm := h'.withZeroLatency s.config.zeroLatency
  refine ⟨_, ofConfig_eq_ok_iff.mpr ⟨?_, hm⟩, (hm.withZeroLatency _).eq_of_config h' rfl⟩
  apply Config.SameStream.eq_of_settings
  · exact ⟨hsame.rateIn.symm, hsame.rateOut.symm, hsame.type.symm, hsame.unitSize.symm⟩
  · rfl
  · rfl

end Setup

namespace Converter

section Check

variable {α : Type} [Element α]

theorem check_of_coherent {s : Setup} (hs : s.Coherent) (ht : s.config.type = Element.type α) :
    check α s.config = .ok s := by
  rw [check, if_pos ht]
  exact Setup.ofConfig_eq_ok_iff.mpr ⟨rfl, hs⟩

theorem type_of_check {config : Config} {s : Setup} (h : check α config = .ok s) :
    s.config.type = Element.type α := by
  have hconfig := (check_eq_ok h).1
  simp only [check] at h
  split_ifs at h with ht
  rw [hconfig, ht]

end Check

variable {α ρ : Type} [Zero α] [Scalar ρ] [Element α]

structure Settled (c : Converter α ρ) : Prop where
  type : c.setup.config.type = Element.type α
  staged (s : Setup) : c.staged? = some s → c.setup.config.SameStream s.config

variable {c d : Converter α ρ}

theorem Settled.sameStream_pending (hc : c.Settled) :
    c.setup.config.SameStream c.pending.config := by
  simp only [pending]
  cases hs : c.staged? with
  | none => exact ⟨rfl, rfl, rfl, rfl⟩
  | some s => exact hc.staged s hs

theorem Settled.type_pending (hc : c.Settled) : c.pending.config.type = Element.type α :=
  hc.sameStream_pending.type.trans hc.type

theorem Settled.stage (hc : c.Settled) {s : Setup} (hs : c.pending.config.SameStream s.config) :
    { c with staged? := some s }.Settled := by
  refine ⟨hc.type, fun s' h' => ?_⟩
  cases h'
  exact hc.sameStream_pending.trans hs

theorem ofConfig_of_coherent {s : Setup} (hs : s.Coherent)
    (ht : s.config.type = Element.type α) :
    ofConfig s.config = .ok (ofSetup s : Converter α ρ) := by
  rw [ofConfig, check_of_coherent hs ht]
  rfl

theorem settled_ofSetup {config : Config} {s : Setup} (h : check α config = .ok s) :
    (ofSetup s : Converter α ρ).Settled := ⟨type_of_check h, fun _ h' => by cases h'⟩

theorem settled_configured {config : Config} {s : Setup} (h : check α config = .ok s) :
    (c.configured s).Settled := ⟨type_of_check h, fun _ h' => by cases h'⟩

theorem Settled.opened (hc : c.Settled) (h : Header) : (c.opened h).Settled :=
  ⟨hc.type_pending, fun _ h' => by cases h'⟩

theorem Settled.enter (hc : c.Settled) {h : Header} (he : c.enter h = .ok d) : d.Settled := by
  by_cases hd : c.Discontinuous h
  · obtain ⟨-, rfl⟩ := (enter_of_discontinuous hd).mp he
    exact hc.opened h
  · cases (enter_of_continuous hd).symm.trans he
    exact hc

variable [Add α] [Sub α] [Add ρ] [Mul ρ] [Sample α ρ]

theorem Settled.respond (hc : c.Settled) {r : Request (Job α)} {y : Reply (List α)}
    (h : c.respond r = .ok (d, y)) : d.Settled := by
  cases step_of_respond h with
  | kept => exact hc
  | transformed ht =>
    obtain ⟨-, n, e, output, -, -, he, hr, -⟩ := exists_of_transform ht
    have hentered := hc.enter he
    obtain ⟨hsetup, hstaged⟩ := settings_of_proceed hr
    exact ⟨hsetup ▸ hentered.type, fun s hs => hsetup ▸ hentered.staged s (hstaged ▸ hs)⟩
  | quality hq =>
    apply hc.stage
    rw [(Setup.ofConfig_eq_ok_iff.mp hq).1]
    exact ⟨rfl, rfl, rfl, rfl⟩
  | latency b => exact hc.stage ⟨rfl, rfl, rfl, rfl⟩
  | configured hs => exact settled_configured hs
  | reset => exact ⟨hc.type, hc.staged⟩

theorem Reachable.settled (hc : c.Reachable) : c.Settled := by
  induction hc with
  | @made config c h =>
    simp only [ofConfig] at h
    cases hs : check α config with
    | error e =>
      rw [hs] at h
      cases h
    | ok s =>
      rw [hs] at h
      cases h
      exact settled_ofSetup hs
  | step _ h ih => exact ih.respond h

end Converter

end RateConversion
