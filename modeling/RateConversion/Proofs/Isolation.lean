import RateConversion.Proofs.Acceptance
import RateConversion.Proofs.Staging

/-! What went before a segment has no part in it. The state in which a new segment is run,
the state after a new configuration and the state after a reset cannot be told from
states of a converter that was just made. -/

namespace RateConversion

namespace Kernel

variable {α ρ : Type} [Zero α] [Scalar ρ]

theorem ofDecimation_of_span {d : Decimation} {span : Nat} (h : d.span? = some span)
    (factor : Nat) :
    (ofDecimation factor d : Kernel α ρ) = .sinc (.start (.lowPass factor span) factor 0) := by
  cases d <;> cases h <;> rfl

theorem Serves.reset_alike {conv : Conversion} {k : Kernel α ρ} (h : Serves conv k)
    (leading : Nat) : (k.reset leading).Alike ((ofConversion conv).reset leading) := by
  cases h with
  | @sinc d z span f hd h ht =>
    simp only [ofConversion]
    rw [ofDecimation_of_span hd, ← ht]
    refine .sinc ⟨rfl, rfl, History.clear_sound _, History.clear_sound _, ?_, rfl⟩
    exact h.capacity.trans (History.capacity_blank _).symm
  | _ => exact .same _

end Kernel

namespace Request

def Sets {τ : Type} : Request τ → Prop
  | .setQuality _ | .setZeroLatency _ => True
  | _ => False

end Request

namespace Converter

variable {α ρ : Type} [Zero α] [Add α] [Sub α] [Add ρ] [Mul ρ] [Scalar ρ] [Sample α ρ]
variable {c : Converter α ρ}

theorem Valid.opened_alike (hc : c.Valid Kernel.Serves) (h : Header) :
    (c.opened h).Alike ((ofSetup c.pending).opened h) := by
  have hkernel := (hc.adopt Kernel.serves_stable).kernel
  rw [adopt_setup] at hkernel
  have halike := hkernel.reset_alike (c.pending.leading h)
  rw [← ofSetup_kernel] at halike
  exact ⟨rfl, rfl, rfl, halike⟩

theorem Valid.transform_alike (hc : c.Valid Kernel.Serves) {b : Buffer α}
    (hd : c.Discontinuous b.header) {slice : List α} {t : Transformed α ρ}
    (ht : c.transform b slice = .ok (.ok t)) :
    ∃ u, (ofSetup c.pending).transform b slice = .ok (.ok u) ∧
      t.converter.Alike u.converter ∧ u.slice = t.slice ∧ u.stamp = t.stamp := by
  obtain ⟨hb, n, d, output, hn, hfit, henter, hr, hslice⟩ := exists_of_transform ht
  obtain ⟨hlt, rfl⟩ := (enter_of_discontinuous hd).mp henter
  have hfresh : (ofSetup c.pending : Converter α ρ).Discontinuous b.header := .inr (.inr (.inl rfl))
  have henter' := (enter_of_discontinuous hfresh).mpr ⟨hlt, rfl⟩
  have hmade : (ofSetup c.pending : Converter α ρ).Valid Kernel.Serves :=
    valid_ofSetup Kernel.serves_stable hc.pending.1
  have halike := hc.opened_alike b.header
  have hn' : (ofSetup c.pending : Converter α ρ).predict b.header = .ok n := by
    rw [predict_eq hmade henter', ← halike.kernel.outputLen, ← predict_eq hc henter, hn]
  have hboth := halike.proceed b n
  rw [hr] at hboth
  obtain ⟨r, hr', hafter, hout⟩ := hboth.exists_right
  refine ⟨⟨r.1, r.2.1 ++ slice.drop n, r.2.2⟩, ?_, hafter, ?_, ?_⟩
  · rw [transform_of_predict hb hn' hfit, absorb_eq, henter', Checked.ok_bind, hr']
    rfl
  · rw [hslice, ← hout]
  · rw [← hout]

variable [Element α]

theorem Settled.exists_run (hc : c.Settled) (hv : c.Valid Kernel.Serves) :
    ∃ (settings : List (Request (Job α))) (ys : List (Reply (List α))),
      (∀ r ∈ settings, r.Sets) ∧
      (ofSetup c.setup).run settings =
        .ok (({ ofSetup c.setup with staged? := c.staged? } : Converter α ρ), ys) := by
  cases hs : c.staged? with
  | none => exact ⟨[], [], fun r hr => (by cases hr), rfl⟩
  | some s =>
    obtain ⟨m, hm, hs'⟩ := Setup.exists_withQuality (hv.staged s hs).1 (hc.staged s hs)
    refine ⟨[.setQuality s.config.quality, .setZeroLatency s.config.zeroLatency],
      [.done, .done], ?_, ?_⟩
    · intro r hr
      rcases List.mem_pair.mp hr with rfl | rfl
      · trivial
      · trivial
    · have hquality : (ofSetup c.setup : Converter α ρ).setQuality s.config.quality =
          .ok { ofSetup c.setup with staged? := some m } := by
        have hpending : (ofSetup c.setup : Converter α ρ).pending = c.setup := rfl
        rw [setQuality, hpending, hm]
      have hlatency : ({ ofSetup c.setup with staged? := some m } :
          Converter α ρ).setZeroLatency s.config.zeroLatency =
            { ofSetup c.setup with staged? := some s } := by
        simp only [setZeroLatency, pending, Option.getD_some, hs']
      simp only [run, Converter.respond]
      rw [hquality]
      simp only [settle, Checked.ok_bind]
      rw [hlatency]

/-- History is isolated. What follows an accepted discontinuous buffer, a new configuration
or a reset cannot be told from what follows it in a converter that was just made, of the
pending configuration, of the new one, or of the present one with the same settings staged. -/
theorem history_isolated (hc : c.Reachable) :
    (∃ fresh : Converter α ρ, ofConfig c.pending.config = .ok fresh ∧
      ∀ b slice t, c.Discontinuous b.header → c.transform b slice = .ok (.ok t) →
        ∃ u, fresh.transform b slice = .ok (.ok u) ∧ u.slice = t.slice ∧ u.stamp = t.stamp ∧
          t.converter.Indistinguishable u.converter) ∧
    (∀ config c', c.configure config = .ok c' →
      ∃ fresh : Converter α ρ, ofConfig config = .ok fresh ∧ c'.Indistinguishable fresh) ∧
    ∃ (fresh staging : Converter α ρ) (settings : List (Request (Job α)))
        (ys : List (Reply (List α))),
      ofConfig c.setup.config = .ok fresh ∧ (∀ r ∈ settings, r.Sets) ∧
        fresh.run settings = .ok (staging, ys) ∧ staging.staged? = c.staged? ∧
        c.reset.Indistinguishable staging := by
  have hv := hc.valid Kernel.serves_stable
  have hs := hc.settled
  refine ⟨⟨_, ofConfig_of_coherent hv.pending.1 hs.type_pending, fun b slice t hd ht => ?_⟩,
    fun config c' h => ?_, ?_⟩
  · obtain ⟨u, hu, halike, hslice, hstamp⟩ := hv.transform_alike hd ht
    exact ⟨u, hu, hslice, hstamp, halike.indistinguishable⟩
  · obtain ⟨s, hs, hc'⟩ | ⟨why, -, hc'⟩ := c.configure_cases config
    · cases hc'.symm.trans h
      refine ⟨ofSetup s, ?_, (c.configured_alike s).indistinguishable⟩
      rw [ofConfig, hs]
      rfl
    · cases hc'.symm.trans h
  · obtain ⟨settings, ys, hsets, hrun⟩ := hs.exists_run hv
    have hkernel := hv.kernel.reset_alike 0
    rw [Kernel.reset_ofConversion, ← ofSetup_kernel] at hkernel
    exact ⟨_, _, settings, ys, ofConfig_of_coherent hv.setup hs.type, hsets, hrun, rfl,
      Alike.indistinguishable ⟨rfl, rfl, rfl, hkernel⟩⟩

def joining : Setup where
  config :=
    { rateIn := .one, rateOut := .two, type := .f64, quality := 1 }
  conversion := .up 2 .linear

def twoAt (offset : Nat) : Buffer Float := ⟨{ len := 2, offset, timestamp? := some 0 }, [1, 2]⟩

theorem history_isolated_of_jump :
    ∃ (c fresh : Converter Float Float) (y : Reply (List Float)) (t u : Transformed Float Float),
      (ofSetup joining).respond (.transform ⟨twoAt 0, [0, 0]⟩) = .ok (c, y) ∧
      c.transform (twoAt 9) [0, 0] = .ok (.ok t) ∧ ofConfig joining.config = .ok fresh ∧
      fresh.transform (twoAt 9) [0, 0] = .ok (.ok u) ∧ u.slice = t.slice ∧ u.stamp = t.stamp := by
  have hmade : (ofSetup joining : Converter Float Float).Reachable :=
    .made (show ofConfig joining.config = .ok (ofSetup joining) from rfl)
  obtain ⟨c, y, hc, hnext, hpending, t, ht⟩ : ∃ (c : Converter Float Float)
      (y : Reply (List Float)),
      (ofSetup joining).respond (.transform ⟨twoAt 0, [0, 0]⟩) = .ok (c, y) ∧
      c.segment.nextIn? = some 2 ∧ c.pending.config = joining.config ∧
      ∃ t, c.transform (twoAt 9) [0, 0] = .ok (.ok t) := ⟨_, _, rfl, rfl, rfl, _, rfl⟩
  have hjump : c.Discontinuous (twoAt 9).header := by
    refine .inr (.inr (.inr ?_))
    rw [hnext]
    decide
  obtain ⟨⟨fresh, hfresh, hall⟩, -⟩ := history_isolated (hmade.step hc)
  obtain ⟨u, hu, hslice, hstamp, -⟩ := hall _ _ _ hjump ht
  exact ⟨c, fresh, y, t, u, hc, ht, hpending ▸ hfresh, hu, hslice, hstamp⟩

end Converter

end RateConversion
