import RateConversion.Proofs.Refusals
import RateConversion.Proofs.Staging

/-! When settings come into effect. Those in effect are the ones that the kernel in place was
chosen by, and they stay until a buffer opens a segment. What was set last by then comes into
effect together, whichever was set first. -/

namespace RateConversion

def lastSet {ι γ : Type} (value? : ι → Option γ) (turns : List ι) (before : γ) : γ :=
  (turns.filterMap value?).getLast?.getD before

theorem lastSet_cons {ι γ : Type} (value? : ι → Option γ) (turn : ι) (turns : List ι)
    (before : γ) :
    lastSet value? (turn :: turns) before = lastSet value? turns ((value? turn).getD before) := by
  simp only [lastSet, List.filterMap_cons]
  cases value? turn with
  | none => rfl
  | some v => rw [List.getLast?_cons, Option.getD_some, Option.getD_some]

section Turns

variable {σ τ β : Type}

def Turn.quality? : Turn σ τ β → Option Nat
  | ⟨.setQuality quality, .done, _⟩ => some quality
  | _ => none

def Turn.zeroLatency? : Turn σ τ β → Option Bool
  | ⟨.setZeroLatency zeroLatency, _, _⟩ => some zeroLatency
  | _ => none

def Config.afterTurns (c : Config) (turns : List (Turn σ τ β)) : Config :=
  { c with
    quality := lastSet Turn.quality? turns c.quality
    zeroLatency := lastSet Turn.zeroLatency? turns c.zeroLatency }

theorem Config.afterTurns_cons (c : Config) (turn : Turn σ τ β) (turns : List (Turn σ τ β)) :
    c.afterTurns (turn :: turns) = (c.afterTurns [turn]).afterTurns turns := by
  simp only [afterTurns, lastSet_cons]
  rfl

end Turns

namespace Converter

variable {α ρ : Type} [Zero α] [Add α] [Sub α] [Add ρ] [Mul ρ] [Scalar ρ] [Sample α ρ]
  [Element α]

/-- A request and its reply that bring no other settings into effect: neither is a configuration
taken nor does an accepted buffer open a segment. -/
def Keeps (c : Converter α ρ) : Request (Job α) → Reply (List α) → Prop
  | .transform job, .transformed _ _ => ¬c.Discontinuous job.buffer.header
  | .configure _, .done => False
  | _, _ => True

inductive Waiting : Converter α ρ → List (Turn (Converter α ρ) (Job α) (List α)) →
    Converter α ρ → Prop
  | nil (c : Converter α ρ) : Waiting c [] c
  | cons {c c' d : Converter α ρ} {r : Request (Job α)} {y : Reply (List α)}
    {turns : List (Turn (Converter α ρ) (Job α) (List α))} (h : c.respond r = .ok (c', y))
    (hk : c.Keeps r y) (rest : Waiting c' turns d) : Waiting c (⟨r, y, c'⟩ :: turns) d

variable {c c' d : Converter α ρ} {r : Request (Job α)} {y : Reply (List α)}
  {turns : List (Turn (Converter α ρ) (Job α) (List α))}

theorem Waiting.concat (hw : Waiting c turns d) (h : d.respond r = .ok (c', y))
    (hk : d.Keeps r y) : Waiting c (turns ++ [⟨r, y, c'⟩]) c' := by
  induction hw with
  | nil => exact .cons h hk (.nil c')
  | cons h' hk' _ ih => exact .cons h' hk' (ih h hk)

theorem Waiting.reachable (hw : Waiting c turns d) (hc : c.Reachable) : d.Reachable := by
  induction hw with
  | nil => exact hc
  | cons h _ _ ih => exact ih (hc.step h)

theorem settings_of_keeps (h : c.respond r = .ok (c', y)) (hk : c.Keeps r y) :
    c'.setup = c.setup ∧ c'.pending.config = c.pending.config.afterTurns [⟨r, y, c'⟩] := by
  cases r with
  | transform job =>
    obtain ⟨t, ht, h⟩ := Checked.bind_eq_ok_iff.mp h
    cases t with
    | ok t =>
      cases h
      exact ⟨(settings_of_continuous hk ht).1, congr_arg Setup.config (pending_of_transform ht)⟩
    | error r =>
      obtain ⟨why, rfl⟩ := exists_of_rejected ht
      cases h
      exact ⟨rfl, rfl⟩
  | predict | required | split =>
    obtain ⟨_, -, h⟩ := Checked.bind_eq_ok_iff.mp h
    cases h
    exact ⟨rfl, rfl⟩
  | setQuality q =>
    rw [respond] at h
    obtain ⟨s, hs, hq⟩ | ⟨why, -, hq⟩ := c.setQuality_cases q
    · rw [hq] at h
      cases h
      exact ⟨rfl, (Setup.ofConfig_eq_ok_iff.mp hs).1⟩
    · rw [hq] at h
      cases h
      exact ⟨rfl, rfl⟩
  | setZeroLatency b =>
    cases h
    exact ⟨rfl, rfl⟩
  | configure config =>
    rw [respond] at h
    obtain ⟨s, -, hc⟩ | ⟨why, -, hc⟩ := c.configure_cases config
    · rw [hc] at h
      cases h
      exact hk.elim
    · rw [hc] at h
      cases h
      exact ⟨rfl, rfl⟩
  | reset =>
    cases h
    exact ⟨rfl, rfl⟩

theorem Waiting.settings (hw : Waiting c turns d) :
    d.setup = c.setup ∧ d.pending.config = c.pending.config.afterTurns turns := by
  induction hw with
  | nil c => exact ⟨rfl, rfl⟩
  | cons h hk _ ih =>
    obtain ⟨hsetup, hpending⟩ := settings_of_keeps h hk
    refine ⟨ih.1.trans hsetup, ?_⟩
    rw [ih.2, hpending, ← Config.afterTurns_cons]

theorem staged_of_not_keeps (h : c.respond r = .ok (c', y)) (hk : ¬c.Keeps r y) :
    c'.staged? = none := by
  cases r with
  | transform job =>
    obtain ⟨t, ht, h⟩ := Checked.bind_eq_ok_iff.mp h
    cases t with
    | ok t =>
      cases h
      exact (settings_of_discontinuous (not_not.mp hk) ht).2
    | error r =>
      cases h
      exact absurd trivial hk
  | configure config =>
    rw [respond] at h
    obtain ⟨s, -, hc⟩ | ⟨why, -, hc⟩ := c.configure_cases config
    · rw [hc] at h
      cases h
      rfl
    · rw [hc] at h
      cases h
      exact absurd trivial hk
  | _ => exact absurd trivial hk

theorem Reachable.exists_waiting (hc : c.Reachable) :
    ∃ base turns, base.Reachable ∧ base.staged? = none ∧ Waiting base turns c := by
  induction hc with
  | made h =>
    obtain ⟨s, -, -, rfl⟩ := ofConfig_eq_ok h
    exact ⟨_, [], .made h, rfl, .nil _⟩
  | @step c c' r y hc h ih =>
    by_cases hk : c.Keeps r y
    · obtain ⟨base, turns, hbase, hnone, hw⟩ := ih
      exact ⟨base, _, hbase, hnone, hw.concat h hk⟩
    · -- Other settings have come into effect, so nothing waits any more.
      exact ⟨c', [], hc.step h, staged_of_not_keeps h hk, .nil c'⟩

/-- In every state the conversion and the kernel are those of the configuration, and so is what
waits for the same stream. While no segment is opened and no configuration taken, the settings
in effect stay; the next segment takes the quality and the latency set last, and what has not
been set as it was. -/
theorem settings_wait_for_segment (hc : c.Reachable) :
    (c.setup.Coherent ∧ c.setup.config.type = Element.type α ∧
      Kernel.Serves c.setup.conversion c.kernel ∧
      ∀ s, c.staged? = some s → s.Coherent ∧ c.setup.config.SameStream s.config) ∧
    (∃ base turns, base.Reachable ∧ base.staged? = none ∧ Waiting base turns c) ∧
    ∀ turns d, Waiting c turns d →
      d.setup = c.setup ∧
      ∀ b slice t, d.Discontinuous b.header → d.transform b slice = .ok (.ok t) →
        t.converter.setup.config = c.pending.config.afterTurns turns ∧
        t.converter.setup.Coherent ∧ t.converter.staged? = none := by
  have hv := hc.valid Kernel.serves_stable
  have hs := hc.settled
  refine ⟨⟨hv.setup, hs.type, hv.kernel, fun s h => ⟨(hv.staged s h).1, hs.staged s h⟩⟩,
    hc.exists_waiting, fun turns d hw => ?_⟩
  obtain ⟨hsetup, hpending⟩ := hw.settings
  refine ⟨hsetup, fun b slice t hd ht => ?_⟩
  obtain ⟨heffect, hnone⟩ := settings_of_discontinuous hd ht
  refine ⟨by rw [heffect, hpending], ?_, hnone⟩
  rw [heffect]
  exact ((hw.reachable hc).valid Kernel.serves_stable).pending.1

def pointsAt (offset : Nat) : Buffer Float := ⟨{ threePoints.header with offset }, [1, 2, 4]⟩

def lines : Setup := tripling 1 .linear

def heldAfter (staged? : Option Setup) (n : Nat) : Converter Float Float :=
  ⟨tripling 0 .hold, staged?, .spline ⟨3, .hold, .pair 2 4, 0⟩, none, .empty,
    ⟨some 0, 0, some n, 3 * n, false⟩⟩

/-- Lines are asked for, a buffer goes on with the segment, the latency is set and a quality
refused that there is not. A jump to offset 9 brings both settings into effect. -/
theorem settings_wait_for_segment_of_lines :
    ∃ (turns : List (Turn (Converter Float Float) (Job Float) (List Float)))
      (d : Converter Float Float) (t : Transformed Float Float),
      turns.length = 4 ∧ Waiting (heldAfter none 3) turns d ∧ d.setup = tripling 0 .hold ∧
      d.transform (pointsAt 9) (List.replicate 6 0) = .ok (.ok t) ∧
      t.converter.setup.config = { lines.config with zeroLatency := true } := by
  have hmade : (ofSetup (tripling 0 .hold) : Converter Float Float).Reachable :=
    .made (show ofConfig (tripling 0 .hold).config = .ok (ofSetup (tripling 0 .hold)) from rfl)
  obtain ⟨t₁, h₁, heq₁⟩ : ∃ t, (ofSetup (tripling 0 .hold)).transform (pointsAt 0)
      (List.replicate 9 0) = .ok (.ok t) ∧ t.converter = heldAfter none 3 :=
    ⟨_, rfl, congr_arg (Converter.mk _ _ _ _ _) (by decide +kernel)⟩
  obtain ⟨t₂, h₂, heq₂⟩ : ∃ t, (heldAfter (some lines) 3).transform (pointsAt 3)
      (List.replicate 9 0) = .ok (.ok t) ∧ t.converter = heldAfter (some lines) 6 :=
    ⟨_, rfl, congr_arg (Converter.mk _ _ _ _ _) (by decide +kernel)⟩
  have hopened : (ofSetup (tripling 0 .hold)).respond
      (.transform ⟨pointsAt 0, List.replicate 9 0⟩) =
        .ok (heldAfter none 3, .transformed t₁.slice t₁.stamp) := by
    rw [← heq₁]
    exact respond_of_transform h₁
  have hlines : (heldAfter none 3).respond (.setQuality 1) =
      .ok (heldAfter (some lines) 3, .done) := rfl
  have hgoes : (heldAfter (some lines) 3).respond
      (.transform ⟨pointsAt 3, List.replicate 9 0⟩) =
        .ok (heldAfter (some lines) 6, .transformed t₂.slice t₂.stamp) := by
    rw [← heq₂]
    exact respond_of_transform h₂
  have hon : ¬(heldAfter (some lines) 3).Discontinuous (pointsAt 3).header := by
    rw [← continues_eq_false_iff]
    decide
  have hlatency : (heldAfter (some lines) 6).respond (.setZeroLatency true) =
      .ok (heldAfter (some (lines.withZeroLatency true)) 6, .done) := rfl
  obtain ⟨why, hwhy⟩ : ∃ why, (heldAfter (some (lines.withZeroLatency true)) 6).respond
      (.setQuality 9) =
        .ok (heldAfter (some (lines.withZeroLatency true)) 6, .refused why) := ⟨_, rfl⟩
  have hwaiting := Waiting.cons hlines trivial (.cons hgoes hon
    (.cons hlatency trivial (.cons hwhy trivial (.nil _))))
  obtain ⟨-, -, hall⟩ := settings_wait_for_segment (hmade.step hopened)
  obtain ⟨hsetup, hnext⟩ := hall _ _ hwaiting
  obtain ⟨t, ht⟩ : ∃ t, (heldAfter (some (lines.withZeroLatency true)) 6).transform (pointsAt 9)
      (List.replicate 6 0) = .ok (.ok t) := ⟨_, rfl⟩
  have hjump : (heldAfter (some (lines.withZeroLatency true)) 6).Discontinuous
      (pointsAt 9).header := by
    rw [← continues_eq_false_iff]
    decide
  exact ⟨_, _, t, rfl, hwaiting, hsetup, ht, (hnext _ _ _ hjump ht).1⟩

end Converter

end RateConversion
