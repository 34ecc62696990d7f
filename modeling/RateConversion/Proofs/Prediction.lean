import RateConversion.Proofs.Acceptance
import RateConversion.Proofs.Overflow

/-! Predictions are kept. A buffer gives exactly as many samples as are predicted for its
header, in the front of whatever slice has room for them. -/

namespace RateConversion.Converter

variable {α ρ : Type} [Zero α] [Add α] [Sub α] [Add ρ] [Mul ρ] [Scalar ρ] [Sample α ρ]
variable [Element α]

/-- A prediction is exact. If a slice has room for the predicted samples and the buffer meets
no overflow, the kernel that runs it tells the same number, and every slice with room gets
the same samples in front and keeps the rest of its own. -/
theorem predict_exact {c : Converter α ρ} (hc : c.Reachable) {b : Buffer α} (hb : b.Proper)
    {n : Nat} (hn : c.predict b.header = .ok n) {slice : List α} (hfit : n ≤ slice.length)
    (hflow : c.transform b slice ≠ .error .overflow) :
    ∃ d output after stamp, c.enter b.header = .ok d ∧
      d.kernel.outputLen b.header.len = .ok n ∧ output.length = n ∧
      stamp.offsetEnd = stamp.offset + n ∧
      ∀ slice' : List α, n ≤ slice'.length →
        c.transform b slice' = .ok (.ok ⟨after, output ++ slice'.drop n, stamp⟩) := by
  have hv := hc.valid Kernel.serves_stable
  rw [transform_of_predict hb hn hfit, absorb_eq] at hflow
  obtain ⟨d, hd, -⟩ := (enter_unlessOverflow c b.header).exists_ok fun he =>
    hflow (by rw [he]; rfl)
  have hvd := hv.enter Kernel.serves_stable hd
  have hlen := (predict_eq hv hd).symm.trans hn
  obtain ⟨r, hr, hout⟩ := (hvd.proceed_unlessOverflow hb hlen).exists_ok fun he =>
    hflow (by rw [hd, Checked.ok_bind, he]; rfl)
  refine ⟨d, r.2.1, r.1, r.2.2, hd, hlen, hout, ?_, fun slice' hfit' => ?_⟩
  · obtain ⟨p, -, -, -, -, -, rfl⟩ := exists_of_proceed hvd.ordered hr
    rfl
  · rw [transform_of_predict hb hn hfit', absorb_eq, hd, Checked.ok_bind, hr]
    rfl

def tripling (quality : Nat) (i : Interpolation) : Setup where
  config :=
    { rateIn := .one, rateOut := .three, type := .f64, quality }
  conversion := .up 3 i

def threePoints : Buffer Float := ⟨{ len := 3, offset := 0, timestamp? := some 0 }, [1, 2, 4]⟩

/-- Lines are staged where the first sample of a segment would have been held, so that three
samples give six. -/
theorem predict_exact_of_staged :
    ∃ c : Converter Float Float, ∃ output after stamp,
      (ofSetup (tripling 0 .hold)).respond (.setQuality 1) = .ok (c, .done) ∧
      c.predict threePoints.header = .ok 6 ∧ output.length = 6 ∧
      c.transform threePoints (List.replicate 8 5) =
        .ok (.ok ⟨after, output ++ [5, 5], stamp⟩) := by
  have hmade : (ofSetup (tripling 0 .hold) : Converter Float Float).Reachable :=
    .made (show ofConfig (tripling 0 .hold).config = .ok (ofSetup (tripling 0 .hold)) from rfl)
  obtain ⟨c, hc, hn, t, ht⟩ : ∃ c : Converter Float Float,
      (ofSetup (tripling 0 .hold)).respond (.setQuality 1) = .ok (c, .done) ∧
      c.predict threePoints.header = .ok 6 ∧
      ∃ t, c.transform threePoints (List.replicate 8 5) = .ok (.ok t) :=
    ⟨_, rfl, rfl, _, rfl⟩
  have hfit : 6 ≤ (List.replicate 8 (5 : Float)).length := by decide
  obtain ⟨d, output, after, stamp, -, -, hout, -, hall⟩ := predict_exact (hmade.step hc)
    (.inr rfl) hn hfit (by rw [ht]; nofun)
  exact ⟨c, output, after, stamp, hc, hn, hout, hall _ (by decide)⟩

end RateConversion.Converter
