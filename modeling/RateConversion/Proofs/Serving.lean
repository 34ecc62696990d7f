import RateConversion.Proofs.Likeness
import RateConversion.Proofs.Ratio

/-! The states of a kernel that a conversion can bring it to. They are kept by every
operation, and in them a span of samples that meets no fault has a plain description:
so many outputs, whatever the samples, and the same ones however the span is cut. -/

namespace RateConversion

namespace Conversion

def Fits : Conversion → Prop
  | .copy => True
  | .up factor _ | .down factor _ _ => 0 < factor ∧ factor < 2 ^ 32

def Admits (leading : Nat) : Conversion → Prop
  | .down factor _ _ => leading < factor
  | _ => True

theorem Fits.admits_zero {conv : Conversion} (h : conv.Fits) : conv.Admits 0 := by
  cases conv with
  | down factor d z => exact h.1
  | _ => trivial

def opening (leading n : Nat) : Conversion → Checked Nat
  | .copy => .ok n
  | .up factor i => Upsampler.outputLenFrom factor i 0 n
  | .down factor d _ => .ok ((TickClock.ofDecimation factor d leading).count n)

end Conversion

theorem Setup.Coherent.fits {s : Setup} (h : s.Coherent) : s.conversion.Fits := by
  have hr := h.relates
  cases hc : s.conversion with
  | copy => trivial
  | up factor i =>
    rw [hc] at hr
    exact ⟨Nat.lt_of_lt_of_le Nat.zero_lt_two hr.1, h.up_lt hc⟩
  | down factor d z =>
    rw [hc] at hr
    exact ⟨Nat.lt_of_lt_of_le Nat.zero_lt_two hr.1, h.down_lt hc⟩

namespace Decimation

theorem reach_lt {factor : Nat} (h : factor < 2 ^ 32) (d : Decimation) :
    d.reach factor < 2 ^ 40 := by
  cases d <;> simp only [reach, span?, shortSpan, longSpan] <;> omega

theorem warmup_lt {factor : Nat} (h : factor < 2 ^ 32) (d : Decimation) :
    d.warmup factor < 2 ^ 40 := by
  cases d <;> simp only [warmup, span?, shortSpan, longSpan] <;> omega

theorem reach_of_span {d : Decimation} {span : Nat} (h : d.span? = some span) (factor : Nat) :
    d.reach factor = span * factor / 2 := by
  cases d <;> cases h <;> rfl

theorem warmup_of_span {d : Decimation} {span : Nat} (h : d.span? = some span) (factor : Nat) :
    d.warmup factor = span * factor / 2 := by
  cases d <;> cases h <;> rfl

end Decimation

theorem TickClock.ofDecimation_sound {factor leading : Nat} (h0 : 0 < factor)
    (h : factor < 2 ^ 32) (d : Decimation) (hl : leading < factor) :
    (ofDecimation factor d leading).Sound := by
  have h1 := d.reach_lt h
  have h2 := d.warmup_lt h
  exact start_sound h0 (by omega) (by omega) (by omega)

theorem Taps.reach_lowPass {ρ : Type} [Scalar ρ] (factor span : Nat) :
    (lowPass factor span : Taps ρ).reach = span * factor / 2 := by
  simp [reach, lowPass, map, normalize]

theorem Taps.reach_lowPass_lt {ρ : Type} [Scalar ρ] {d : Decimation} {span factor : Nat}
    (hd : d.span? = some span) (hf : factor < 2 ^ 32) :
    (lowPass factor span : Taps ρ).reach < 2 ^ 40 := by
  rw [reach_lowPass, ← Decimation.reach_of_span hd]
  exact d.reach_lt hf

namespace Kernel

variable {α ρ : Type}

/-- The kernel is in a state that the conversion can bring it to. -/
inductive Serves [Scalar ρ] : Conversion → Kernel α ρ → Prop
  | copy : Serves .copy .copy
  | pick {z : Bool} {c : TickClock} (h : c.Sound) (hl : c.lookahead = 0) :
    Serves (.down c.stride .pick z) (.pick c)
  | mean {z : Bool} {m : TaperedMean α ρ} (h : m.clock.Sound)
    (hl : m.clock.lookahead = m.clock.stride / 2) :
    Serves (.down m.clock.stride .tukey z) (.mean m)
  | sinc {d : Decimation} {z : Bool} {span : Nat} {f : SincFilter α ρ} (hd : d.span? = some span)
    (h : f.Sound) (ht : f.taps = .lowPass f.clock.stride span) :
    Serves (.down f.clock.stride d z) (.sinc f)
  | spline {u : Upsampler α} (h : 0 < u.factor) :
    Serves (.up u.factor u.interpolation) (.spline u)

def Sound : Kernel α ρ → Prop
  | .sinc f => f.Sound
  | _ => True

theorem Serves.sound [Scalar ρ] {conv : Conversion} {k : Kernel α ρ} (h : Serves conv k) :
    k.Sound := by
  cases h with
  | sinc _ h _ => exact h
  | _ => trivial

def yield (n : Nat) : Kernel α ρ → Nat
  | .copy => n
  | .pick clock => clock.count n
  | .mean m => m.clock.count n
  | .sinc f => f.clock.count n
  | .spline u => u.completed n

theorem eq_yield_of_outputLen {k : Kernel α ρ} {n m : Nat} (h : k.outputLen n = .ok m) :
    m = k.yield n := by
  cases k with
  | spline u => exact (Upsampler.outputLenFrom_eq_ok_iff.mp h).1
  | _ => cases h; rfl

theorem outputLen_eq_ok {k : Kernel α ρ} {n : Nat} (hn : n < 2 ^ 62) (hy : k.yield n < 2 ^ 64) :
    k.outputLen n = .ok (k.yield n) := by
  cases k with
  | spline u =>
    have := Upsampler.lead_le_two u.interpolation
    exact Upsampler.outputLenFrom_eq_ok_iff.mpr ⟨rfl, by omega, hy⟩
  | _ => rfl

section Start

variable [Zero α] [Scalar ρ]

theorem Serves.reset {conv : Conversion} {k : Kernel α ρ} {leading : Nat} (h : Serves conv k)
    (hf : conv.Fits) (hl : conv.Admits leading) : Serves conv (k.reset leading) := by
  cases h with
  | copy => exact .copy
  | pick h _ =>
    exact .pick (c := .ofDecimation _ .pick leading)
      (TickClock.ofDecimation_sound hf.1 hf.2 .pick hl) rfl
  | @mean z m h _ =>
    exact .mean (m := .start m.clock.stride leading)
      (TickClock.ofDecimation_sound hf.1 hf.2 .tukey hl) rfl
  | @sinc d z span f hd h ht =>
    have hlt : leading < f.clock.stride := hl
    have hstride := hf.2
    have hr : f.taps.reach < 2 ^ 40 := ht ▸ Taps.reach_lowPass_lt hd hf.2
    exact .sinc (f := f.reset leading) hd
      (SincFilter.sound_reset hf.1 (by omega) (by omega) h.capacity).1 ht
  | @spline u h => exact .spline (u := u.reset) h

theorem serves_start {d : Decimation} {span factor : Nat} (z : Bool) (hd : d.span? = some span)
    (h0 : 0 < factor) (hf : factor < 2 ^ 32) :
    Serves (.down factor d z) (.sinc (.start (.lowPass factor span) factor 0) : Kernel α ρ) := by
  have hr := Taps.reach_lowPass_lt (ρ := ρ) hd hf
  have hwide : (Taps.lowPass factor span : Taps ρ).reach + 0 +
      (Taps.lowPass factor span : Taps ρ).reach < 2 ^ 63 := by omega
  -- A new filter is one that has started over on a blank history.
  have hsound := (SincFilter.sound_reset (α := α)
    (f := .start (.lowPass factor span : Taps ρ) factor 0) h0 (hf.trans (by decide)) hwide
    (History.capacity_blank _)).1
  exact .sinc (f := .start (.lowPass factor span) factor 0) hd hsound rfl

theorem serves_ofConversion {conv : Conversion} (hf : conv.Fits) :
    Serves conv (ofConversion conv : Kernel α ρ) := by
  cases conv with
  | copy => exact .copy
  | up factor i => exact .spline (u := .start factor i) hf.1
  | down factor d z =>
    obtain ⟨h0, h1⟩ := hf
    cases d with
    | pick =>
      exact .pick (c := .ofDecimation factor .pick 0) (TickClock.ofDecimation_sound h0 h1 _ h0) rfl
    | tukey => exact .mean (m := .start factor 0) (TickClock.ofDecimation_sound h0 h1 _ h0) rfl
    | shortSinc => exact serves_start z rfl h0 h1
    | longSinc => exact serves_start z rfl h0 h1

theorem Serves.outputLen_reset {conv : Conversion} {k : Kernel α ρ} (h : Serves conv k)
    (leading n : Nat) : (k.reset leading).outputLen n = conv.opening leading n := by
  cases h with
  | copy => rfl
  | pick h _ => rfl
  | mean h _ => rfl
  | @sinc d z span f hd h ht =>
    have hr : f.taps.reach = span * f.clock.stride / 2 := by rw [ht, Taps.reach_lowPass]
    simp only [Kernel.reset, outputLen, SincFilter.reset, Conversion.opening,
      TickClock.ofDecimation, Decimation.reach_of_span hd, Decimation.warmup_of_span hd, hr]
  | spline h => rfl

end Start

variable [Zero α] [Add α] [Sub α] [Add ρ] [Mul ρ] [Scalar ρ] [Sample α ρ]

def fed (k : Kernel α ρ) (xs : List α) : Kernel α ρ × List α :=
  match k with
  | .copy => (.copy, xs)
  | .pick clock => (.pick (RateConversion.feed TickClock.pick clock xs).1,
      (RateConversion.feed TickClock.pick clock xs).2)
  | .mean m => (.mean (RateConversion.feed TaperedMean.step m xs).1,
      (RateConversion.feed TaperedMean.step m xs).2)
  | .sinc f => (.sinc (f.after xs), f.outputs xs)
  | .spline u => (.spline (RateConversion.feed Upsampler.step u xs).1,
      (RateConversion.feed Upsampler.step u xs).2)

theorem Alike.fed {k l : Kernel α ρ} (a : k.Alike l) (xs : List α) :
    (k.fed xs).1.Alike (l.fed xs).1 ∧ (k.fed xs).2 = (l.fed xs).2 := by
  cases a with
  | same => exact ⟨.same _, rfl⟩
  | sinc fg => exact ⟨.sinc (fg.after xs), fg.outputs xs⟩

variable {conv : Conversion} {k : Kernel α ρ}

theorem Sound.eq_of_feed (h : k.Sound) {xs : List α} (hn : xs.length < 2 ^ 64)
    {r : Kernel α ρ × List α} (hr : k.feed xs = .ok r) : r = k.fed xs := by
  cases k with
  | sinc f =>
    obtain ⟨p, hp, hr⟩ := Checked.bind_eq_ok_iff.mp hr
    cases hr
    rw [SincFilter.eq_of_feed h hn hp]
    rfl
  | _ => cases hr; rfl

theorem Sound.feed_eq_ok (h : k.Sound) {xs : List α} (hn : xs.length < 2 ^ 62) :
    k.feed xs = .ok (k.fed xs) := by
  cases k with
  | sinc f =>
    rw [Kernel.feed, SincFilter.feed_eq_ok h hn]
    rfl
  | _ => rfl

theorem Sound.fed_append (h : k.Sound) (xs ys : List α) :
    (k.fed (xs ++ ys)).1.Alike ((k.fed xs).1.fed ys).1 ∧
      (k.fed (xs ++ ys)).2 = (k.fed xs).2 ++ ((k.fed xs).1.fed ys).2 := by
  cases k with
  | copy => exact ⟨.same _, rfl⟩
  | sinc f => exact ⟨.sinc (SincFilter.after_append h xs ys), SincFilter.outputs_append h xs ys⟩
  | _ =>
    rw [Kernel.fed, feed_append]
    exact ⟨.same _, rfl⟩

theorem Serves.fed (h : Serves conv k) (xs : List α) : Serves conv (k.fed xs).1 := by
  cases h with
  | copy => exact .copy
  | @pick z c h hl =>
    have hc := (TickClock.feed_pick h xs).1
    simp only [Kernel.fed, hc]
    exact .pick (c := c.after xs.length) (TickClock.after_sound h _) hl
  | @mean z m h hl =>
    have hc := (TaperedMean.feed_step h xs).1
    have hs : (RateConversion.feed TaperedMean.step m xs).1.clock.stride = m.clock.stride := by
      rw [hc, TickClock.after_stride]
    rw [Kernel.fed, ← hs]
    refine .mean ?_ ?_ <;> rw [hc]
    · exact TickClock.after_sound h _
    · exact hl
  | @sinc d z span f hd h ht =>
    exact .sinc (f := f.after xs) hd (SincFilter.after_sound h xs) ht
  | @spline u h =>
    obtain ⟨h1, h2, -⟩ := Upsampler.feed_step h xs
    rw [Kernel.fed, ← h1, ← h2]
    exact .spline (h1 ▸ h)

theorem Serves.length_fed (h : Serves conv k) (xs : List α) :
    (k.fed xs).2.length = k.yield xs.length := by
  cases h with
  | copy => rfl
  | pick h _ => exact (TickClock.feed_pick h xs).2
  | mean h _ => exact (TaperedMean.feed_step h xs).2
  | sinc _ h _ => exact SincFilter.length_outputs _ xs
  | spline h => exact (Upsampler.feed_step h xs).2.2

theorem Serves.fed_nil (h : Serves conv k) :
    k.Alike (k.fed []).1 ∧ (k.fed []).2 = [] := by
  cases h with
  | @sinc d z span f hd h ht =>
    refine ⟨.sinc ⟨rfl, TickClock.after_zero.symm, ?_⟩, rfl⟩
    obtain ⟨h1, h2, h3⟩ := History.extend_spec h.history []
    refine ⟨h.history, h1, h2.symm, ?_⟩
    rw [SincFilter.after, h3, List.append_nil, rtake_of_length_le]
    rw [History.length_toList]
    exact h.history.size_le
  | _ => exact ⟨.same _, rfl⟩

end Kernel

end RateConversion
