import Mathlib.Algebra.Order.Floor.Div
import RateConversion.Proofs.Reachability
import RateConversion.Proofs.Weights

/-! How far a segment has come. A kernel that was reset has given, after `n` samples, a number
of samples that depends on the conversion, on the samples passed over and on `n` alone. The
kernel keeps no such total: it is what the counts of consecutive spans add up to, whether
a span was fed or passed as silence. -/

namespace RateConversion

namespace Decimation

/-- Input samples from the first tick of a segment to the one that ends its window. A sinc
has its first tick where the window is full for the first time. -/
def fill (factor : Nat) : Decimation → Nat
  | .pick => 0
  | .tukey => factor / 2
  | .shortSinc => shortSpan * factor
  | .longSinc => longSpan * factor

theorem fill_eq (factor : Nat) (d : Decimation) :
    d.fill factor = d.reach factor + d.warmup factor := by
  cases d <;> simp only [fill, reach, warmup, span?, shortSpan, longSpan] <;> omega

end Decimation

def Conversion.total (leading n : Nat) : Conversion → Nat
  | .copy => n
  | .up factor i => (n - i.lead) * factor
  | .down factor d _ => (n - (leading + d.fill factor)) ⌈/⌉ factor

namespace TickClock

theorem count_ofDecimation {factor leading : Nat} (h0 : 0 < factor) (h : factor < 2 ^ 32)
    (d : Decimation) (hl : leading < factor) (n : Nat) :
    (ofDecimation factor d leading).count n = (n - (leading + d.fill factor)) ⌈/⌉ factor := by
  have h1 := d.reach_lt h
  have h2 := d.warmup_lt h
  have hwait : (ofDecimation factor d leading).wait = d.reach factor + leading + d.warmup factor :=
    wait_start h0 (by omega) (by omega) (by omega)
  have hstride : (ofDecimation factor d leading).stride = factor := rfl
  apply eq_of_forall_ge_iff
  intro k
  rw [count_le_iff h0, ceilDiv_le_iff_le_mul h0, hwait, hstride, d.fill_eq, Nat.mul_comm]
  omega

theorem count_add_of_eq_after {c₀ c : TickClock} {n : Nat} (h : c₀.Sound) (hc : c = c₀.after n)
    (m : Nat) : c₀.count n + c.count m = c₀.count (n + m) := by
  rw [hc, count_add h]

end TickClock

theorem Knots.size_foldl_push {α : Type} (k : Knots α) (xs : List α) :
    (xs.foldl (fun k x => k.push x) k).size = min 2 (k.size + xs.length) := by
  induction xs generalizing k with
  | nil => cases k <;> rfl
  | cons x xs ih =>
    rw [List.foldl_cons, ih, size_push, List.length_cons]
    omega

namespace Kernel

variable {α ρ : Type}

def clock? : Kernel α ρ → Option TickClock
  | .copy => none
  | .pick clock => some clock
  | .mean m => some m.clock
  | .sinc f => some f.clock
  | .spline _ => none

structure Took [Scalar ρ] (conv : Conversion) (leading n : Nat) (k : Kernel α ρ) : Prop where
  serves : Serves conv k
  clock (c : TickClock) : k.clock? = some c → ∃ factor d z, conv = .down factor d z ∧
    c = (TickClock.ofDecimation factor d leading).after n
  knots (u : Upsampler α) : k = .spline u → u.knots.size = min 2 n

variable {conv : Conversion} {k : Kernel α ρ} {leading n : Nat}

theorem Took.total_add [Scalar ρ] (h : Took conv leading n k) (hf : conv.Fits)
    (hl : conv.Admits leading) (m : Nat) :
    conv.total leading n + k.yield m = conv.total leading (n + m) := by
  have hclock (c : TickClock) (hc : k.clock? = some c) : ∃ factor d z, conv = .down factor d z ∧
      (n - (leading + d.fill factor)) ⌈/⌉ factor + c.count m =
        (n + m - (leading + d.fill factor)) ⌈/⌉ factor := by
    obtain ⟨factor, d, z, rfl, hc⟩ := h.clock c hc
    refine ⟨factor, d, z, rfl, ?_⟩
    have hsound : (TickClock.ofDecimation factor d leading).Sound :=
      TickClock.ofDecimation_sound hf.1 hf.2 d hl
    have hadd := TickClock.count_add_of_eq_after hsound hc m
    rwa [TickClock.count_ofDecimation hf.1 hf.2 d hl,
      TickClock.count_ofDecimation hf.1 hf.2 d hl] at hadd
  cases h.serves with
  | copy => rfl
  | pick | mean | sinc =>
    obtain ⟨factor, d, z, hconv, hcount⟩ := hclock _ rfl
    cases hconv
    exact hcount
  | @spline u hu =>
    have hk := h.knots u rfl
    have hlead := Upsampler.lead_le_two u.interpolation
    simp only [Conversion.total, Kernel.yield, Upsampler.completed]
    rw [hk, ← Nat.add_mul]
    congr 1
    omega

theorem Took.clock_after [Scalar ρ] (h : Took conv leading n k) (hf : conv.Fits)
    (hl : conv.Admits leading) {k' : Kernel α ρ} {m : Nat}
    (hk : k'.clock? = k.clock?.map (·.after m)) (c : TickClock) (hc : k'.clock? = some c) :
    ∃ factor d z, conv = .down factor d z ∧
      c = (TickClock.ofDecimation factor d leading).after (n + m) := by
  rw [hk] at hc
  obtain ⟨c₀, hc₀, rfl⟩ := Option.map_eq_some_iff.mp hc
  obtain ⟨factor, d, z, rfl, rfl⟩ := h.clock c₀ hc₀
  have hsound : (TickClock.ofDecimation factor d leading).Sound :=
    TickClock.ofDecimation_sound hf.1 hf.2 d hl
  exact ⟨factor, d, z, rfl, TickClock.after_add hsound n m⟩

theorem Serves.clock?_reset [Zero α] [Scalar ρ] (h : Serves conv k) (leading : Nat) (c : TickClock)
    (hc : (k.reset leading).clock? = some c) :
    ∃ factor d z, conv = .down factor d z ∧ c = .ofDecimation factor d leading := by
  cases h with
  | copy | spline => cases hc
  | pick | mean =>
    cases hc
    exact ⟨_, _, _, rfl, rfl⟩
  | @sinc d z span f hd h ht =>
    cases hc
    refine ⟨_, _, _, rfl, ?_⟩
    have hr : f.taps.reach = span * f.clock.stride / 2 := by rw [ht, Taps.reach_lowPass]
    simp only [SincFilter.reset, TickClock.ofDecimation, Decimation.reach_of_span hd,
      Decimation.warmup_of_span hd, hr]

theorem Serves.took_reset [Zero α] [Scalar ρ] (h : Serves conv k) (hf : conv.Fits)
    (hl : conv.Admits leading) : Took conv leading 0 (k.reset leading) := by
  refine ⟨h.reset hf hl, fun c hc => ?_, fun u hu => ?_⟩
  · obtain ⟨factor, d, z, hconv, rfl⟩ := h.clock?_reset leading c hc
    exact ⟨factor, d, z, hconv, TickClock.after_zero.symm⟩
  · cases h with
    | spline =>
      cases hu
      rfl
    | _ => cases hu

theorem Serves.clock?_skip [Zero α] [Add ρ] [Scalar ρ] (h : Serves conv k) {m : Nat}
    (hm : m < 2 ^ 64) {k' : Kernel α ρ} (hk : k.skip m = .ok k') :
    k'.clock? = k.clock?.map (·.after m) := by
  cases h with
  | copy | spline =>
    cases hk
    rfl
  | pick h _ =>
    obtain ⟨c', hc, hk⟩ := Checked.bind_eq_ok_iff.mp hk
    cases hk
    exact congr_arg some (TickClock.eq_after_of_advance h hm hc)
  | mean h _ =>
    obtain ⟨m', hm', hk⟩ := Checked.bind_eq_ok_iff.mp hk
    cases hk
    exact congr_arg some (TaperedMean.clock_skip h hm hm')
  | sinc _ h _ =>
    obtain ⟨f', hf, hk⟩ := Checked.bind_eq_ok_iff.mp hk
    cases hk
    rw [SincFilter.eq_after_of_skip h hm hf]
    simp [clock?, SincFilter.after]

theorem Took.skip [Zero α] [Add ρ] [Scalar ρ] (h : Took conv leading n k) (hf : conv.Fits)
    (hl : conv.Admits leading) {m : Nat} (hm : m < 2 ^ 64) {k' : Kernel α ρ}
    (hk : k.skip m = .ok k') : Took conv leading (n + m) k' := by
  refine ⟨h.serves.skip hm hk, h.clock_after hf hl (h.serves.clock?_skip hm hk), fun u hu => ?_⟩
  cases h.serves with
  | @spline u₀ =>
    cases hk
    cases hu
    have hcount := h.knots u₀ rfl
    simp only [Upsampler.skip]
    rw [Knots.size_foldl_push, List.length_replicate, hcount]
    omega
  | copy =>
    cases hk
    cases hu
  | pick | mean | sinc =>
    obtain ⟨_, -, hk⟩ := Checked.bind_eq_ok_iff.mp hk
    cases hk
    cases hu

variable [Zero α] [Add α] [Sub α] [Add ρ] [Mul ρ] [Scalar ρ] [Sample α ρ]

theorem Serves.clock?_fed (h : Serves conv k) (xs : List α) :
    (k.fed xs).1.clock? = k.clock?.map (·.after xs.length) := by
  cases h with
  | copy | spline => rfl
  | pick h _ => exact congr_arg some (TickClock.feed_pick h xs).1
  | mean h _ => exact congr_arg some (TaperedMean.feed_step h xs).1
  | sinc => rfl

theorem Took.fed (h : Took conv leading n k) (hf : conv.Fits) (hl : conv.Admits leading)
    (xs : List α) : Took conv leading (n + xs.length) (k.fed xs).1 := by
  refine ⟨h.serves.fed xs, h.clock_after hf hl (h.serves.clock?_fed xs), fun u hu => ?_⟩
  cases h.serves with
  | @spline u₀ =>
    cases hu
    have hcount := h.knots u₀ rfl
    rw [Upsampler.knots_feed, Knots.size_foldl_push, hcount]
    omega
  | _ => cases hu

theorem took_kept (hf : conv.Fits) (hl : conv.Admits leading) :
    Kept (Took (α := α) (ρ := ρ) conv leading) where
  serves h := ⟨conv, h.serves⟩
  fed xs h := h.fed hf hl xs
  skip h hm hk := h.skip hf hl hm hk

end Kernel

end RateConversion
