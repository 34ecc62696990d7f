import RateConversion.Proofs.Convolution
import RateConversion.Proofs.Isolation
import RateConversion.Proofs.TaperedWindows

/-! Constants pass through decimation, where arithmetic is exact. A tapered mean divides by the
weight of just what it has summed, in a window that is cut short as in a full one. A symmetric
filter weighs each place of its window once, and its taps have been divided by their gain, so
their weights are 1 in all, whatever they were. -/

namespace RateConversion

namespace Taps

section Table

variable {κ ρ : Type}

/-- The filter with the tap `tap m` at distance `m`, out to the distance `n`. -/
def table (tap : Nat → κ) (n : Nat) : Taps κ := ⟨tap 0, (List.range n).map fun i => tap (i + 1)⟩

/-- The taps of the low-pass are computed and divided in floating point, then rounded. -/
theorem lowPass_eq_table [Scalar ρ] (factor span : Nat) :
    (lowPass factor span : Taps ρ) =
      (table (rawTap factor (span * factor / 2)) (span * factor / 2)).normalize.map
        Scalar.ofFloat := rfl

theorem reach_table (tap : Nat → κ) (n : Nat) : (table tap n).reach = n := by
  rw [reach, table, List.length_map, List.length_range]

theorem tap_table (tap : Nat → κ) {n m : Nat} (hm : m ≤ n) : (table tap n).tap m = tap m := by
  cases m with
  | zero => rfl
  | succ m =>
    rw [Taps.tap, table, List.getD_eq_getElem _ _ (by rwa [List.length_map, List.length_range])]
    simp

theorem map_table (f : κ → ρ) (tap : Nat → κ) (n : Nat) :
    (table tap n).map f = table (fun m => f (tap m)) n := by
  rw [map, table, table, List.map_map]
  rfl

theorem normalize_table [Zero κ] [Add κ] [Div κ] (tap : Nat → κ) (n : Nat) :
    (table tap n).normalize = table (fun m => tap m / (table tap n).gain) n :=
  map_table (· / (table tap n).gain) tap n

theorem foldl_add_map_range [AddCommMonoid κ] (f : Nat → κ) (n : Nat) :
    ((List.range n).map f).foldl (· + ·) 0 = ∑ m ∈ Finset.range n, f m := by
  induction n with
  | zero => rfl
  | succ n ih =>
    rw [List.range_succ, List.map_append, List.foldl_append, ih, Finset.sum_range_succ]
    rfl

theorem gain_table [Semiring κ] (tap : Nat → κ) (n : Nat) :
    (table tap n).gain = tap 0 + 2 * ∑ m ∈ Finset.range n, tap (m + 1) := by
  simp only [gain, table]
  rw [foldl_add_map_range, two_mul]

theorem gain_normalize [Field κ] {tap : Nat → κ} {n : Nat} (h : (table tap n).gain ≠ 0) :
    (table tap n).normalize.gain = 1 := by
  rw [normalize_table, gain_table, ← Finset.sum_div, mul_div_assoc', ← add_div, ← gain_table,
    div_self h]

theorem gain_eq_sum [Semiring κ] (tap : Nat → κ) (n : Nat) :
    (table tap n).gain =
      (table tap n).tap 0 + 2 * ∑ m ∈ Finset.range n, (table tap n).tap (m + 1) := by
  rw [gain_table]
  congr 2
  apply Finset.sum_congr rfl
  intro m hm
  exact (tap_table tap (Finset.mem_range.mp hm)).symm

theorem gain_map_table [Semiring κ] [Semiring ρ] (f : κ →+* ρ) (tap : Nat → κ) (n : Nat) :
    ((table tap n).map f).gain = f (table tap n).gain := by
  rw [map_table, gain_table, gain_table, map_add, map_mul, map_sum, map_ofNat]

theorem normalized_table [Field κ] [Semiring ρ] (f : κ →+* ρ) {tap : Nat → κ} {n : Nat}
    (h : tap 0 + 2 * ∑ m ∈ Finset.range n, tap (m + 1) ≠ 0) {t : Taps ρ}
    (ht : t = (table tap n).normalize.map f) :
    t.reach = n ∧ t.tap 0 + 2 * ∑ m ∈ Finset.range n, t.tap (m + 1) = 1 := by
  rw [← gain_table] at h
  have hgain : t.gain = 1 := by
    have hone := gain_normalize h
    rw [normalize_table] at ht hone
    rw [ht, gain_map_table, hone, map_one]
  rw [normalize_table, map_table] at ht
  subst ht
  rw [gain_eq_sum] at hgain
  exact ⟨reach_table _ n, hgain⟩

end Table

section Window

open Tapered (distance)

variable {α ρ : Type} [Field ρ] [AddCommGroup α] [Module ρ α] [Scalar ρ] [Sample α ρ]

theorem convolve_eq_sum (e : Exact α ρ) (t : Taps ρ) (x : Nat → α) {c n : Nat} (hn : n ≤ c) :
    t.convolve x c n = ∑ j ∈ Finset.Ico (c - n) (c + n + 1), t.tap (distance c j) • x j := by
  induction n with
  | zero =>
    have hcenter : distance c c = 0 := by rw [distance]; omega
    rw [convolve, e.scale_eq, Nat.sub_zero, Nat.add_zero, Nat.Ico_succ_singleton,
      Finset.sum_singleton, hcenter]
  | succ n ih =>
    have hfirst : c - (n + 1) + 1 = c - n := by omega
    have hbefore : distance c (c - (n + 1)) = n + 1 := by rw [distance]; omega
    have hafter : distance c (c + (n + 1)) = n + 1 := by rw [distance]; omega
    have hrest := ih (by omega)
    rw [Nat.add_assoc] at hrest
    rw [Finset.sum_Ico_succ_top (by omega), Finset.sum_eq_sum_Ico_succ_bot (by omega), hfirst,
      hbefore, hafter, convolve, e.scale_eq, hrest, smul_add, ← add_assoc,
      add_comm (Finset.sum _ _)]

theorem convolve_const (e : Exact α ρ) (t : Taps ρ) (c : α) (i n : Nat) :
    t.convolve (fun _ => c) i n =
      (t.tap 0 + 2 * ∑ m ∈ Finset.range n, t.tap (m + 1)) • c := by
  induction n with
  | zero => rw [convolve, e.scale_eq, Finset.sum_range_zero, mul_zero, add_zero]
  | succ n ih =>
    rw [convolve, ih, e.scale_eq, Finset.sum_range_succ, mul_add, ← add_assoc,
      add_smul _ (2 * t.tap (n + 1)), mul_smul 2 (t.tap (n + 1)), two_smul, smul_add]

end Window

end Taps

namespace TaperedMean

variable {α ρ : Type} [Field ρ] [AddCommGroup α] [Module ρ α] [Scalar ρ]

def Holds (c : α) (m : TaperedMean α ρ) : Prop :=
  ∃ n : Nat, m.weight = halves n ∧ m.sum = (halves n : ρ) • c

variable [Sample α ρ] {c : α} {m : TaperedMean α ρ}

theorem start_holds (e : Exact α ρ) (c : α) (factor leading : Nat) :
    (start factor leading : TaperedMean α ρ).Holds c :=
  ⟨0, rfl, by rw [e.halves_zero, zero_smul, start]⟩

theorem Holds.take (e : Exact α ρ) (h : m.Holds c) : (m.take c).Holds c := by
  obtain ⟨n, hweight, hsum⟩ := h
  simp only [TaperedMean.take]
  split_ifs
  · refine ⟨n + m.placeWeight m.clock.phase, ?_, ?_⟩
    · rw [← e.halves_add, ← hweight]
    · rw [← e.halves_add, add_smul, ← hsum, ← e.scale_eq]
  · exact ⟨n, hweight, hsum⟩

theorem holds_restart (e : Exact α ρ) (m : TaperedMean α ρ) (c : α) : (m.restart c).Holds c := by
  simp only [restart]
  split_ifs
  · exact ⟨1, rfl, e.scale_eq c _⟩
  · exact ⟨0, rfl, by rw [e.halves_zero, zero_smul]⟩

theorem Holds.mean_eq (e : Exact α ρ) [CharZero ρ] (h : m.Holds c) (hr : m.clock.ready = true) :
    divide (m.take c).sum (m.take c).weight = c := by
  obtain ⟨n, hweight, hsum⟩ := h
  -- At a tick the sample at hand is in the window, so that the window has some weight.
  have hphase := beq_iff_eq.mp hr
  have hpos := placeWeight_pos m m.clock.phase
  have hne : (halves (n + m.placeWeight m.clock.phase) : ρ) ≠ 0 := by
    rw [e.halves_eq]
    exact div_ne_zero (Nat.cast_ne_zero.mpr (by omega)) two_ne_zero
  simp only [TaperedMean.take]
  rw [if_pos (by omega)]
  dsimp only
  rw [hweight, hsum, e.scale_eq, ← add_smul, e.halves_add, e.divide_eq, inv_smul_smul₀ hne]

theorem Holds.step (e : Exact α ρ) [CharZero ρ] (h : m.Holds c) :
    (m.step c).1.Holds c ∧ ∀ y ∈ (m.step c).2, y = c := by
  simp only [TaperedMean.step]
  rw [take_clock]
  split_ifs with hr
  · refine ⟨holds_restart e (m.take c) c, ?_⟩
    intro y hy
    rw [List.mem_singleton.mp hy, h.mean_eq e hr]
  · exact ⟨h.take e, fun y hy => absurd hy List.not_mem_nil⟩

end TaperedMean

theorem flatten_eq_replicate {α : Type} {c : α} {xss : List (List α)}
    (hc : ∀ xs ∈ xss, ∀ x ∈ xs, x = c) :
    xss.flatten = List.replicate xss.flatten.length c := by
  rw [List.eq_replicate_iff]
  refine ⟨rfl, fun x hx => ?_⟩
  obtain ⟨xs, hxs, hx⟩ := List.mem_flatten.mp hx
  exact hc xs hxs x hx

namespace Kernel

section Delivery

variable {α ρ : Type} [Field ρ] [AddCommGroup α] [Module ρ α] [Scalar ρ] [Sample α ρ]
variable {c : α} {factor leading : Nat} {xss : List (List α)}

theorem mean_delivers_const [CharZero ρ] (e : Exact α ρ) (hpos : 0 < factor)
    (hword : factor < 2 ^ 32) (hl : leading < 2 ^ 62) (hc : ∀ xs ∈ xss, ∀ x ∈ xs, x = c) :
    ((ofDecimation factor .tukey : Kernel α ρ).reset leading).Delivers xss
      (fun k => leading + k * factor + factor / 2) (fun _ => c) := by
  let m : TaperedMean α ρ := .start factor leading
  have hreach : Decimation.tukey.reach factor = factor / 2 := rfl
  have hwarmup : Decimation.tukey.warmup factor = 0 := rfl
  have hsound : m.clock.Sound :=
    TickClock.start_sound hpos (by omega) (by omega) (by omega)
  have hwait : m.clock.wait = factor / 2 + leading + 0 :=
    TickClock.wait_start hpos (by omega) (by omega) (by omega)
  have htakes : (mean m).TakesAll xss := trivial
  refine htakes.delivers ?_ ?_
  · intro xs i
    have hlen : ((mean m).fed xs).2.length = m.clock.count xs.length :=
      (TaperedMean.feed_step hsound xs).2
    have hstride : m.clock.stride = factor := rfl
    rw [hlen, TickClock.lt_count_iff hpos, hwait, hstride]
    omega
  · intro i y hy
    rw [flatten_eq_replicate hc] at hy
    exact (feed_replicate (fun m hm => TaperedMean.Holds.step e hm)
      (TaperedMean.start_holds e c factor leading) _).2 y (List.mem_of_getElem? hy)

theorem sinc_delivers_const (e : Exact α ρ) {t : Taps ρ} (hpos : 0 < factor)
    (hword : factor < 2 ^ 62) (hwindow : t.reach + leading + t.reach < 2 ^ 63)
    (hgain : t.tap 0 + 2 * ∑ m ∈ Finset.range t.reach, t.tap (m + 1) = 1)
    (hc : ∀ xs ∈ xss, ∀ x ∈ xs, x = c) (hparts : ∀ xs ∈ xss, xs.length < 2 ^ 62) :
    ((Kernel.sinc (.start t factor 0) : Kernel α ρ).reset leading).Delivers xss
      (fun k => leading + 2 * t.reach + k * factor) (fun _ => c) := by
  let f : SincFilter α ρ := .start t factor 0
  have hring : f.history.capacity = 2 * t.reach := History.capacity_blank _
  obtain ⟨hsound, hwait⟩ := SincFilter.sound_reset (show 0 < f.clock.stride from hpos) hword hwindow
    hring
  have htakes : ((sinc f).reset leading).TakesAll xss := ⟨hsound, hparts⟩
  refine htakes.delivers ?_ ?_
  · intro xs i
    have hlen : (((sinc f).reset leading).fed xs).2.length =
        (f.reset leading).clock.count xs.length := SincFilter.length_outputs _ xs
    have hreach : f.taps.reach = t.reach := rfl
    have hstride : (f.reset leading).clock.stride = factor := rfl
    rw [hlen, TickClock.lt_count_iff hsound.clock.stride_pos, hwait, hstride]
    omega
  · intro i y hy
    have hconst : xss.flatten = stretch (fun _ => c) 0 xss.flatten.length := by
      rw [stretch, List.map_const', List.length_range]
      exact flatten_eq_replicate hc
    change ((f.reset leading).outputs xss.flatten)[i]? = some y at hy
    rw [hconst] at hy
    rw [Reference.sinc_eq hsound (History.toList_clear _) _ 0 _ i hy, Taps.apply_eq_convolve,
      Taps.convolve_const e]
    exact (congr_arg (· • c) hgain).trans (one_smul ρ c)

end Delivery

/-- Where arithmetic is exact, decimation of a constant gives that constant and nothing else,
however the input is parted and however many samples are passed over first. For a symmetric filter
the taps may be any that have a gain to divide them by. -/
theorem delivers_constant {κ α ρ : Type} [Field κ] [Field ρ] [CharZero ρ] [AddCommGroup α]
    [Module ρ α] [Scalar ρ] [Sample α ρ] (e : Exact α ρ) (real : κ →+* ρ) {factor leading : Nat}
    (hf : 2 ≤ factor) (hword : factor < 2 ^ 32) (hl : leading < 2 ^ 62) {c : α}
    {xss : List (List α)} (hc : ∀ xs ∈ xss, ∀ x ∈ xs, x = c)
    (hparts : ∀ xs ∈ xss, xs.length < 2 ^ 62) :
    ((ofDecimation factor .tukey : Kernel α ρ).reset leading).Delivers xss
        (fun k => leading + k * factor + factor / 2) (fun _ => c) ∧
      ∀ (d : Decimation) (span n : Nat) (tap : Nat → κ) (t : Taps ρ), d.span? = some span →
        n = span * factor / 2 → tap 0 + 2 * ∑ m ∈ Finset.range n, tap (m + 1) ≠ 0 →
        t = (Taps.table tap n).normalize.map real →
        ofDecimation factor d = (sinc (.start ((Taps.table (Taps.rawTap factor n) n).normalize.map
            Scalar.ofFloat) factor 0) : Kernel α ρ) ∧
          t.tap 0 + 2 * ∑ m ∈ Finset.range n, t.tap (m + 1) = 1 ∧
          (∀ (x : Nat → α) (i : Nat), n ≤ i → t.apply x i =
            ∑ j ∈ Finset.Ico (i - n) (i + n + 1), t.tap (Tapered.distance i j) • x j) ∧
          ((sinc (.start t factor 0) : Kernel α ρ).reset leading).Delivers xss
            (fun k => leading + span * factor + k * factor) (fun _ => c) := by
  refine ⟨mean_delivers_const e (by omega) hword hl hc, ?_⟩
  intro d span n tap t hd hn hgain ht
  obtain ⟨rfl, hone⟩ := Taps.normalized_table real hgain ht
  refine ⟨?_, hone, fun x i hi => ?_, ?_⟩
  · rw [hn, ofDecimation_of_span hd, Taps.lowPass_eq_table]
  · rw [Taps.apply_eq_convolve, Taps.convolve_eq_sum e t x hi]
  · have hreach := d.reach_lt hword
    rw [Decimation.reach_of_span hd, ← hn] at hreach
    have heven : 2 * t.reach = span * factor := by
      rw [hn]
      cases d <;> cases hd <;> simp only [Decimation.shortSpan, Decimation.longSpan] <;> omega
    rw [← heven]
    exact sinc_delivers_const e (by omega) (by omega) (by omega) hone hc hparts

def threes : List (List ℚ) := [List.replicate 100 3, List.replicate 200 3]

theorem delivers_constant_of_threes :
    ((ofDecimation 4 .tukey : Kernel ℚ ℚ).reset 1).Delivers threes (fun k => 1 + k * 4 + 2)
        (fun _ => 3) ∧
      ((sinc (.start ((Taps.table (fun _ => (1 : ℚ)) 64).normalize.map (RingHom.id ℚ)) 4 0) :
        Kernel ℚ ℚ).reset 1).Delivers threes (fun k => 1 + 32 * 4 + k * 4) (fun _ => 3) := by
  have hthree : ∀ xs ∈ threes, ∀ x ∈ xs, x = 3 := by
    intro xs hxs x hx
    rcases List.mem_cons.mp hxs with rfl | hxs
    · exact List.eq_of_mem_replicate hx
    · rw [List.mem_singleton.mp hxs] at hx
      exact List.eq_of_mem_replicate hx
  have hparts : ∀ xs ∈ threes, xs.length < 2 ^ 62 := by
    intro xs hxs
    rcases List.mem_cons.mp hxs with rfl | hxs
    · rw [List.length_replicate]
      decide
    · rw [List.mem_singleton.mp hxs, List.length_replicate]
      decide
  have hgain : (1 : ℚ) + 2 * ∑ _m ∈ Finset.range 64, 1 ≠ 0 := by
    rw [Finset.sum_const, Finset.card_range]
    norm_num
  obtain ⟨hmean, hsinc⟩ := delivers_constant Rational.exact (RingHom.id ℚ)
    (show 2 ≤ 4 by decide) (by decide) (show 1 < 2 ^ 62 by decide) hthree hparts
  exact ⟨hmean, (hsinc .shortSinc 32 64 (fun _ => 1) _ rfl rfl hgain rfl).2.2.2⟩

end Kernel

end RateConversion
