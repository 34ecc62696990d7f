import Mathlib.Algebra.BigOperators.Intervals
import Mathlib.Algebra.BigOperators.Field
import Mathlib.Algebra.BigOperators.GroupWithZero.Action
import Mathlib.Algebra.Ring.CharZero
import RateConversion.Proofs.Calls
import RateConversion.Proofs.ExactArithmetic

/-! Decimation by a tapered mean, where arithmetic is exact. The output of a tick is the mean of
the samples that lie no further from it than half a stride. If the stride is even, the samples
at that distance count half, in the windows on both their sides. The first window may lack what
would have come before the first sample, and is divided by the weight that is left. -/

namespace RateConversion

namespace Tapered

def distance (tick i : Nat) : Nat := ((i : Int) - tick).natAbs

def window (factor tick : Nat) : Finset Nat :=
  {i ∈ Finset.range (tick + factor / 2 + 1) | distance tick i ≤ factor / 2}

theorem mem_window {factor tick i : Nat} :
    i ∈ window factor tick ↔ distance tick i ≤ factor / 2 := by
  unfold window distance
  rw [Finset.mem_filter, Finset.mem_range]
  omega

theorem window_eq (factor tick : Nat) :
    window factor tick = Finset.Ico (tick - factor / 2) (tick + factor / 2 + 1) := by
  ext i
  rw [mem_window, Finset.mem_Ico, distance]
  omega

def halfWeight (factor tick i : Nat) : Nat :=
  if factor % 2 = 0 ∧ distance tick i = factor / 2 then 1 else 2

theorem halfWeight_pos (factor tick i : Nat) : 0 < halfWeight factor tick i := by
  simp only [halfWeight]
  split_ifs <;> decide

variable {α ρ : Type}

theorem placeWeight_eq {m : TaperedMean α ρ} {factor : Nat} (hs : m.clock.stride = factor)
    (hl : m.clock.lookahead = factor / 2) (tick n : Nat) :
    m.placeWeight (n - tick) = halfWeight factor tick n := by
  have hend : (m.tapered && ((n : Int) - tick).natAbs == m.clock.lookahead) = true ↔
      factor % 2 = 0 ∧ distance tick n = factor / 2 := by
    rw [Bool.and_eq_true, TaperedMean.tapered, beq_iff_eq, beq_iff_eq, hs, hl, distance]
  exact if_congr hend rfl rfl

variable [Field ρ]

def weight (factor tick i : Nat) : ρ :=
  if factor % 2 = 0 ∧ distance tick i = factor / 2 then 1 / 2 else 1

def total (factor tick : Nat) : ρ := ∑ i ∈ window factor tick, weight factor tick i

theorem weight_eq_half [CharZero ρ] (factor tick i : Nat) :
    (weight factor tick i : ρ) = (halfWeight factor tick i : ρ) / 2 := by
  simp only [weight, halfWeight]
  split_ifs
  · rw [Nat.cast_one]
  · rw [Nat.cast_ofNat]
    exact (div_self two_ne_zero).symm

theorem total_ne_zero [CharZero ρ] {factor : Nat} (hf : 2 ≤ factor) (tick : Nat) :
    (total factor tick : ρ) ≠ 0 := by
  have htotal : (total factor tick : ρ) =
      ((∑ i ∈ window factor tick, halfWeight factor tick i : Nat) : ρ) / 2 := by
    rw [total, Finset.sum_congr rfl fun i _ => weight_eq_half factor tick i, ← Finset.sum_div,
      Nat.cast_sum]
  have htick : tick ∈ window factor tick := by
    rw [mem_window, distance]
    omega
  have hpos : 0 < ∑ i ∈ window factor tick, halfWeight factor tick i :=
    Finset.sum_pos (fun i _ => halfWeight_pos factor tick i) ⟨tick, htick⟩
  rw [htotal]
  exact div_ne_zero (Nat.cast_ne_zero.mpr hpos.ne') two_ne_zero

variable [AddCommGroup α] [Module ρ α]

def mean (factor : Nat) (x : Nat → α) (tick : Nat) : α :=
  (total factor tick : ρ)⁻¹ • ∑ i ∈ window factor tick, (weight factor tick i : ρ) • x i

structure Sums (factor leading : Nat) (x : Nat → α) (n k : Nat) (m : TaperedMean α ρ) :
    Prop where
  clock : Reference.Points factor (factor / 2) (n + (factor - leading)) (k + 1) m.clock
  passed : ∀ j < k, leading + j * factor + factor / 2 < n
  sum : m.sum = ∑ i ∈ Finset.Ico (leading + k * factor - factor / 2) n,
    (weight factor (leading + k * factor) i : ρ) • x i
  weight : m.weight = ∑ i ∈ Finset.Ico (leading + k * factor - factor / 2) n,
    (weight factor (leading + k * factor) i : ρ)

namespace Sums

variable {factor leading n k : Nat} {x : Nat → α} {m : TaperedMean α ρ}

theorem phase (hl : leading < factor) (h : Sums factor leading x n k m) :
    m.clock.phase = n - (leading + k * factor : Nat) := by
  have hphase := h.clock.phase
  rw [Nat.add_one_mul] at hphase
  omega

theorem due (hl : leading < factor) (h : Sums factor leading x n k m) :
    n ≤ leading + k * factor + factor / 2 := by
  have hdue := h.clock.due
  rw [Nat.add_one_mul] at hdue
  omega

theorem ready_iff (hl : leading < factor) (h : Sums factor leading x n k m) :
    m.clock.ready = true ↔ n = leading + k * factor + factor / 2 := by
  rw [h.clock.ready_iff, Nat.add_one_mul]
  omega

variable [Scalar ρ] [Sample α ρ]

theorem start (e : Exact α ρ) (hl : leading < factor) (hword : leading < 2 ^ 63) (x : Nat → α) :
    Sums factor leading x 0 0 (.start factor leading : TaperedMean α ρ) := by
  have hclock : Reference.Points factor (factor / 2) (factor - leading) 1
      (.ofDecimation factor .tukey leading) := Reference.points_start hword (by omega)
  refine ⟨?_, ?_, ?_, ?_⟩
  · rwa [Nat.zero_add]
  · intro j hj
    omega
  · rw [Finset.Ico_eq_empty (by omega), Finset.sum_empty]
    rfl
  · rw [Finset.Ico_eq_empty (by omega), Finset.sum_empty]
    exact e.halves_zero

theorem halves_placeWeight (e : Exact α ρ) [CharZero ρ] (hl : leading < factor)
    (h : Sums factor leading x n k m) :
    (TaperedMean.halves (m.placeWeight m.clock.phase) : ρ) =
      Tapered.weight factor (leading + k * factor) n := by
  rw [h.phase hl, placeWeight_eq h.clock.stride h.clock.lookahead, e.halves_eq,
    weight_eq_half]

theorem take (e : Exact α ρ) [CharZero ρ] (hl : leading < factor)
    (h : Sums factor leading x n k m) :
    (m.take (x n)).sum = ∑ i ∈ Finset.Ico (leading + k * factor - factor / 2) (n + 1),
        (Tapered.weight factor (leading + k * factor) i : ρ) • x i ∧
      (m.take (x n)).weight = ∑ i ∈ Finset.Ico (leading + k * factor - factor / 2) (n + 1),
        (Tapered.weight factor (leading + k * factor) i : ρ) := by
  have hphase := h.phase hl
  have hlook := h.clock.lookahead
  by_cases hbegun : leading + k * factor - factor / 2 ≤ n
  · have htake : m.take (x n) = { m with
        sum := m.sum + scale (x n) (TaperedMean.halves (m.placeWeight m.clock.phase) : ρ)
        weight := m.weight + TaperedMean.halves (m.placeWeight m.clock.phase) } := by
      simp only [TaperedMean.take]
      rw [if_pos (by omega)]
    rw [htake, Finset.sum_Ico_succ_top hbegun, Finset.sum_Ico_succ_top hbegun, ← h.sum,
      ← h.weight, ← h.halves_placeWeight e hl, e.scale_eq]
    exact ⟨rfl, rfl⟩
  · have htake : m.take (x n) = m := by
      simp only [TaperedMean.take]
      rw [if_neg (by omega)]
    rw [htake, h.sum, h.weight, Finset.Ico_eq_empty (by omega), Finset.Ico_eq_empty (by omega)]
    exact ⟨rfl, rfl⟩

theorem restart (e : Exact α ρ) (hf : 2 ≤ factor) (hs : m.clock.stride = factor) (x : Nat → α)
    {tick n : Nat} (hn : n = tick + factor / 2) :
    (m.restart (x n)).sum = ∑ i ∈ Finset.Ico (tick + factor - factor / 2) (n + 1),
        (Tapered.weight factor (tick + factor) i : ρ) • x i ∧
      (m.restart (x n)).weight = ∑ i ∈ Finset.Ico (tick + factor - factor / 2) (n + 1),
        (Tapered.weight factor (tick + factor) i : ρ) := by
  by_cases heven : factor % 2 = 0
  · have hfirst : tick + factor - factor / 2 = n := by omega
    have hhalf : (Tapered.weight factor (tick + factor) n : ρ) = 1 / 2 := by
      rw [Tapered.weight, if_pos ⟨heven, by rw [distance]; omega⟩]
    have hone : (TaperedMean.halves 1 : ρ) = 1 / 2 := by rw [e.halves_eq, Nat.cast_one]
    rw [hfirst, Nat.Ico_succ_singleton, Finset.sum_singleton, Finset.sum_singleton, hhalf]
    unfold TaperedMean.restart TaperedMean.tapered
    rw [hs, heven, hone, e.scale_eq]
    exact ⟨rfl, rfl⟩
  · have hfirst : tick + factor - factor / 2 = n + 1 := by omega
    rw [hfirst, Finset.Ico_self, Finset.sum_empty, Finset.sum_empty]
    unfold TaperedMean.restart TaperedMean.tapered
    rw [hs, if_neg (by rw [beq_iff_eq]; exact heven), e.halves_zero]
    exact ⟨rfl, rfl⟩

theorem step (e : Exact α ρ) [CharZero ρ] (hf : 2 ≤ factor) (hl : leading < factor)
    (h : Sums factor leading x n k m) :
    Sums factor leading x (n + 1) (k + (m.step (x n)).2.length) (m.step (x n)).1 := by
  have hclock := h.clock.next (by omega)
  have hready := h.ready_iff hl
  have hstride := h.clock.stride
  obtain ⟨hsum, hweight⟩ := h.take e hl
  unfold TaperedMean.step
  dsimp only
  rw [TaperedMean.take_clock]
  split_ifs at hclock ⊢ with hr
  · have hn := hready.mp hr
    have hnext : leading + (k + 1) * factor = leading + k * factor + factor := by
      rw [Nat.add_one_mul, Nat.add_assoc]
    obtain ⟨hsum', hweight'⟩ := restart (m := m.take (x n)) e hf
      (by rw [TaperedMean.take_clock, hstride]) x hn
    refine ⟨?_, ?_, ?_, ?_⟩
    · rwa [Nat.add_right_comm] at hclock
    · intro j hj
      rcases Nat.lt_succ_iff_lt_or_eq.mp hj with hlt | rfl
      · exact Nat.lt_succ_of_lt (h.passed j hlt)
      · omega
    · rw [List.length_singleton, hnext]
      exact hsum'
    · rw [List.length_singleton, hnext]
      exact hweight'
  · refine ⟨?_, ?_, hsum, hweight⟩
    · rwa [Nat.add_right_comm] at hclock
    · intro j hj
      exact Nat.lt_succ_of_lt (h.passed j hj)

theorem eq_mean (e : Exact α ρ) [CharZero ρ] (hl : leading < factor)
    (h : Sums factor leading x n k m) {i : Nat} {y : α} (hy : (m.step (x n)).2[i]? = some y) :
    y = mean (ρ := ρ) factor x (leading + (k + i) * factor) := by
  have hready := h.ready_iff hl
  obtain ⟨hsum, hweight⟩ := h.take e hl
  unfold TaperedMean.step at hy
  dsimp only at hy
  rw [TaperedMean.take_clock] at hy
  split_ifs at hy with hr
  · cases i with
    | zero =>
      cases hy
      rw [Nat.add_zero, e.divide_eq, hsum, hweight, mean, total, window_eq, ← hready.mp hr]
    | succ i => cases hy
  · cases hy

theorem feed (e : Exact α ρ) [CharZero ρ] (hf : 2 ≤ factor) (hl : leading < factor)
    (hword : leading < 2 ^ 63) (xs : List α) :
    Sums factor leading (xs.getD · 0) xs.length
      (RateConversion.feed TaperedMean.step (.start factor leading) xs).2.length
      (RateConversion.feed TaperedMean.step (.start factor leading : TaperedMean α ρ) xs).1 := by
  have hrun := feed_stretch_state (I := Sums factor leading (xs.getD · 0))
    (fun n k m h => h.step e hf hl) (start e hl hword _) xs.length
  rwa [stretch_getD, Nat.zero_add, Nat.zero_add] at hrun

end Sums

end Tapered

open Tapered

variable {α ρ : Type} [Field ρ] [CharZero ρ] [AddCommGroup α] [Module ρ α] [Scalar ρ] [Sample α ρ]

/-- From a reset on, a tapered mean delivers the weighted means of its windows. -/
theorem Kernel.delivers_mean (e : Exact α ρ) {m : TaperedMean α ρ} {leading : Nat}
    (hf : 2 ≤ m.clock.stride) (hl : leading < m.clock.stride) (hword : leading < 2 ^ 63)
    (xss : List (List α)) :
    ((Kernel.mean m).reset leading).Delivers xss
        (fun k => leading + k * m.clock.stride + m.clock.stride / 2)
        (fun k => Tapered.mean (ρ := ρ) m.clock.stride (xss.flatten.getD · 0)
          (leading + k * m.clock.stride)) ∧
      ∀ tick, (total m.clock.stride tick : ρ) ≠ 0 := by
  have htakes : ((Kernel.mean m).reset leading).TakesAll xss := trivial
  refine ⟨htakes.delivers ?_ ?_, total_ne_zero hf⟩
  · intro xs i
    change i < (RateConversion.feed TaperedMean.step (.start m.clock.stride leading)
      xs).2.length ↔ _
    have hrun := Sums.feed e hf hl hword xs
    constructor
    · exact hrun.passed i
    · intro hi
      by_contra hge
      have hmul := Nat.mul_le_mul_right m.clock.stride (Nat.le_of_not_lt hge)
      have hdue := hrun.due hl
      omega
  · intro k y hy
    have hstart : Sums m.clock.stride leading (xss.flatten.getD · 0) 0 0
        (.start m.clock.stride leading : TaperedMean α ρ) := Sums.start e hl hword _
    exact feed_getD (I := Sums m.clock.stride leading (xss.flatten.getD · 0))
      (Q := fun k y => y = Tapered.mean (ρ := ρ) m.clock.stride (xss.flatten.getD · 0)
        (leading + k * m.clock.stride))
      (fun n k m h => h.step e hf hl) (fun n k m h i y hy => h.eq_mean e hl hy) hstart k hy

theorem Kernel.delivers_mean_of_cut_window :
    ((Kernel.mean (.start 4 0) : Kernel ℚ ℚ).reset 0).Delivers [[1, 2], [3, 4, 5, 6, 7, 8]]
      (fun k => 0 + k * 4 + 2)
      (fun k => Tapered.mean (ρ := ℚ) 4 ([1, 2, 3, 4, 5, 6, 7, 8].getD · 0) (0 + k * 4)) :=
  (delivers_mean Rational.exact (m := .start 4 0) (show 2 ≤ 4 by decide) (show 0 < 4 by decide)
    (by decide) [[1, 2], [3, 4, 5, 6, 7, 8]]).1

example : ((Kernel.mean (.start 4 0) : Kernel ℚ ℚ).feedAll [[1, 2], [3, 4, 5, 6, 7, 8]]).map
    (fun r => r.2) = .ok [[], [9 / 5, 5]] := by
  decide +kernel

end RateConversion
