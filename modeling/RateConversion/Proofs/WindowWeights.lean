import RateConversion.Proofs.TaperedWindows

/-! The weight of a tapered mean over its life. It is fed with samples or, in silence, passes over
many at once, and holds in either case the weight of the samples of the window that is still
open. It never holds more than a whole window, nor nothing when a window ends. -/

namespace RateConversion

namespace Tapered

def openWeight (factor tick n : Nat) : Nat :=
  ∑ i ∈ Finset.Ico (tick - factor / 2) n, halfWeight factor tick i

variable {factor tick n : Nat}

theorem openWeight_of_le (h : n ≤ tick - factor / 2) : openWeight factor tick n = 0 := by
  rw [openWeight, Finset.Ico_eq_empty_of_le h, Finset.sum_empty]

theorem openWeight_succ (h : tick - factor / 2 ≤ n) :
    openWeight factor tick (n + 1) = openWeight factor tick n + halfWeight factor tick n :=
  Finset.sum_Ico_succ_top h _

theorem openWeight_pos (h : tick - factor / 2 < n) : 0 < openWeight factor tick n :=
  Finset.sum_pos (fun i _ => halfWeight_pos factor tick i) (Finset.nonempty_Ico.mpr h)

end Tapered

namespace TaperedMean

open Tapered

variable {α ρ : Type} {factor leading tick n : Nat} {m : TaperedMean α ρ}

theorem windowWeight_of_max_eq {a a' : Int}
    (h : max a (-(m.clock.lookahead : Int)) = max a' (-(m.clock.lookahead : Int))) (b : Int) :
    m.windowWeight a b = m.windowWeight a' b := by
  simp only [windowWeight]
  rw [h]

theorem windowWeight_eq_openWeight (hs : m.clock.stride = factor)
    (hl : m.clock.lookahead = factor / 2) (hf : 0 < factor) (hn : n ≤ tick + factor / 2 + 1) :
    m.windowWeight (-tick) (n - tick - 1) = openWeight factor tick n := by
  have hc : m.Centred := by rw [Centred, hs, hl]
  induction n with
  | zero => rw [windowWeight_of_lt (by omega), openWeight_of_le (Nat.zero_le _)]
  | succ n ih =>
    have hlast : ((n + 1 : Nat) : Int) - tick - 1 = n - tick := by omega
    rw [hlast]
    -- A sample has the weight of its place once the window has begun, and none before.
    by_cases hin : tick - factor / 2 ≤ n
    · rw [windowWeight_succ hc (hs ▸ hf) (by omega) (by omega) (by omega), ih (by omega),
        openWeight_succ hin, placeWeight_eq hs hl]
    · rw [windowWeight_before (by omega), openWeight_of_le (by omega)]

structure Weighable (ρ : Type) [Add ρ] [Scalar ρ] (factor leading : Nat) : Prop where
  two_le : 2 ≤ factor
  lt : factor < 2 ^ 62
  leading_lt : leading < factor
  exact : ExactUpTo ρ (2 * factor)

/-- Where the window that is open after so many ticks was begun. The first one begins with the
first sample, the others half a stride before their ticks. -/
def windowStart (factor leading ticks : Nat) : Int :=
  if ticks = 0 then -leading else -(factor / 2 : Nat)

theorem max_windowStart (hl : leading < factor) (ticks : Nat) :
    max (windowStart factor leading ticks) (-((factor / 2 : Nat) : Int)) =
      max (-((leading + ticks * factor : Nat) : Int)) (-((factor / 2 : Nat) : Int)) := by
  simp only [windowStart]
  split_ifs with hnone
  · rw [hnone, Nat.zero_mul, Nat.add_zero]
  · have hmul := Nat.le_mul_of_pos_left factor (Nat.pos_of_ne_zero hnone)
    omega

theorem ofDecimation_tukey (factor leading : Nat) :
    TickClock.ofDecimation factor .tukey leading = .start factor (factor / 2) 0 leading := rfl

structure Underway [Scalar ρ] (factor leading n ticks : Nat) (m : TaperedMean α ρ) : Prop where
  clock : m.clock = (TickClock.ofDecimation factor .tukey leading).after n
  ticks_eq : ticks = (TickClock.ofDecimation factor .tukey leading).count n
  weighed : m.Weighed (windowStart factor leading ticks)

namespace Weighable

variable [Add ρ] [Scalar ρ]

theorem sound (w : Weighable ρ factor leading) :
    (TickClock.ofDecimation factor .tukey leading).Sound := by
  have hlt := w.lt
  have hleading := w.leading_lt
  rw [ofDecimation_tukey]
  exact TickClock.start_sound (Nat.zero_lt_of_lt w.two_le) hlt (by omega) (by omega)

theorem wait (w : Weighable ρ factor leading) :
    (TickClock.ofDecimation factor .tukey leading).wait = leading + factor / 2 := by
  have hlt := w.lt
  have hleading := w.leading_lt
  rw [ofDecimation_tukey, TickClock.wait_start (Nat.zero_lt_of_lt w.two_le) hlt (by omega)
    (by omega), Nat.add_zero, Nat.add_comm]

theorem phase (w : Weighable ρ factor leading) :
    (TickClock.ofDecimation factor .tukey leading).phase = -leading := by
  have hwait := TickClock.wait_eq w.sound
  have hlook : (TickClock.ofDecimation factor .tukey leading).lookahead = factor / 2 := rfl
  rw [w.wait, hlook] at hwait
  omega

theorem underway_start [Zero α] (w : Weighable ρ factor leading) :
    (start factor leading : TaperedMean α ρ).Underway factor leading 0 0 := by
  have hstart := start_weighed (α := α) (ρ := ρ) factor leading
  refine ⟨TickClock.after_zero.symm, TickClock.count_zero.symm, ?_⟩
  rwa [windowStart, if_pos rfl, ← w.phase]

end Weighable

namespace Underway

variable {ticks : Nat}

section Clock

variable [Scalar ρ]

theorem stride (h : m.Underway factor leading n ticks) : m.clock.stride = factor := by
  rw [h.clock]
  rfl

theorem lookahead (h : m.Underway factor leading n ticks) : m.clock.lookahead = factor / 2 := by
  rw [h.clock]
  rfl

theorem centred (h : m.Underway factor leading n ticks) : m.Centred := by
  rw [Centred, h.stride, h.lookahead]

variable [Add ρ]

theorem sound (w : Weighable ρ factor leading) (h : m.Underway factor leading n ticks) :
    m.clock.Sound := by
  rw [h.clock]
  exact TickClock.after_sound w.sound n

theorem exact (w : Weighable ρ factor leading) (h : m.Underway factor leading n ticks) :
    ExactUpTo ρ (2 * m.clock.stride) := by
  rw [h.stride]
  exact w.exact

theorem lt_ticks_iff (w : Weighable ρ factor leading) (h : m.Underway factor leading n ticks)
    (j : Nat) : j < ticks ↔ leading + j * factor + factor / 2 < n := by
  have hstride : (TickClock.ofDecimation factor .tukey leading).stride = factor := rfl
  rw [h.ticks_eq, TickClock.lt_count_iff w.sound.stride_pos, w.wait, hstride, Nat.add_right_comm]

theorem phase (w : Weighable ρ factor leading) (h : m.Underway factor leading n ticks) :
    m.clock.phase = n - (leading + ticks * factor : Nat) := by
  have hafter : m.clock.phase = (TickClock.ofDecimation factor .tukey leading).phase + n -
      ((TickClock.ofDecimation factor .tukey leading).count n * factor : Nat) := by
    rw [h.clock]
    rfl
  rw [hafter, w.phase, h.ticks_eq]
  omega

theorem due (w : Weighable ρ factor leading) (h : m.Underway factor leading n ticks) :
    n ≤ leading + ticks * factor + factor / 2 := by
  have hdue := (h.sound w).due
  rw [h.phase w, h.lookahead] at hdue
  omega

theorem windowWeight (w : Weighable ρ factor leading) (h : m.Underway factor leading n ticks)
    {i : Nat} (hi : i ≤ n + 1) :
    m.windowWeight (windowStart factor leading ticks) (i - (leading + ticks * factor : Nat) - 1) =
      openWeight factor (leading + ticks * factor) i := by
  have hdue := h.due w
  have hmax := max_windowStart w.leading_lt ticks
  rw [← h.lookahead] at hmax
  rw [windowWeight_of_max_eq hmax]
  exact windowWeight_eq_openWeight h.stride h.lookahead (Nat.zero_lt_of_lt w.two_le) (by omega)

theorem openWeight_le (w : Weighable ρ factor leading) (h : m.Underway factor leading n ticks)
    {i : Nat} (hi : i ≤ n + 1) : openWeight factor (leading + ticks * factor) i ≤ 2 * factor := by
  have hdue := h.due w
  have hlook := h.lookahead
  have hle := windowWeight_le h.centred (h.sound w).stride_pos
    (a := windowStart factor leading ticks)
    (show (i : Int) - (leading + ticks * factor : Nat) - 1 ≤ m.clock.lookahead by omega)
  rwa [h.windowWeight w hi, h.stride] at hle

theorem weight (w : Weighable ρ factor leading) (h : m.Underway factor leading n ticks) :
    m.weight = halves (openWeight factor (leading + ticks * factor) n) := by
  rw [h.weighed.weight, h.phase w, h.windowWeight w (Nat.le_succ n)]

theorem after (w : Weighable ρ factor leading) (h : m.Underway factor leading n ticks)
    {m' : TaperedMean α ρ} {k : Nat} (hclock : m'.clock = m.clock.after k)
    (hweighed : m'.Weighed
      (if m.clock.count k = 0 then windowStart factor leading ticks else -m.clock.lookahead)) :
    m'.Underway factor leading (n + k) (ticks + m.clock.count k) := by
  refine ⟨?_, ?_, ?_⟩
  · rw [hclock, h.clock, TickClock.after_add w.sound]
  · rw [h.ticks_eq, h.clock, TickClock.count_add w.sound]
  · rw [h.lookahead] at hweighed
    by_cases hnone : m.clock.count k = 0
    · rw [hnone, Nat.add_zero]
      rwa [if_pos hnone] at hweighed
    · rw [windowStart, if_neg (by omega)]
      rwa [if_neg hnone] at hweighed

variable [Zero α] {m' : TaperedMean α ρ}

theorem exists_skip (w : Weighable ρ factor leading) (h : m.Underway factor leading n ticks)
    {k : Nat} (hk : k < 2 ^ 62) : ∃ m', m.skip k = .ok m' :=
  ⟨_, Checked.bind_eq_ok_iff.mpr ⟨_, TickClock.advance_eq (h.sound w) hk, rfl⟩⟩

theorem skipped (w : Weighable ρ factor leading) (h : m.Underway factor leading n ticks) {k : Nat}
    (hk : k < 2 ^ 64) (hskip : m.skip k = .ok m') :
    m'.Underway factor leading (n + k) (ticks + m.clock.count k) :=
  h.after w (clock_skip (h.sound w) hk hskip)
    (weighed_skip h.centred (h.sound w) (h.exact w) h.weighed hk hskip).2

end Clock

variable [Zero α] [Add α] [Add ρ] [Scalar ρ] [Sample α ρ] {m' : TaperedMean α ρ}

theorem fed (w : Weighable ρ factor leading) (h : m.Underway factor leading n ticks)
    (xs : List α) :
    (feed step m xs).1.Underway factor leading (n + xs.length)
      (ticks + m.clock.count xs.length) :=
  h.after w (feed_step (h.sound w) xs).1
    (weighed_feed h.centred (h.sound w) (h.exact w) h.weighed xs)

theorem skip_eq (w : Weighable ρ factor leading) (h : m.Underway factor leading n ticks) {k : Nat}
    (hk : k < 2 ^ 64) (hskip : m.skip k = .ok m') :
    m'.clock = (feed step m (List.replicate k 0)).1.clock ∧
      m'.weight = (feed step m (List.replicate k 0)).1.weight := by
  have hfed := h.fed w (List.replicate k 0)
  have hpassed := h.skipped w hk hskip
  rw [List.length_replicate] at hfed
  have hclock := hpassed.clock.trans hfed.clock.symm
  exact ⟨hclock, hpassed.weighed.weight_eq hclock hfed.weighed⟩

theorem divisor (w : Weighable ρ factor leading) (h : m.Underway factor leading n ticks)
    {x y : α} (hy : y ∈ (m.step x).2) :
    y = divide (m.take x).sum
        (halves (openWeight factor (leading + ticks * factor) (n + 1)) : ρ) ∧
      1 ≤ openWeight factor (leading + ticks * factor) (n + 1) := by
  have hphase := h.phase w
  have hplace : m.clock.phase = (n + 1 : Nat) - (leading + ticks * factor : Nat) - 1 := by omega
  have hweight : (m.take x).weight =
      halves (openWeight factor (leading + ticks * factor) (n + 1)) := by
    rw [weight_take h.centred (h.sound w) (h.exact w) h.weighed, hplace,
      h.windowWeight w le_rfl]
  simp only [step] at hy
  rw [take_clock] at hy
  split_ifs at hy with hready
  · rw [List.mem_singleton.mp hy, hweight]
    have hlast : m.clock.phase = m.clock.lookahead := beq_iff_eq.mp hready
    rw [h.lookahead] at hlast
    exact ⟨rfl, openWeight_pos (by omega)⟩
  · cases hy

end Underway

/-- A mean that has consumed `n` samples of a segment. It was fed with them, or passed over them
while its sum was zero. -/
inductive Consumed [Zero α] [Add α] [Add ρ] [Scalar ρ] [Sample α ρ] (factor leading : Nat) :
    Nat → TaperedMean α ρ → Prop
  | start : Consumed factor leading 0 (.start factor leading)
  | fed {n : Nat} {m : TaperedMean α ρ} (xs : List α) (h : Consumed factor leading n m) :
    Consumed factor leading (n + xs.length) (feed step m xs).1
  | skipped {n : Nat} {m m' : TaperedMean α ρ} (k : Nat) (h : Consumed factor leading n m)
    (silent : m.isSilent = true) (hk : k < 2 ^ 64) (skip : m.skip k = .ok m') :
    Consumed factor leading (n + k) m'

variable [Zero α] [Add α] [Add ρ] [Scalar ρ] [Sample α ρ]

theorem Consumed.exists_underway (w : Weighable ρ factor leading)
    (h : Consumed factor leading n m) : ∃ ticks, m.Underway factor leading n ticks := by
  induction h with
  | start => exact ⟨0, w.underway_start⟩
  | fed xs _ ih =>
    obtain ⟨ticks, hticks⟩ := ih
    exact ⟨_, hticks.fed w xs⟩
  | skipped k _ _ hk hskip ih =>
    obtain ⟨ticks, hticks⟩ := ih
    exact ⟨_, hticks.skipped w hk hskip⟩

structure HoldsWindow (factor tick n : Nat) (m : TaperedMean α ρ) : Prop where
  phase : m.clock.phase = n - tick
  weight : m.weight = halves (openWeight factor tick n)
  weight_le : openWeight factor tick n ≤ 2 * factor
  divisor (x y : α) : y ∈ (m.step x).2 →
    y = divide (m.take x).sum (halves (openWeight factor tick (n + 1)) : ρ) ∧
      1 ≤ openWeight factor tick (n + 1) ∧ openWeight factor tick (n + 1) ≤ 2 * factor
  exists_skip (k : Nat) : k < 2 ^ 62 → ∃ m', m.skip k = .ok m'
  skip_eq (k : Nat) (m' : TaperedMean α ρ) : k < 2 ^ 64 → m.skip k = .ok m' →
    m'.clock = (feed step m (List.replicate k 0)).1.clock ∧
      m'.weight = (feed step m (List.replicate k 0)).1.weight

/-- However a mean consumes a segment, its weight is that of the window that is open. -/
def HoldsOpenWindows (α ρ : Type) [Zero α] [Add α] [Add ρ] [Scalar ρ] [Sample α ρ]
    (factor leading : Nat) : Prop :=
  ∀ (n : Nat) (m : TaperedMean α ρ), Consumed factor leading n m →
    ∃ ticks, (∀ j, j < ticks ↔ leading + j * factor + factor / 2 < n) ∧
      m.HoldsWindow factor (leading + ticks * factor) n

theorem Weighable.holdsOpenWindows (w : Weighable ρ factor leading) :
    HoldsOpenWindows α ρ factor leading := by
  intro n m h
  obtain ⟨ticks, hrun⟩ := h.exists_underway w
  refine ⟨ticks, hrun.lt_ticks_iff w, ?_⟩
  constructor
  case phase => exact hrun.phase w
  case weight => exact hrun.weight w
  case weight_le => exact hrun.openWeight_le w (Nat.le_succ n)
  case divisor =>
    intro x y hy
    obtain ⟨hvalue, hpos⟩ := hrun.divisor w hy
    exact ⟨hvalue, hpos, hrun.openWeight_le w le_rfl⟩
  case exists_skip => exact fun k hk => hrun.exists_skip w hk
  case skip_eq => exact fun k m' hk hskip => hrun.skip_eq w hk hskip

/-- The weight is that of the open window, whatever the stride, if the words have room for a
window and its half weights add up. So it is in every conversion of an accepted configuration. -/
theorem weight_of_open_window :
    (∀ factor leading, 2 ≤ factor → factor < 2 ^ 62 → leading < factor →
      ExactUpTo ρ (2 * factor) → HoldsOpenWindows α ρ factor leading) ∧
    ∀ config s, Setup.ofConfig config = .ok s → config.ExactWeights ρ →
      ∀ factor z, s.conversion = .down factor .tukey z → ∀ leading < factor,
        HoldsOpenWindows α ρ factor leading := by
  constructor
  · intro factor leading hf hlt hl hx
    exact Weighable.holdsOpenWindows ⟨hf, hlt, hl, hx⟩
  · intro config s hs hx factor z hdown leading hl
    obtain ⟨rfl, hcoherent⟩ := Setup.ofConfig_eq_ok_iff.mp hs
    have hrelates := hcoherent.relates
    have hexact := hcoherent.exact hx
    rw [hdown] at hrelates hexact
    have hlt := hcoherent.down_lt hdown
    exact Weighable.holdsOpenWindows ⟨hrelates.1, by omega, hl, hexact⟩

def averaging : Setup where
  config := { rateIn := .four, rateOut := .one, type := .f64, quality := 1 }
  conversion := .down 4 .tukey false

/-- Two samples that cancel out leave silence, and the window ends within the zeros passed over.
The next one holds half of its shared end and one more zero. -/
theorem weight_of_open_window_of_skip :
    Setup.ofConfig averaging.config = .ok averaging ∧ averaging.config.ExactWeights ℚ ∧
      Consumed 4 1 5 (⟨⟨4, 2, 0⟩, 0, 3 / 2⟩ : TaperedMean ℚ ℚ) ∧
      ∃ ticks, (∀ j, j < ticks ↔ 1 + j * 4 + 4 / 2 < 5) ∧
        (⟨⟨4, 2, 0⟩, 0, 3 / 2⟩ : TaperedMean ℚ ℚ).HoldsWindow 4 (1 + ticks * 4) 5 := by
  have hfed : (feed step (start 4 1 : TaperedMean ℚ ℚ) [1, -1]).1 = ⟨⟨4, 2, 1⟩, 0, 2⟩ := by
    decide +kernel
  have hskip : (⟨⟨4, 2, 1⟩, 0, 2⟩ : TaperedMean ℚ ℚ).skip 3 = .ok ⟨⟨4, 2, 0⟩, 0, 3 / 2⟩ := by
    decide +kernel
  have hrun : Consumed 4 1 5 (⟨⟨4, 2, 0⟩, 0, 3 / 2⟩ : TaperedMean ℚ ℚ) :=
    .skipped 3 (hfed ▸ .fed [1, -1] .start) (by decide +kernel) (by decide) hskip
  have hs : Setup.ofConfig averaging.config = .ok averaging := by decide
  have hx : averaging.config.ExactWeights ℚ := Rational.exact.exactWeights _
  exact ⟨hs, hx, hrun,
    weight_of_open_window.2 averaging.config averaging hs hx 4 false rfl 1 (by decide) 5 _ hrun⟩

end TaperedMean

end RateConversion
