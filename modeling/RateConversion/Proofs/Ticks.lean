import Mathlib.Tactic.Linarith
import Mathlib.Tactic.Ring
import RateConversion.TickClock

/-! The tick clock over spans. A sound clock has not let its next tick go by and keeps all
its numbers inside the words. The ticks of a span are counted by the least number of
strides that carry the wait past it, so the counts of consecutive spans add up, and a
clock that moves over a span or over its parts ends in the same state. -/

namespace RateConversion

theorem Checked.signedRange_eq_ok_iff {i j : Int} :
    signedRange i = .ok j ↔ j = i ∧ -0x8000000000000000 ≤ i ∧ i < 0x8000000000000000 := by
  simp only [signedRange]
  by_cases h : -0x8000000000000000 ≤ i ∧ i < 0x8000000000000000
  · rw [if_pos h]
    simp [h, eq_comm]
  · rw [if_neg h]
    exact ⟨fun hc => (by cases hc), fun hc => absurd hc.2 h⟩

theorem Checked.signed_eq {n : Nat} (h : n < 2 ^ 64) :
    signed n = if n < 2 ^ 63 then (n : Int) else n - 2 ^ 64 := by
  unfold signed
  rw [Int.bmod_def, Int.emod_eq_of_lt (by omega) (by omega)]
  split_ifs <;> omega

namespace TickClock

structure Sound (c : TickClock) : Prop where
  stride_pos : 0 < c.stride
  stride_lt : c.stride < 2 ^ 62
  lookahead_lt : c.lookahead < 2 ^ 62
  due : c.phase ≤ c.lookahead
  near : (c.lookahead : Int) < c.phase + 2 ^ 63

def after (c : TickClock) (n : Nat) : TickClock :=
  { c with phase := c.phase + n - (c.count n * c.stride : Nat) }

variable {c : TickClock}

@[simp] theorem after_stride (n : Nat) : (c.after n).stride = c.stride := rfl

@[simp] theorem after_lookahead (n : Nat) : (c.after n).lookahead = c.lookahead := rfl

theorem wait_eq (h : c.Sound) : (c.wait : Int) = c.lookahead - c.phase := by
  have h1 := h.due
  have h2 := h.near
  simp only [wait, Checked.word]
  rw [Int.emod_eq_of_lt (by omega) (by omega)]
  omega

theorem count_le_iff (h : 0 < c.stride) (n k : Nat) :
    c.count n ≤ k ↔ n ≤ c.wait + k * c.stride := by
  simp only [count]
  split_ifs with hw
  · rw [Nat.succ_le_iff, Nat.div_lt_iff_lt_mul h]
    omega
  · exact iff_of_true (Nat.zero_le k) (by omega)

theorem lt_count_iff (h : 0 < c.stride) (n k : Nat) :
    k < c.count n ↔ c.wait + k * c.stride < n := by
  rw [← not_le, count_le_iff h, not_le]

theorem le_wait_add_count (h : 0 < c.stride) (n : Nat) : n ≤ c.wait + c.count n * c.stride :=
  (count_le_iff h n _).mp le_rfl

theorem wait_add_count_le (h : 0 < c.stride) (n : Nat) :
    c.wait + c.count n * c.stride ≤ max c.wait (n + c.stride - 1) := by
  rcases Nat.eq_zero_or_pos (c.count n) with hz | hp
  · simp [hz]
  · have := (lt_count_iff h n (c.count n - 1)).mp (by omega)
    rw [Nat.sub_one_mul] at this
    omega

theorem count_mono (h : 0 < c.stride) {m n : Nat} (hmn : m ≤ n) : c.count m ≤ c.count n :=
  (count_le_iff h m _).mpr (hmn.trans (le_wait_add_count h n))

@[simp] theorem count_zero : c.count 0 = 0 := rfl

theorem after_zero : c.after 0 = c := by simp [after]

theorem wait_after_int (h : c.Sound) (n : Nat) :
    ((c.after n).lookahead : Int) - (c.after n).phase =
      c.wait + (c.count n * c.stride : Nat) - n := by
  have := wait_eq h
  simp only [after]
  omega

theorem after_sound (h : c.Sound) (n : Nat) : (c.after n).Sound := by
  have hw := wait_eq h
  have h1 := le_wait_add_count h.stride_pos n
  have h2 := wait_add_count_le h.stride_pos n
  have h3 := wait_after_int h n
  have h4 := h.near
  have h5 := h.stride_lt
  exact ⟨h.stride_pos, h.stride_lt, h.lookahead_lt, by omega, by omega⟩

theorem wait_after (h : c.Sound) (n : Nat) :
    (c.after n).wait + n = c.wait + c.count n * c.stride := by
  have h1 := wait_eq (after_sound h n)
  have h2 := wait_after_int h n
  omega

theorem count_add (h : c.Sound) (m n : Nat) :
    c.count (m + n) = c.count m + (c.after m).count n := by
  have hs := h.stride_pos
  have hw := wait_after h m
  have key (k : Nat) : c.count (m + n) ≤ c.count m + k ↔ (c.after m).count n ≤ k := by
    rw [count_le_iff hs, count_le_iff (after_sound h m).stride_pos, after_stride, Nat.add_mul]
    omega
  have hle := (key _).mpr le_rfl
  have hm := count_mono hs (Nat.le_add_right m n)
  have hge := (key (c.count (m + n) - c.count m)).mp (by omega)
  omega

theorem after_add (h : c.Sound) (m n : Nat) : (c.after m).after n = c.after (m + n) := by
  have hc := count_add h m n
  simp only [after, TickClock.mk.injEq, true_and]
  change _ - (((c.after m).count n * c.stride : Nat) : Int) = _
  rw [hc, Nat.add_mul]
  omega

theorem ready_iff (h : c.Sound) : c.ready = true ↔ c.wait = 0 := by
  have := wait_eq h
  simp only [ready]
  rw [beq_iff_eq]
  omega

theorem count_one (h : c.Sound) : c.count 1 = if c.ready then 1 else 0 := by
  split_ifs with hr
  · have := (ready_iff h).mp hr
    simp [count, this]
  · rw [ready_iff h] at hr
    exact if_neg (by omega)

theorem next_eq_after (h : c.Sound) : c.next = c.after 1 := by
  have hc := count_one h
  simp only [next, after]
  rw [hc]
  split_ifs <;> simp

theorem span_sub_lt (h : c.Sound) (n : Nat) :
    n < c.count n * c.stride + 2 ^ 63 ∧ c.count n * c.stride < n + 2 ^ 62 := by
  have hw := wait_eq h
  have h1 := le_wait_add_count h.stride_pos n
  have h2 := h.near
  have h3 := h.stride_lt
  refine ⟨by omega, ?_⟩
  rcases Nat.eq_zero_or_pos (c.count n) with hz | hp
  · simp [hz]
  · have := (lt_count_iff h.stride_pos n (c.count n - 1)).mp (by omega)
    rw [Nat.sub_one_mul] at this
    omega

theorem eq_after_of_advance (h : c.Sound) {n : Nat} (hn : n < 2 ^ 64) {c' : TickClock}
    (hc : c.advance n (c.count n) = .ok c') : c' = c.after n := by
  obtain ⟨h1, h2⟩ := span_sub_lt h n
  simp only [advance, Checked.bind_eq_ok_iff, Checked.mul_eq_ok_iff,
    Checked.signedRange_eq_ok_iff] at hc
  obtain ⟨back, ⟨hb, hback⟩, move, ⟨hm, hm1, hm2⟩, phase, ⟨hp, -⟩, hc⟩ := hc
  have e1 := Checked.signed_eq hn
  have e2 := Checked.signed_eq hback
  rw [← hb] at e2 hback h1 h2
  have hmove : move = n - back := by
    rw [← hm] at hm1 hm2
    split_ifs at e1 e2 <;> omega
  cases hc
  simp only [after, TickClock.mk.injEq, true_and]
  omega

theorem advance_eq (h : c.Sound) {n : Nat} (hn : n < 2 ^ 62) :
    c.advance n (c.count n) = .ok (c.after n) := by
  obtain ⟨h1, h2⟩ := span_sub_lt h n
  have hs := after_sound h n
  have hdue := hs.due
  have hnear := hs.near
  have hlook := h.lookahead_lt
  have hphase : (c.after n).phase = c.phase + n - (c.count n * c.stride : Nat) := rfl
  have hback : c.count n * c.stride < 2 ^ 64 := by omega
  have e1 := Checked.signed_eq (show n < 2 ^ 64 by omega)
  have e2 := Checked.signed_eq hback
  rw [if_pos (by omega)] at e1 e2
  simp only [after_lookahead] at hdue hnear
  simp only [advance, Checked.bind_eq_ok_iff, Checked.mul_eq_ok_iff,
    Checked.signedRange_eq_ok_iff]
  refine ⟨_, ⟨rfl, hback⟩, _, ⟨rfl, ?_, ?_⟩, _, ⟨rfl, ?_, ?_⟩, ?_⟩
  all_goals rw [e1, e2]
  case refine_5 =>
    simp only [after, Except.ok.injEq, TickClock.mk.injEq, true_and]
    omega
  all_goals omega

theorem start_sound {stride lookahead warmup leading : Nat} (hs : 0 < stride)
    (hs' : stride < 2 ^ 62) (hl : lookahead < 2 ^ 62)
    (hw : lookahead + leading + warmup < 2 ^ 63) :
    (start stride lookahead warmup leading).Sound := by
  have hp : (start stride lookahead warmup leading).phase = -((leading + warmup : Nat) : Int) := by
    simp only [start]
    rw [Checked.signed_eq (by omega), if_pos (by omega)]
  have hlook : (start stride lookahead warmup leading).lookahead = lookahead := rfl
  exact ⟨hs, hs', by omega, by omega, by omega⟩

theorem wait_start {stride lookahead warmup leading : Nat} (hs : 0 < stride)
    (hs' : stride < 2 ^ 62) (hl : lookahead < 2 ^ 62)
    (hw : lookahead + leading + warmup < 2 ^ 63) :
    (start stride lookahead warmup leading).wait = lookahead + leading + warmup := by
  have h := wait_eq (start_sound hs hs' hl hw)
  have hp : (start stride lookahead warmup leading).phase = -((leading + warmup : Nat) : Int) := by
    simp only [start]
    rw [Checked.signed_eq (by omega), if_pos (by omega)]
  have hlook : (start stride lookahead warmup leading).lookahead = lookahead := rfl
  omega

end TickClock

end RateConversion
