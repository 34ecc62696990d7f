import RateConversion.Proofs.Spans

/-! The weight of a tapered mean. Where sums of half weights are exact, the weight of a window
is that of its places from where it was begun up to the newest sample, so it is never more
than the stride, and silence can be weighed at once. -/

namespace RateConversion

namespace TaperedMean

variable {α ρ : Type}

def ExactUpTo (ρ : Type) [Add ρ] [Scalar ρ] (limit : Nat) : Prop :=
  ∀ a b : Nat, a + b ≤ limit → (halves a + halves b : ρ) = halves (a + b)

def Centred (m : TaperedMean α ρ) : Prop := m.clock.lookahead = m.clock.stride / 2

structure Weighed [Scalar ρ] (m : TaperedMean α ρ) (since : Int) : Prop where
  begun : since ≤ m.clock.phase
  weight : m.weight = halves (m.windowWeight since (m.clock.phase - 1))

variable {m : TaperedMean α ρ}

theorem windowWeight_congr {m' : TaperedMean α ρ} (hs : m'.clock.stride = m.clock.stride)
    (hl : m'.clock.lookahead = m.clock.lookahead) (a b : Int) :
    m'.windowWeight a b = m.windowWeight a b := by
  unfold windowWeight tapered
  rw [hs, hl]

theorem windowWeight_of_lt {a b : Int} (h : b < a) : m.windowWeight a b = 0 := by
  simp only [windowWeight]
  exact if_pos (lt_of_lt_of_le h (le_max_left _ _))

theorem windowWeight_before {a b : Int} (h : b < -m.clock.lookahead) :
    m.windowWeight a b = 0 := by
  simp only [windowWeight]
  exact if_pos (lt_of_lt_of_le h (le_max_right _ _))

theorem placeWeight_pos (m : TaperedMean α ρ) (i : Int) : 0 < m.placeWeight i := by
  simp only [placeWeight]
  split_ifs <;> decide

theorem windowWeight_succ (hc : m.Centred) (hs : 0 < m.clock.stride) {a b : Int}
    (hab : a ≤ b) (hb : -(m.clock.lookahead : Int) ≤ b) (hle : b ≤ m.clock.lookahead) :
    m.windowWeight a b = m.windowWeight a (b - 1) + m.placeWeight b := by
  simp only [Centred] at hc
  unfold windowWeight placeWeight tapered
  have hmax : max a (-(m.clock.lookahead : Int)) ≤ b := max_le hab hb
  generalize max a (-(m.clock.lookahead : Int)) = first at hmax
  simp only [Bool.and_eq_true, beq_iff_eq]
  split_ifs <;> omega

theorem windowWeight_add (hc : m.Centred) (hs : 0 < m.clock.stride) {a b : Int}
    (hab : a ≤ b) (n : Nat) (hle : b + n - 1 ≤ m.clock.lookahead) :
    m.windowWeight a (b - 1) + m.windowWeight b (b + n - 1) = m.windowWeight a (b + n - 1) := by
  induction n with
  | zero => rw [Nat.cast_zero, add_zero, windowWeight_of_lt (sub_one_lt b), Nat.add_zero]
  | succ n ih =>
    have hlast : b + (n + 1 : Nat) - 1 = b + n := by omega
    rw [hlast] at hle ⊢
    by_cases hin : -(m.clock.lookahead : Int) ≤ b + n
    · rw [windowWeight_succ hc hs (show b ≤ b + n by omega) hin hle,
        windowWeight_succ hc hs (show a ≤ b + n by omega) hin hle, ← ih (by omega), Nat.add_assoc]
    · rw [windowWeight_before (show b - 1 < _ by omega), windowWeight_before (by omega),
        windowWeight_before (by omega)]

theorem windowWeight_le (hc : m.Centred) (hs : 0 < m.clock.stride) {a b : Int}
    (hle : b ≤ m.clock.lookahead) : m.windowWeight a b ≤ 2 * m.clock.stride := by
  simp only [Centred] at hc
  simp only [windowWeight, tapered]
  have hmax := le_max_right a (-(m.clock.lookahead : Int))
  generalize max a (-(m.clock.lookahead : Int)) = first at hmax
  simp only [beq_iff_eq]
  split_ifs <;> omega

theorem Weighed.weight_eq [Scalar ρ] {m' : TaperedMean α ρ} {since : Int} (h : m.Weighed since)
    (hclock : m.clock = m'.clock) (h' : m'.Weighed since) : m.weight = m'.weight := by
  have hwindow (a b : Int) : m'.windowWeight a b = m.windowWeight a b :=
    windowWeight_congr (by rw [hclock]) (by rw [hclock]) a b
  rw [h.weight, h'.weight, hwindow, hclock]

theorem Weighed.unique [Scalar ρ] {m' : TaperedMean α ρ} {since : Int} (h : m.Weighed since)
    (hclock : m.clock = m'.clock) (hsum : m.sum = m'.sum) (h' : m'.Weighed since) : m = m' := by
  have hweight := h.weight_eq hclock h'
  cases m
  cases m'
  cases hclock
  cases hsum
  cases hweight
  rfl

theorem start_weighed [Zero α] [Scalar ρ] (factor leading : Nat) :
    (start factor leading : TaperedMean α ρ).Weighed
      (start factor leading : TaperedMean α ρ).clock.phase :=
  ⟨le_rfl, by rw [windowWeight_of_lt (sub_one_lt _)]; rfl⟩

theorem weight_restart [Zero α] [Scalar ρ] [Sample α ρ] (hc : m.Centred) (hs : m.clock.Sound)
    (hr : m.clock.phase = m.clock.lookahead) (m' : TaperedMean α ρ)
    (hm : m'.clock = m.clock) (x : α) :
    (m'.restart x).weight =
      halves (m.windowWeight (-m.clock.lookahead) (m.clock.phase - m.clock.stride)) := by
  have htaper : m'.tapered = m.tapered := by rw [tapered, tapered, hm]
  have hpos := hs.stride_pos
  simp only [Centred] at hc
  simp only [restart]
  rw [htaper]
  split_ifs with ht
  · have heven := beq_iff_eq.mp ht
    have hend : m.clock.phase - m.clock.stride = -(m.clock.lookahead : Int) := by omega
    have hplace : m.placeWeight (-m.clock.lookahead) = 1 := by
      rw [placeWeight, if_pos]
      rw [ht, Bool.true_and, beq_iff_eq, Int.natAbs_neg, Int.natAbs_natCast]
    rw [hend, windowWeight_succ hc hpos le_rfl le_rfl (by omega), windowWeight_of_lt (sub_one_lt _),
      hplace]
  · have hodd : m.clock.stride % 2 ≠ 0 := fun h => ht (beq_iff_eq.mpr h)
    rw [windowWeight_before (by omega)]

theorem clock_skip [Zero α] [Add ρ] [Scalar ρ] (hs : m.clock.Sound) {n : Nat} (hn : n < 2 ^ 64)
    {m' : TaperedMean α ρ} (hm : m.skip n = .ok m') : m'.clock = m.clock.after n := by
  obtain ⟨clock, hclock, hm⟩ := Checked.bind_eq_ok_iff.mp hm
  cases TickClock.eq_after_of_advance hs hn hclock
  cases hm
  rfl

theorem weighed_skip [Zero α] [Add ρ] [Scalar ρ] (hc : m.Centred) (hs : m.clock.Sound)
    (hx : ExactUpTo ρ (2 * m.clock.stride)) {since : Int} (h : m.Weighed since) {n : Nat}
    (hn : n < 2 ^ 64) {m' : TaperedMean α ρ} (hm : m.skip n = .ok m') :
    m'.sum = 0 ∧
      m'.Weighed (if m.clock.count n = 0 then since else -m.clock.lookahead) := by
  obtain ⟨clock, hclock, hm⟩ := Checked.bind_eq_ok_iff.mp hm
  cases TickClock.eq_after_of_advance hs hn hclock
  cases hm
  have hbegun := h.begun
  have hafter := TickClock.after_sound hs n
  have hdue : (m.clock.after n).phase ≤ m.clock.lookahead := hafter.due
  have hphase : (m.clock.after n).phase =
      m.clock.phase + n - (m.clock.count n * m.clock.stride : Nat) := rfl
  refine ⟨rfl, ?_⟩
  by_cases hz : m.clock.count n = 0
  · -- No tick: the window under way grows by the places of the span.
    rw [if_pos hz]
    rw [hz, Nat.zero_mul] at hphase
    refine ⟨by dsimp only; omega, ?_⟩
    have hlast : (m.clock.after n).phase - 1 = m.clock.phase + n - 1 := by omega
    have hsum := windowWeight_add hc hs.stride_pos hbegun n (by omega)
    have hle := windowWeight_le hc hs.stride_pos (a := since)
      (show m.clock.phase + n - 1 ≤ m.clock.lookahead by omega)
    simp only [hz, Nat.lt_irrefl, if_false, hlast]
    rw [h.weight, hx _ _ (hsum ▸ hle), hsum]
    rfl
  · -- A window has begun since the last tick, and no sample from before it counts.
    rw [if_neg hz]
    have hwait := TickClock.wait_after hs n
    have hwait' := TickClock.wait_eq hafter
    have hlt := (TickClock.lt_count_iff hs.stride_pos n (m.clock.count n - 1)).mp (by omega)
    rw [Nat.sub_one_mul] at hlt
    simp only [Centred] at hc
    simp only [TickClock.after_lookahead] at hwait'
    have hstride := Nat.le_mul_of_pos_left m.clock.stride (Nat.pos_of_ne_zero hz)
    refine ⟨by dsimp only; omega, ?_⟩
    simp only [if_pos (Nat.pos_of_ne_zero hz)]
    rfl

section Step

variable [Add α] [Add ρ] [Scalar ρ] [Sample α ρ]

theorem weight_take (hc : m.Centred) (hs : m.clock.Sound)
    (hx : ExactUpTo ρ (2 * m.clock.stride)) {since : Int} (h : m.Weighed since) (x : α) :
    (m.take x).weight = halves (m.windowWeight since m.clock.phase) := by
  simp only [take]
  split_ifs with hin
  · have hsum := windowWeight_succ hc hs.stride_pos h.begun hin hs.due
    have hle := windowWeight_le hc hs.stride_pos (a := since) hs.due
    dsimp only
    rw [h.weight, hx _ _ (hsum ▸ hle), ← hsum]
  · rw [h.weight, windowWeight_before (by omega), windowWeight_before (by omega)]

theorem weighed_step [Zero α] (hc : m.Centred) (hs : m.clock.Sound)
    (hx : ExactUpTo ρ (2 * m.clock.stride)) {since : Int} (h : m.Weighed since) (x : α) :
    (m.step x).1.Weighed (if m.clock.ready then -m.clock.lookahead else since) := by
  have hclock := step_clock m x
  have hweight (a b : Int) : (m.step x).1.windowWeight a b = m.windowWeight a b :=
    windowWeight_congr (by rw [hclock]; rfl) (by rw [hclock]; rfl) a b
  have htake := take_clock m x
  have hbegun := h.begun
  have hpos := hs.stride_pos
  refine ⟨?_, ?_⟩
  · rw [hclock, TickClock.next]
    split_ifs with hr
    · have hphase := beq_iff_eq.mp hr
      simp only [Centred] at hc
      simp only
      omega
    · simp only
      omega
  · rw [hweight, hclock, TickClock.next]
    simp only [step]
    simp only [htake]
    split_ifs with hr
    · have hphase := beq_iff_eq.mp hr
      have hlast : m.clock.phase + 1 - m.clock.stride - 1 = m.clock.phase - m.clock.stride := by
        omega
      rw [hlast]
      exact weight_restart hc hs hphase _ htake x
    · rw [add_sub_cancel_right]
      exact weight_take hc hs hx h x

theorem weighed_feed [Zero α] (hc : m.Centred) (hs : m.clock.Sound)
    (hx : ExactUpTo ρ (2 * m.clock.stride)) {since : Int} (h : m.Weighed since) (xs : List α) :
    (feed step m xs).1.Weighed
      (if m.clock.count xs.length = 0 then since else -m.clock.lookahead) := by
  induction xs generalizing m since with
  | nil => exact h
  | cons x xs ih =>
    have hstep := step_clock m x
    have hafter := TickClock.next_eq_after hs
    have hsound : (m.step x).1.clock.Sound := by
      rw [hstep, hafter]
      exact TickClock.after_sound hs 1
    have hrest := ih (m := (m.step x).1) (by unfold Centred at *; rw [hstep]; exact hc) hsound
      (by rw [hstep]; exact hx) (weighed_step hc hs hx h x)
    have hcount := TickClock.count_add hs 1 xs.length
    rw [TickClock.count_one hs, ← hafter, ← hstep] at hcount
    rw [feed_cons, List.length_cons, Nat.add_comm, hcount]
    have hlook : (m.step x).1.clock.lookahead = m.clock.lookahead := by rw [hstep]; rfl
    rw [hlook] at hrest
    -- The window is begun anew at a tick of the first sample or of the others.
    have hsince : (if (if m.clock.ready then 1 else 0) + (m.step x).1.clock.count xs.length = 0
        then since else -(m.clock.lookahead : Int)) =
        if (m.step x).1.clock.count xs.length = 0
        then if m.clock.ready then -(m.clock.lookahead : Int) else since
        else -(m.clock.lookahead : Int) := by
      split_ifs <;> first | rfl | omega
    rw [hsince]
    exact hrest

end Step

end TaperedMean

end RateConversion
