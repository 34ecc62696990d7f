import Mathlib.Algebra.Order.Floor.Div
import RateConversion.Proofs.TimeGrid

/-! Where alignment moves a time. It goes to the tick nearest to it or, going down, to the next
tick when it misses the nearest one by half an input period. Of two times the later one is
never moved to the earlier place, and no time is moved further than to a neighbouring tick.
The time of a tick stays where it is, unless the input period is so short that its half is
cut to nothing: then it stays only if a tick that is not before it has the same time. -/

namespace RateConversion

namespace Grid

def nearestTime (rateOut time : Nat) : Nat :=
  timeOfTick rateOut (Scale.round time rateOut nanosPerSecond)

def nextTime (rateOut time : Nat) : Nat :=
  timeOfTick rateOut (Scale.ceil time rateOut nanosPerSecond)

variable {rateIn rateOut time tick : Nat} {direction : Direction}

theorem nearestTime_mono {a b : Nat} (h : a ≤ b) : nearestTime rateOut a ≤ nearestTime rateOut b :=
  timeOfTick_mono rateOut (Scale.round_mono _ _ h)

theorem nextTime_mono {a b : Nat} (h : a ≤ b) : nextTime rateOut a ≤ nextTime rateOut b :=
  timeOfTick_mono rateOut (Scale.ceil_mono _ _ h)

theorem nearestTime_le_nextTime (rateOut time : Nat) :
    nearestTime rateOut time ≤ nextTime rateOut time :=
  timeOfTick_mono rateOut (Scale.round_le_ceil _ _ Scale.nanosPerSecond_pos)

theorem nextTime_le_of_lt (hr : 0 < rateOut) (h : time < timeOfTick rateOut tick) :
    nextTime rateOut time ≤ timeOfTick rateOut tick := by
  have hnot : ¬tick * nanosPerSecond < time * rateOut := by
    intro hpast
    have hle : timeOfTick rateOut tick ≤ time :=
      (Nat.min_le_left _ _).trans (nearest_le_of_mul_le hr hpast)
    omega
  apply timeOfTick_mono
  apply (Nat.min_le_left _ _).trans
  apply Scale.least_le_of_mul_le Scale.nanosPerSecond_pos
  rw [Nat.mul_comm nanosPerSecond]
  omega

theorem nextTime_le (hr : 0 < rateOut) (time : Nat) :
    nextTime rateOut time ≤ time + nanosPerSecond ⌈/⌉ rateOut := by
  obtain ⟨-, htick⟩ := Scale.least_bounds time rateOut Scale.nanosPerSecond_pos
  have hperiod : nanosPerSecond ≤ rateOut * (nanosPerSecond ⌈/⌉ rateOut) :=
    le_smul_ceilDiv hr
  have hfar : Scale.least time rateOut nanosPerSecond * nanosPerSecond <
      (time + nanosPerSecond ⌈/⌉ rateOut) * rateOut := by
    rw [Nat.mul_comm _ nanosPerSecond, Nat.add_mul, Nat.mul_comm (nanosPerSecond ⌈/⌉ rateOut)]
    omega
  calc nextTime rateOut time
      ≤ timeOfTick rateOut (Scale.least time rateOut nanosPerSecond) :=
        timeOfTick_mono rateOut (Nat.min_le_left _ _)
    _ ≤ Scale.nearest (Scale.least time rateOut nanosPerSecond) nanosPerSecond rateOut :=
        Nat.min_le_left _ _
    _ ≤ time + nanosPerSecond ⌈/⌉ rateOut := nearest_le_of_mul_le hr hfar

theorem align_cases (rateIn rateOut : Nat) (direction : Direction) (time : Nat) :
    (align rateIn rateOut direction time = nearestTime rateOut time ∧
      (direction = .downsampling → time < nearestTime rateOut time + tolerance rateIn ∧
        nearestTime rateOut time < time + tolerance rateIn)) ∨
    (align rateIn rateOut direction time = nextTime rateOut time ∧ direction = .downsampling ∧
      (nearestTime rateOut time + tolerance rateIn ≤ time ∨
        time + tolerance rateIn ≤ nearestTime rateOut time)) := by
  simp only [align, ← nearestTime.eq_1, ← nextTime.eq_1, ← tolerance.eq_1]
  split_ifs with h
  · right
    obtain ⟨hdown, hmiss⟩ := h
    exact ⟨rfl, hdown, by omega⟩
  · left
    refine ⟨rfl, fun hdown => ?_⟩
    have hmiss : ¬tolerance rateIn ≤ time - nearestTime rateOut time +
        (nearestTime rateOut time - time) := fun hmiss => h ⟨hdown, hmiss⟩
    omega

theorem exists_tick_align (rateIn rateOut : Nat) (direction : Direction) (time : Nat) :
    ∃ tick ≤ Scale.largest, align rateIn rateOut direction time = timeOfTick rateOut tick := by
  rcases align_cases rateIn rateOut direction time with ⟨h, -⟩ | ⟨h, -⟩
  · exact ⟨_, Nat.min_le_right _ _, h⟩
  · exact ⟨_, Nat.min_le_right _ _, h⟩

theorem nearestTime_le_align (rateIn rateOut : Nat) (direction : Direction) (time : Nat) :
    nearestTime rateOut time ≤ align rateIn rateOut direction time := by
  rcases align_cases rateIn rateOut direction time with ⟨h, -⟩ | ⟨h, -⟩
  · exact h.ge
  · exact (nearestTime_le_nextTime rateOut time).trans h.ge

theorem align_le_nextTime (rateIn rateOut : Nat) (direction : Direction) (time : Nat) :
    align rateIn rateOut direction time ≤ nextTime rateOut time := by
  rcases align_cases rateIn rateOut direction time with ⟨h, -⟩ | ⟨h, -⟩
  · exact h.le.trans (nearestTime_le_nextTime rateOut time)
  · exact h.le

theorem nextTime_le_nearestTime (hr : 0 < rateOut) {a b : Nat} (hab : a ≤ b)
    (ha : nearestTime rateOut a + tolerance rateIn ≤ a ∨
      a + tolerance rateIn ≤ nearestTime rateOut a)
    (hb : b < nearestTime rateOut b + tolerance rateIn ∧
      nearestTime rateOut b < b + tolerance rateIn) :
    nextTime rateOut a ≤ nearestTime rateOut b := by
  have htick : Scale.round a rateOut nanosPerSecond ≤ Scale.round b rateOut nanosPerSecond :=
    Scale.round_mono _ _ hab
  rcases Nat.eq_or_lt_of_le htick with heq | hlt
  · -- Both are nearest to one tick, so the earlier time is ahead of it.
    have hsame : nearestTime rateOut a = nearestTime rateOut b :=
      congr_arg (timeOfTick rateOut) heq
    rw [← hsame] at hb ⊢
    exact nextTime_le_of_lt hr (show a < nearestTime rateOut a by omega)
  · have hnext := Scale.ceil_le_round_succ a rateOut Scale.nanosPerSecond_pos
    exact timeOfTick_mono rateOut (hnext.trans hlt)

theorem align_monotone (rateIn : Nat) (hr : 0 < rateOut) (direction : Direction) :
    Monotone (align rateIn rateOut direction) := by
  intro a b hab
  rcases align_cases rateIn rateOut direction a with ⟨ha, -⟩ | ⟨ha, hdown, hmiss⟩
  · rw [ha]
    exact (nearestTime_mono hab).trans (nearestTime_le_align _ _ _ b)
  · rcases align_cases rateIn rateOut direction b with ⟨hb, hkept⟩ | ⟨hb, -⟩
    · rw [ha, hb]
      exact nextTime_le_nearestTime hr hab hmiss (hkept hdown)
    · rw [ha, hb]
      exact nextTime_mono hab

theorem abs_nearestTime_sub_le (hr : 0 < rateOut) (hw : time ≤ Scale.largest)
    (hfit : Scale.nearest time rateOut nanosPerSecond ≤ Scale.largest) :
    2 * rateOut * |(nearestTime rateOut time : ℤ) - time| ≤ nanosPerSecond + rateOut := by
  obtain ⟨htick, htick'⟩ := Scale.nearest_bounds time rateOut Scale.nanosPerSecond_pos
  have hround : nearestTime rateOut time =
      min (Scale.nearest (Scale.nearest time rateOut nanosPerSecond) nanosPerSecond rateOut)
        Scale.largest := by
    rw [nearestTime, Scale.round_eq_nearest hfit]
    rfl
  generalize Scale.nearest time rateOut nanosPerSecond = k at htick htick' hround
  obtain ⟨hnear, hnear'⟩ := Scale.nearest_bounds k nanosPerSecond hr
  generalize Scale.nearest k nanosPerSecond rateOut = m at hnear hnear' hround
  -- A cut can only bring the time of the tick nearer.
  have hcut : |(nearestTime rateOut time : ℤ) - time| ≤ |(m : ℤ) - time| := by
    rcases Nat.le_total m Scale.largest with hm | hm
    · rw [hround, Nat.min_eq_left hm]
    · rw [hround, Nat.min_eq_right hm, abs_of_nonneg (by omega), abs_of_nonneg (by omega)]
      omega
  have hcomm : k * nanosPerSecond = nanosPerSecond * k := Nat.mul_comm _ _
  rw [hcomm] at hnear hnear'
  have hfar : 2 * rateOut * |(m : ℤ) - time| ≤ nanosPerSecond + rateOut := by
    have hpos : (0 : ℤ) ≤ 2 * rateOut := by positivity
    rw [← abs_of_nonneg hpos, ← abs_mul, abs_le, mul_sub]
    have hm : (2 * rateOut * m : ℤ) = (2 * (rateOut * m) : ℕ) := by push_cast; ring
    have ht : (2 * rateOut * time : ℤ) = (2 * (time * rateOut) : ℕ) := by push_cast; ring
    rw [hm, ht]
    omega
  calc 2 * rateOut * |(nearestTime rateOut time : ℤ) - time|
      ≤ 2 * rateOut * |(m : ℤ) - time| := by gcongr
    _ ≤ nanosPerSecond + rateOut := hfar

theorem tolerance_le_period {rateIn rateOut : Nat} (hr : 0 < rateOut) (hle : rateOut ≤ rateIn) :
    tolerance rateIn ≤ nanosPerSecond ⌈/⌉ rateOut := by
  have hperiod : nanosPerSecond ≤ rateOut * (nanosPerSecond ⌈/⌉ rateOut) := le_smul_ceilDiv hr
  have hhalf := tolerance_mul_le rateIn
  have hless := Nat.mul_le_mul_left (tolerance rateIn) hle
  have hmul : rateOut * tolerance rateIn ≤ rateOut * (nanosPerSecond ⌈/⌉ rateOut) := by
    rw [Nat.mul_comm]
    omega
  exact Nat.le_of_mul_le_mul_left hmul hr

theorem align_down_near (hr : 0 < rateOut) (hle : rateOut ≤ rateIn) (hw : time ≤ Scale.largest)
    (hfit : Scale.least time rateOut nanosPerSecond ≤ Scale.largest) :
    (time ≤ align rateIn rateOut .downsampling time ∧
      align rateIn rateOut .downsampling time ≤ time + nanosPerSecond ⌈/⌉ rateOut) ∨
    (align rateIn rateOut .downsampling time < time ∧
      time - align rateIn rateOut .downsampling time < tolerance rateIn) := by
  rcases align_cases rateIn rateOut .downsampling time with ⟨h, hmiss⟩ | ⟨h, -⟩
  · obtain ⟨hback, hforth⟩ := hmiss rfl
    have htol := tolerance_le_period hr hle
    rw [h]
    omega
  · left
    rw [h]
    refine ⟨?_, nextTime_le hr time⟩
    have htick := (Scale.least_bounds time rateOut Scale.nanosPerSecond_pos).1
    rw [nextTime, Scale.ceil_eq_least hfit]
    apply Nat.le_min.mpr ⟨?_, hw⟩
    apply le_nearest_of_le_mul hr
    rw [Nat.mul_comm _ nanosPerSecond]
    exact htick

theorem nearestTime_timeOfTick (hr : 0 < rateOut) (hw : tick ≤ Scale.largest)
    (hlt : timeOfTick rateOut tick < Scale.largest) :
    nearestTime rateOut (timeOfTick rateOut tick) = timeOfTick rateOut tick := by
  have huncut : Scale.nearest tick nanosPerSecond rateOut = timeOfTick rateOut tick :=
    (Scale.round_eq_nearest ((min_lt_iff.mp hlt).resolve_right (Nat.lt_irrefl _)).le).symm
  have hback := timeOfTick_round hr huncut
  rwa [Nat.min_eq_left hw] at hback

theorem tolerance_eq_zero_iff {rateIn : Nat} (hpos : 0 < rateIn) :
    tolerance rateIn = 0 ↔ 500000000 < rateIn := Nat.div_eq_zero_iff_lt hpos

theorem align_of_nearestTime_eq (hpos : 0 < rateIn) (h : nearestTime rateOut time = time) :
    time ≤ align rateIn rateOut direction time ∧
      (align rateIn rateOut direction time = time ↔
        (direction = .downsampling → rateIn ≤ 500000000 ∨ nextTime rateOut time = time)) := by
  have hcut := tolerance_eq_zero_iff hpos
  refine ⟨h.ge.trans (nearestTime_le_align rateIn rateOut direction time), ?_⟩
  rcases align_cases rateIn rateOut direction time with ⟨halign, hmiss⟩ | ⟨halign, hdown, hmiss⟩
  · rw [h] at halign hmiss
    refine ⟨fun _ hdown => .inl ?_, fun _ => halign⟩
    have hnear := hmiss hdown
    omega
  · rw [h] at hmiss
    rw [halign]
    constructor
    · intro hnext _
      exact .inr hnext
    · intro hstays
      exact (hstays hdown).resolve_left (by omega)

/-- Alignment is idempotent but for high rates. It does not move the time of a tick, nor a time
that it has aligned, unless the input period of a downsampling is shorter than two nanoseconds.
Then such a time is moved forward, if the first tick that is not before it has a later time. -/
theorem align_eq_self_iff (s : Setup) :
    (∀ tick ≤ Scale.largest, ∀ time, time = timeOfTick s.rateOut tick → time < 2 ^ 63 →
      time ≤ align s.rateIn s.rateOut s.conversion.direction time ∧
      (align s.rateIn s.rateOut s.conversion.direction time = time ↔
        (s.conversion.direction = .downsampling →
          s.rateIn ≤ 500000000 ∨ nextTime s.rateOut time = time))) ∧
    ∀ stamp < 2 ^ 62, ∀ time, time = align s.rateIn s.rateOut s.conversion.direction stamp →
      time ≤ align s.rateIn s.rateOut s.conversion.direction time ∧
      (align s.rateIn s.rateOut s.conversion.direction time = time ↔
        (s.conversion.direction = .downsampling →
          s.rateIn ≤ 500000000 ∨ nextTime s.rateOut time = time)) := by
  have hkept {tick : Nat} (hw : tick ≤ Scale.largest) (hlt : timeOfTick s.rateOut tick < 2 ^ 63) :=
    nearestTime_timeOfTick s.rateOut_pos hw (hlt.trans (by decide))
  constructor
  · rintro tick hw time rfl hlt
    exact align_of_nearestTime_eq s.rateIn_pos (hkept hw hlt)
  · intro stamp hlt time htime
    obtain ⟨tick, hw, htick⟩ :=
      exists_tick_align s.rateIn s.rateOut s.conversion.direction stamp
    have hperiod : nanosPerSecond ⌈/⌉ s.rateOut ≤ nanosPerSecond := by
      apply (ceilDiv_le_iff_le_smul s.rateOut_pos).mpr
      exact Nat.le_mul_of_pos_left _ s.rateOut_pos
    have hfar := (align_le_nextTime s.rateIn s.rateOut s.conversion.direction stamp).trans
      (nextTime_le s.rateOut_pos stamp)
    rw [htime, htick] at *
    have hsecond : nanosPerSecond < 2 ^ 62 := by decide
    exact align_of_nearestTime_eq s.rateIn_pos (hkept hw (by omega))

def brisk : Setup where
  config :=
    { rateIn := ⟨800000000, by decide, by decide⟩, rateOut := ⟨400000000, by decide, by decide⟩,
      type := .f64 }
  conversion := .down 2 .pick false

theorem align_eq_self_iff_at_second_tick :
    Setup.ofConfig brisk.config = .ok brisk ∧ 2 ≤ Scale.largest ∧
      5 = timeOfTick brisk.rateOut 2 ∧ 5 < 2 ^ 63 ∧
      align brisk.rateIn brisk.rateOut brisk.conversion.direction 5 = 5 := by
  have hs : Setup.ofConfig brisk.config = .ok brisk := by decide
  have hstays := ((align_eq_self_iff brisk).1 2 (by decide) 5 (by decide) (by decide)).2
  exact ⟨hs, by decide, by decide, by decide, hstays.mpr fun _ => .inr (by decide)⟩

/-- The first tick is at 2.5 ns and its time is 3 ns, which is moved on to the second tick, as is
the time of 1 ns when it is aligned twice. -/
theorem align_moves_first_tick :
    Setup.ofConfig brisk.config = .ok brisk ∧ timeOfTick brisk.rateOut 1 = 3 ∧ 3 < 2 ^ 63 ∧
      align brisk.rateIn brisk.rateOut brisk.conversion.direction 3 = 5 ∧
      align brisk.rateIn brisk.rateOut brisk.conversion.direction 1 = 3 ∧
      align brisk.rateIn brisk.rateOut brisk.conversion.direction
          (align brisk.rateIn brisk.rateOut brisk.conversion.direction 1) ≠
        align brisk.rateIn brisk.rateOut brisk.conversion.direction 1 := by
  decide

/-- Alignment keeps the order of times and moves none of them far. Going down it moves a time
forward by an output period at most, rounded up, or back by less than half an input period,
rounded down. Otherwise it moves a time by half an output period at most, and half a unit. -/
theorem align_monotone_and_near {c : Config} {s : Setup} (hs : Setup.ofConfig c = .ok s) :
    Monotone (align s.rateIn s.rateOut s.conversion.direction) ∧
    ∀ time ≤ Scale.largest, ∀ start,
      start = align s.rateIn s.rateOut s.conversion.direction time →
      (s.conversion.direction = .downsampling →
        Scale.least time s.rateOut nanosPerSecond ≤ Scale.largest →
          (time ≤ start ∧ start ≤ time + nanosPerSecond ⌈/⌉ s.rateOut) ∨
            (start < time ∧ time - start < nanosPerSecond / 2 / s.rateIn)) ∧
      (s.conversion.direction ≠ .downsampling →
        Scale.nearest time s.rateOut nanosPerSecond ≤ Scale.largest →
          2 * s.rateOut * |(start : ℤ) - time| ≤ nanosPerSecond + s.rateOut) := by
  refine ⟨align_monotone s.rateIn s.rateOut_pos _, ?_⟩
  rintro time hw start rfl
  constructor
  · intro hdown hfit
    have hle : s.rateOut ≤ s.rateIn := by
      have hr := (Setup.ofConfig_eq_ok_iff.mp hs).2.relates
      cases hc : s.conversion with
      | copy | up =>
        rw [hc] at hdown
        cases hdown
      | down factor d z =>
        rw [hc] at hr
        rw [hr.2]
        exact Nat.le_mul_of_pos_left _ (Nat.zero_lt_two.trans_le hr.1)
    rw [hdown]
    exact align_down_near s.rateOut_pos hle hw hfit
  · intro hnot hfit
    rw [align_of_ne hnot]
    exact abs_nearestTime_sub_le s.rateOut_pos hw hfit

theorem align_monotone_and_near_between_ticks :
    Setup.ofConfig brisk.config = .ok brisk ∧ 4 ≤ Scale.largest ∧
      Scale.least 4 brisk.rateOut nanosPerSecond ≤ Scale.largest ∧
      5 = align brisk.rateIn brisk.rateOut brisk.conversion.direction 4 ∧
      ((4 ≤ 5 ∧ 5 ≤ 4 + nanosPerSecond ⌈/⌉ brisk.rateOut) ∨
        (5 < 4 ∧ 4 - 5 < nanosPerSecond / 2 / brisk.rateIn)) := by
  have hs : Setup.ofConfig brisk.config = .ok brisk := by decide
  have hnear := (align_monotone_and_near hs).2 4 (by decide) 5 (by decide)
  exact ⟨hs, by decide, by decide, by decide, hnear.1 rfl (by decide)⟩

end Grid
end RateConversion
