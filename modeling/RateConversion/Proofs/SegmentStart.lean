import RateConversion.Proofs.Ratio
import RateConversion.Proofs.Rescale

/-! The tick that a downsampling segment starts on and the time that it is given. The
samples passed over lead to the first tick that the rounded input position has not
passed. The time is that tick's time if it misses it by less than half an input period,
counted in whole nanoseconds; at the later times that still round onto the tick, the
segment is given the time of the next one. A segment whose time is that of its offset
begins on the first tick that is not before it, in either direction. -/

namespace RateConversion.Grid

/-- The output tick onto which the leading samples of a segment lead. -/
def startTick (rateIn factor : Nat) (h : Header) : Nat :=
  (position rateIn h + leading rateIn factor h) / factor

theorem dvd_position_add_leading {factor : Nat} (hf : 0 < factor) (rateIn : Nat) (h : Header) :
    factor ∣ position rateIn h + leading rateIn factor h := by
  simp only [leading]
  have hl := Nat.mod_lt (position rateIn h) hf
  rw [Nat.dvd_iff_mod_eq_zero, Nat.add_mod_mod, ← Nat.mod_add_mod]
  rw [Nat.add_sub_cancel' hl.le, Nat.mod_self]

theorem mul_startTick {factor : Nat} (hf : 0 < factor) (rateIn : Nat) (h : Header) :
    factor * startTick rateIn factor h = position rateIn h + leading rateIn factor h :=
  Nat.mul_div_cancel' (dvd_position_add_leading hf rateIn h)

theorem leading_lt {factor : Nat} (hf : 0 < factor) (rateIn : Nat) (h : Header) :
    leading rateIn factor h < factor := Nat.mod_lt _ hf

theorem least_eq_startTick {factor rateOut : Nat} (hf : 0 < factor) (hr : 0 < rateOut) {h : Header}
    (hp : position (factor * rateOut) h = h.offset) :
    Scale.least h.offset rateOut (factor * rateOut) = startTick (factor * rateOut) factor h := by
  have htick := mul_startTick hf (factor * rateOut) h
  have hlt := leading_lt hf (factor * rateOut) h
  rw [hp] at htick
  generalize leading (factor * rateOut) factor h = lead at htick hlt
  generalize startTick (factor * rateOut) factor h = tick at htick ⊢
  have hin : factor * rateOut * tick = h.offset * rateOut + lead * rateOut := by
    rw [Nat.mul_right_comm, htick, Nat.add_mul]
  have hover := Nat.mul_lt_mul_of_pos_right hlt hr
  apply Scale.least_eq (Nat.mul_pos hf hr)
  · omega
  · omega

/-- Half an input period in whole nanoseconds. -/
def tolerance (rateIn : Nat) : Nat := nanosPerSecond / 2 / rateIn

theorem tolerance_mul_le (rateIn : Nat) : 2 * (tolerance rateIn * rateIn) ≤ nanosPerSecond := by
  have h := Nat.div_mul_le_self (nanosPerSecond / 2) rateIn
  simp only [tolerance]
  omega

theorem tolerance_pos {rateIn : Nat} (hpos : 0 < rateIn) (h : 2 * rateIn ≤ nanosPerSecond) :
    0 < tolerance rateIn := Nat.div_pos (by omega) hpos

/-- The position of a time `time` on an input grid of rate `factor * rateOut` is `place`,
and `tick` is the first tick that is not before it. -/
structure Reached (factor rateOut time place tick : Nat) : Prop where
  factor_pos : 0 < factor
  low : 2 * (nanosPerSecond * place) ≤ 2 * (time * (factor * rateOut)) + nanosPerSecond
  high : 2 * (time * (factor * rateOut)) + nanosPerSecond <
    2 * (nanosPerSecond * place) + 2 * nanosPerSecond
  tick_low : place ≤ factor * tick
  tick_high : factor * tick < place + factor

namespace Reached

variable {factor rateOut time place tick : Nat}

theorem past (r : Reached factor rateOut time place tick) {a : Nat}
    (ha : time * rateOut = tick * nanosPerSecond + a) : factor * (2 * a) < nanosPerSecond := by
  have h1 := r.high
  have h2 := Nat.mul_le_mul_left nanosPerSecond r.tick_low
  have h3 : time * (factor * rateOut) = factor * a + nanosPerSecond * (factor * tick) := by
    calc time * (factor * rateOut) = factor * (time * rateOut) := by ring
      _ = factor * a + nanosPerSecond * (factor * tick) := by rw [ha]; ring
  have h4 : factor * (2 * a) = 2 * (factor * a) := by ring
  omega

theorem ahead (r : Reached factor rateOut time place (tick + 1)) :
    factor * (2 * (tick * nanosPerSecond)) + nanosPerSecond ≤ factor * (2 * (time * rateOut)) := by
  have h1 := r.low
  have h2 := r.tick_high
  have h3 : factor * tick + 1 ≤ place := by
    rw [Nat.mul_succ] at h2
    omega
  have h4 := Nat.mul_le_mul_left nanosPerSecond h3
  have h5 : time * (factor * rateOut) = factor * (time * rateOut) := by ring
  have h6 : nanosPerSecond * (factor * tick + 1) =
      factor * (tick * nanosPerSecond) + nanosPerSecond := by ring
  have h7 : factor * (2 * (tick * nanosPerSecond)) = 2 * (factor * (tick * nanosPerSecond)) := by
    ring
  have h8 : factor * (2 * (time * rateOut)) = 2 * (factor * (time * rateOut)) := by ring
  omega

theorem nearest_of_past (r : Reached factor rateOut time place tick) (hf : 2 ≤ factor)
    (h : tick * nanosPerSecond < time * rateOut) :
    Scale.nearest time rateOut nanosPerSecond = tick ∧
      Scale.least time rateOut nanosPerSecond = tick + 1 := by
  obtain ⟨a, ha⟩ := Nat.exists_eq_add_of_lt h
  have hp := r.past (a := a + 1) (by omega)
  have hm := Nat.mul_le_mul_right (2 * (a + 1)) hf
  have hc : nanosPerSecond * tick = tick * nanosPerSecond := Nat.mul_comm _ _
  constructor
  · apply Scale.nearest_eq Scale.nanosPerSecond_pos <;> omega
  · apply Scale.least_eq Scale.nanosPerSecond_pos <;> rw [Nat.mul_succ] <;> omega

theorem least_of_not_past (r : Reached factor rateOut time place tick)
    (h : time * rateOut ≤ tick * nanosPerSecond) :
    Scale.least time rateOut nanosPerSecond = tick := by
  have hc : nanosPerSecond * tick = tick * nanosPerSecond := Nat.mul_comm _ _
  apply Scale.least_eq Scale.nanosPerSecond_pos
  · omega
  · cases tick with
    | zero =>
      have := Scale.nanosPerSecond_pos
      omega
    | succ k =>
      have hs := r.ahead
      have hlt : factor * (2 * (k * nanosPerSecond)) < factor * (2 * (time * rateOut)) := by
        have := Scale.nanosPerSecond_pos
        omega
      have := Nat.lt_of_mul_lt_mul_left hlt
      rw [Nat.succ_mul] at hc
      omega

theorem tolerance_le_of_nearest (r : Reached factor rateOut time place (tick + 1))
    (hr : 0 < rateOut) :
    Scale.nearest tick nanosPerSecond rateOut + tolerance (factor * rateOut) ≤ time := by
  obtain ⟨h1, -⟩ := Scale.nearest_bounds tick nanosPerSecond hr
  have h2 := r.ahead
  have h3 := tolerance_mul_le (factor * rateOut)
  generalize tolerance (factor * rateOut) = t at h3 ⊢
  generalize Scale.nearest tick nanosPerSecond rateOut = n at h1 ⊢
  have h4 : factor * (2 * (tick * nanosPerSecond) + 2 * (t * rateOut)) ≤
      factor * (2 * (time * rateOut)) := by
    have : factor * (2 * (tick * nanosPerSecond) + 2 * (t * rateOut)) =
        factor * (2 * (tick * nanosPerSecond)) + 2 * (t * (factor * rateOut)) := by ring
    omega
  have h5 := Nat.le_of_mul_le_mul_left h4 r.factor_pos
  have h6 : rateOut * (2 * (n + t)) ≤ rateOut * (2 * time + 1) := by
    have e1 : rateOut * (2 * (n + t)) = 2 * (rateOut * n) + 2 * (t * rateOut) := by ring
    have e2 : rateOut * (2 * time + 1) = 2 * (time * rateOut) + rateOut := by ring
    omega
  have h7 := Nat.le_of_mul_le_mul_left h6 hr
  omega

end Reached

theorem nearest_le_of_mul_le {tick rateOut time : Nat} (hr : 0 < rateOut)
    (h : tick * nanosPerSecond < time * rateOut) :
    Scale.nearest tick nanosPerSecond rateOut ≤ time := by
  obtain ⟨hnear, -⟩ := Scale.nearest_bounds tick nanosPerSecond hr
  rw [Nat.mul_comm time] at h
  apply Scale.le_of_mul_lt_mul_add rateOut
  omega

theorem le_nearest_of_le_mul {tick rateOut time : Nat} (hr : 0 < rateOut)
    (h : time * rateOut ≤ tick * nanosPerSecond) :
    time ≤ Scale.nearest tick nanosPerSecond rateOut := by
  obtain ⟨-, hnear⟩ := Scale.nearest_bounds tick nanosPerSecond hr
  rw [Nat.mul_comm time] at h
  apply Scale.le_of_mul_lt_mul_add rateOut
  omega

theorem nearest_lt_nearest_succ (tick : Nat) {rateOut : Nat} (hr : 0 < rateOut)
    (h : 2 * rateOut ≤ nanosPerSecond) :
    Scale.nearest tick nanosPerSecond rateOut <
      Scale.nearest (tick + 1) nanosPerSecond rateOut := by
  obtain ⟨h1, -⟩ := Scale.nearest_bounds tick nanosPerSecond hr
  obtain ⟨-, h2⟩ := Scale.nearest_bounds (tick + 1) nanosPerSecond hr
  apply Nat.lt_of_mul_lt_mul_left (a := rateOut)
  rw [Nat.add_one_mul tick nanosPerSecond] at h2
  omega

theorem two_mul_mul_le (time : Nat) {rate : Nat} (h : 2 * rate ≤ nanosPerSecond) :
    2 * (time * rate) ≤ nanosPerSecond * time :=
  calc 2 * (time * rate) = time * (2 * rate) := by ring
    _ ≤ time * nanosPerSecond := Nat.mul_le_mul_left _ h
    _ = nanosPerSecond * time := Nat.mul_comm _ _

theorem least_le_largest {time rate : Nat} (hw : time ≤ Scale.largest)
    (h : 2 * rate ≤ nanosPerSecond) : Scale.least time rate nanosPerSecond ≤ Scale.largest := by
  obtain ⟨-, h1⟩ := Scale.least_bounds time rate Scale.nanosPerSecond_pos
  have h2 : nanosPerSecond * (2 * Scale.least time rate nanosPerSecond) <
      nanosPerSecond * (time + 2) := by
    have e1 : nanosPerSecond * (2 * Scale.least time rate nanosPerSecond) =
        2 * (nanosPerSecond * Scale.least time rate nanosPerSecond) := by ring
    have e2 := two_mul_mul_le time h
    rw [Nat.mul_add]
    omega
  have := Nat.lt_of_mul_lt_mul_left h2
  simp only [Scale.largest] at *
  omega

theorem nearest_le_largest {time rate : Nat} (hw : time ≤ Scale.largest)
    (h : 2 * rate ≤ nanosPerSecond) : Scale.nearest time rate nanosPerSecond ≤ Scale.largest :=
  (Scale.nearest_le_least time rate Scale.nanosPerSecond_pos).trans (least_le_largest hw h)

theorem reached_startTick {factor rateOut time : Nat} {h : Header} (hf : 0 < factor)
    (ht : h.timestamp? = some time) (hw : time ≤ Scale.largest)
    (hr : 2 * (factor * rateOut) ≤ nanosPerSecond) :
    Reached factor rateOut time (position (factor * rateOut) h)
      (startTick (factor * rateOut) factor h) := by
  have hp : position (factor * rateOut) h =
      Scale.nearest time (factor * rateOut) nanosPerSecond := by
    simp only [position, ht]
    exact Scale.round_eq_nearest (nearest_le_largest hw hr)
  obtain ⟨h1, h2⟩ := Scale.nearest_bounds time (factor * rateOut) Scale.nanosPerSecond_pos
  have hm := mul_startTick hf (factor * rateOut) h
  have hl := leading_lt hf (factor * rateOut) h
  exact ⟨hf, hp ▸ h1, hp ▸ h2, by omega, by omega⟩

variable {factor rateOut time place tick : Nat}

theorem align_of_past (r : Reached factor rateOut time place tick) (hf : 2 ≤ factor)
    (hr : 0 < rateOut) (hrate : 2 * (factor * rateOut) ≤ nanosPerSecond)
    (hw : time ≤ Scale.largest) (hpast : tick * nanosPerSecond < time * rateOut) :
    align (factor * rateOut) rateOut .downsampling time =
      if timeOfTick rateOut tick + tolerance (factor * rateOut) ≤ time then
        timeOfTick rateOut (tick + 1)
      else timeOfTick rateOut tick := by
  obtain ⟨hn, hl⟩ := r.nearest_of_past hf hpast
  have hhalf : 2 * rateOut ≤ nanosPerSecond := by
    have := Nat.le_mul_of_pos_left rateOut r.factor_pos
    omega
  have hround := Scale.round_eq_nearest (nearest_le_largest hw hhalf)
  have hceil := Scale.ceil_eq_least (least_le_largest hw hhalf)
  have hle : timeOfTick rateOut tick ≤ time :=
    (Nat.min_le_left _ _).trans (nearest_le_of_mul_le hr hpast)
  simp only [align, hround, hceil, hn, hl, true_and, ← tolerance.eq_1]
  have hmiss : tolerance (factor * rateOut) ≤
      time - timeOfTick rateOut tick + (timeOfTick rateOut tick - time) ↔
      timeOfTick rateOut tick + tolerance (factor * rateOut) ≤ time := by omega
  simp only [hmiss]

theorem align_of_not_past (r : Reached factor rateOut time place tick) (hr : 0 < rateOut)
    (hrate : 2 * (factor * rateOut) ≤ nanosPerSecond) (hw : time ≤ Scale.largest)
    (h : time * rateOut ≤ tick * nanosPerSecond) :
    align (factor * rateOut) rateOut .downsampling time = timeOfTick rateOut tick := by
  have hl := r.least_of_not_past h
  have hhalf : 2 * rateOut ≤ nanosPerSecond := by
    have := Nat.le_mul_of_pos_left rateOut r.factor_pos
    omega
  have hround := Scale.round_eq_nearest (nearest_le_largest hw hhalf)
  have hceil := Scale.ceil_eq_least (least_le_largest hw hhalf)
  have hle := Scale.nearest_le_least time rateOut Scale.nanosPerSecond_pos
  have hge := Scale.least_le_nearest_succ time rateOut Scale.nanosPerSecond_pos
  simp only [align, hround, hceil, hl, true_and, ← tolerance.eq_1]
  rcases Nat.lt_or_ge (Scale.nearest time rateOut nanosPerSecond) tick with hlt | hge'
  · -- The nearest tick is the one before, but the time misses it by the tolerance.
    obtain ⟨before, hb⟩ : ∃ before, tick = before + 1 := ⟨tick - 1, by omega⟩
    subst hb
    have hn : Scale.nearest time rateOut nanosPerSecond = before := by omega
    have htol := r.tolerance_le_of_nearest hr
    have hcut : timeOfTick rateOut before ≤ Scale.nearest before nanosPerSecond rateOut :=
      Nat.min_le_left _ _
    rw [hn, if_pos (by omega)]
  · have hn : Scale.nearest time rateOut nanosPerSecond = tick := by omega
    rw [hn, ite_self]

/-- A downsampling segment is given the time of the tick that its leading samples lead to
if and only if its timestamp is before that time by any amount or behind it by less than
`tolerance`; further behind it is given the time of the next tick. -/
theorem align_eq_timeOfTick_iff {c : Config} {s : Setup} {factor : Nat} {d : Decimation}
    {z : Bool} {h : Header} {time : Nat} (hs : Setup.ofConfig c = .ok s)
    (hd : s.conversion = .down factor d z) (hrate : s.rateIn ≤ 500000000)
    (ht : h.timestamp? = some time) (hw : time ≤ Scale.largest)
    (hfit : Scale.nearest (Scale.ceil time s.rateOut nanosPerSecond) nanosPerSecond s.rateOut ≤
      Scale.largest) :
    let tick := (position s.rateIn h + s.leading h) / factor
    factor ∣ position s.rateIn h + s.leading h ∧
    (align s.rateIn s.rateOut s.conversion.direction time = timeOfTick s.rateOut tick ↔
      time < timeOfTick s.rateOut tick + nanosPerSecond / 2 / s.rateIn) ∧
    (timeOfTick s.rateOut tick + nanosPerSecond / 2 / s.rateIn ≤ time →
      align s.rateIn s.rateOut s.conversion.direction time = timeOfTick s.rateOut (tick + 1)) := by
  have hrel := (Setup.ofConfig_eq_ok_iff.mp hs).2.relates
  have hout := s.rateOut_pos
  have hlead : s.leading h = leading s.rateIn factor h := by simp only [Setup.leading, hd]
  rw [hd] at hrel
  obtain ⟨hf, hmul⟩ := hrel
  have hpos : 0 < factor := by omega
  simp only [hd, hlead, Conversion.direction]
  rw [hmul] at hrate ⊢
  have hr : 2 * (factor * s.rateOut) ≤ nanosPerSecond := by
    simp only [nanosPerSecond]
    omega
  have hhalf : 2 * s.rateOut ≤ nanosPerSecond := by
    have := Nat.le_mul_of_pos_left s.rateOut hpos
    omega
  have r := reached_startTick hpos ht hw hr
  refine ⟨dvd_position_add_leading hpos _ h, ?_⟩
  change (_ = timeOfTick s.rateOut (startTick _ factor h) ↔
      _ < timeOfTick s.rateOut (startTick _ factor h) + tolerance _) ∧
    (timeOfTick s.rateOut (startTick _ factor h) + tolerance _ ≤ _ →
      _ = timeOfTick s.rateOut (startTick _ factor h + 1))
  generalize startTick (factor * s.rateOut) factor h = tick at r ⊢
  rcases Nat.lt_or_ge (tick * nanosPerSecond) (time * s.rateOut) with hpast | hnot
  · have hl := (r.nearest_of_past hf hpast).2
    rw [Scale.ceil_eq_least (least_le_largest hw hhalf), hl] at hfit
    have hlt : timeOfTick s.rateOut tick < timeOfTick s.rateOut (tick + 1) := by
      have hs := nearest_lt_nearest_succ tick hout hhalf
      simp only [timeOfTick]
      rwa [Scale.round_eq_nearest (hs.le.trans hfit), Scale.round_eq_nearest hfit]
    rw [align_of_past r hf hout hr hw hpast]
    split_ifs with hc
    · exact ⟨⟨fun he => absurd he hlt.ne', fun h => absurd h hc.not_gt⟩, fun _ => rfl⟩
    · exact ⟨⟨fun _ => Nat.lt_of_not_le hc, fun _ => rfl⟩, fun h => absurd h hc⟩
  · have hle : time ≤ timeOfTick s.rateOut tick :=
      Nat.le_min.mpr ⟨le_nearest_of_le_mul hout hnot, hw⟩
    have htol := tolerance_pos (Nat.mul_pos hpos hout) hr
    rw [align_of_not_past r hout hr hw hnot]
    exact ⟨⟨fun _ => by omega, fun _ => rfl⟩, fun h => by omega⟩

theorem align_eq_timeOfTick_iff_at_half_period :
    let s : Setup :=
      ⟨{ rateIn := ⟨16384, by decide, by decide⟩, rateOut := ⟨4096, by decide, by decide⟩,
         type := .f64 }, .down 4 .pick false⟩
    let h : Header := { len := 8, offset := 0, timestamp? := some 30517 }
    (Setup.ofConfig s.config = .ok s ∧ s.rateIn ≤ 500000000 ∧ 30517 ≤ Scale.largest ∧
      Scale.nearest (Scale.ceil 30517 s.rateOut nanosPerSecond) nanosPerSecond s.rateOut ≤
        Scale.largest) ∧
    let tick := (position s.rateIn h + s.leading h) / 4
    4 ∣ position s.rateIn h + s.leading h ∧
    (align s.rateIn s.rateOut s.conversion.direction 30517 = timeOfTick s.rateOut tick ↔
      30517 < timeOfTick s.rateOut tick + nanosPerSecond / 2 / s.rateIn) ∧
    (timeOfTick s.rateOut tick + nanosPerSecond / 2 / s.rateIn ≤ 30517 →
      align s.rateIn s.rateOut s.conversion.direction 30517 = timeOfTick s.rateOut (tick + 1)) := by
  intro s h
  refine ⟨by decide, ?_⟩
  exact align_eq_timeOfTick_iff (c := s.config) (s := s) (h := h) (by decide) rfl (by decide) rfl
    (by decide) (by decide)

/-- A segment at 30517 ns, less than half of an input period of 61035.15625 ns after its
first tick, passes over no sample and is given the time of the tick after. -/
theorem align_skips_startTick :
    let s : Setup :=
      ⟨{ rateIn := ⟨16384, by decide, by decide⟩, rateOut := ⟨4096, by decide, by decide⟩,
         type := .f64 }, .down 4 .pick false⟩
    let h : Header := { len := 8, offset := 0, timestamp? := some 30517 }
    Setup.ofConfig s.config = .ok s ∧ (position s.rateIn h + s.leading h) / 4 = 0 ∧
      align s.rateIn s.rateOut s.conversion.direction 30517 = timeOfTick s.rateOut 1 ∧
      align s.rateIn s.rateOut s.conversion.direction 30517 ≠ timeOfTick s.rateOut 0 := by
  decide

end RateConversion.Grid

namespace RateConversion

def Conversion.Begins (a leading first : Nat) : Conversion → Prop
  | .copy => first = a
  | .up factor _ => first = a * factor
  | .down factor _ _ => first * factor = a + leading

namespace Setup

variable {s : Setup} {h : Header}

theorem Coherent.least_down (hs : s.Coherent) {factor : Nat} {d : Decimation} {z : Bool}
    (hc : s.conversion = .down factor d z) (hp : Grid.position s.rateIn h = h.offset) :
    Scale.least h.offset s.rateOut s.rateIn = Grid.startTick s.rateIn factor h := by
  have hr := hs.relates
  rw [hc] at hr
  obtain ⟨hf, hrate⟩ := hr
  rw [hrate] at hp ⊢
  exact Grid.least_eq_startTick (by omega) s.rateOut_pos hp

theorem Coherent.begins_least (hs : s.Coherent) (hp : Grid.position s.rateIn h = h.offset) :
    s.conversion.Begins h.offset (s.leading h) (Scale.least h.offset s.rateOut s.rateIn) := by
  have hr := hs.relates
  cases hc : s.conversion with
  | copy =>
    rw [hc] at hr
    have hrate : s.rateOut = s.rateIn := hr
    exact Scale.least_of_mul_eq s.rateIn_pos (by rw [hrate, Nat.mul_comm])
  | up factor i =>
    rw [hc] at hr
    apply Scale.least_of_mul_eq s.rateIn_pos
    rw [hr.2]
    ring
  | down factor d z =>
    rw [hc] at hr
    have hpos : 0 < factor := Nat.lt_of_lt_of_le Nat.zero_lt_two hr.1
    have hlead : s.leading h = Grid.leading s.rateIn factor h := by simp only [leading, hc]
    have htick := Grid.mul_startTick hpos s.rateIn h
    rw [hp] at htick
    simp only [Conversion.Begins]
    rw [hs.least_down hc hp, hlead, Nat.mul_comm, htick]

end Setup

end RateConversion
