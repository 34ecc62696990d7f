import Mathlib.Algebra.Order.Field.Basic
import Mathlib.Algebra.Order.Field.Rat
import Mathlib.Algebra.Order.Group.MinMax
import RateConversion.Proofs.Bookkeeping

/-! A stream whose times are those of its offsets stays on the output grid. Its segments
start at the time of the tick that their samples start on, and the time of a later stamp
is two rounded times away from that of its offset, however long the segment runs. -/

namespace RateConversion

namespace Scale

theorem abs_nearest_sub_le (value num : Nat) {denom : Nat} (hd : 0 < denom) :
    |(nearest value num denom : ℚ) - value * num / denom| ≤ 1 / 2 := by
  obtain ⟨h1, h2⟩ := nearest_bounds value num hd
  have hpos : (0 : ℚ) < denom := by exact_mod_cast hd
  have hlow : 2 * (denom * nearest value num denom : ℚ) ≤ 2 * (value * num) + denom := by
    exact_mod_cast h1
  have hhigh : 2 * (value * num : ℚ) + denom <
      2 * (denom * nearest value num denom) + 2 * denom := by exact_mod_cast h2
  have hexact : (value * num / denom : ℚ) * denom = value * num := div_mul_cancel₀ _ hpos.ne'
  generalize (value * num / denom : ℚ) = x at hexact ⊢
  rw [← hexact] at hlow hhigh
  rw [abs_le]
  constructor
  · nlinarith
  · nlinarith

theorem abs_round_sub_le (value num : Nat) {denom : Nat} (hd : 0 < denom) :
    |(round value num denom : ℚ) - min (value * num / denom : ℚ) largest| ≤ 1 / 2 := by
  have hcast : (round value num denom : ℚ) = min (nearest value num denom : ℚ) largest :=
    Nat.cast_min _ _
  rw [hcast]
  apply (abs_min_sub_min_le_max _ _ _ _).trans
  rw [sub_self, abs_zero]
  exact max_le (abs_nearest_sub_le value num hd) (by norm_num)

theorem ceil_eq_ceilDiv (value num : Nat) {denom : Nat} (hd : 0 < denom) :
    ceil value num denom = min ((value * num) ⌈/⌉ denom) largest := by
  rw [ceil, Nat.ceilDiv_eq_add_pred_div, Nat.add_sub_assoc hd]

end Scale

theorem abs_add_sub_min_le {x y s t top : ℚ} (hx : 0 ≤ x) (hy : 0 ≤ y) (h0 : 0 ≤ top)
    (htop : s + t ≤ top) (hs : |s - min x top| ≤ 1 / 2) (ht : |t - min y top| ≤ 1 / 2) :
    |s + t - min (x + y) top| ≤ 1 := by
  rw [abs_le] at hs ht ⊢
  constructor
  · have hcut : min (x + y) top ≤ min x top + min y top := by
      rcases le_total x top with h | h
      · rcases le_total y top with h' | h'
        · rw [min_eq_left h, min_eq_left h']
          exact min_le_left _ _
        · rw [min_eq_right h']
          exact (min_le_right _ _).trans (le_add_of_nonneg_left (le_min hx h0))
      · rw [min_eq_right h]
        exact (min_le_right _ _).trans (le_add_of_nonneg_right (le_min hy h0))
    linarith
  · rcases le_total (x + y) top with h | h
    · rw [min_eq_left h]
      linarith [min_le_left x top, min_le_left y top]
    · rw [min_eq_right h]
      linarith

namespace Grid

theorem align_of_ne {direction : Direction} (h : direction ≠ .downsampling)
    (rateIn rateOut time : Nat) : align rateIn rateOut direction time =
      timeOfTick rateOut (Scale.round time rateOut nanosPerSecond) :=
  if_neg fun h' => h h'.1

theorem timeOfTick_round {tick time rate : Nat} (hr : 0 < rate)
    (ht : Scale.nearest tick nanosPerSecond rate = time) :
    timeOfTick rate (Scale.round time rate nanosPerSecond) =
      timeOfTick rate (min tick Scale.largest) := by
  have hsame : Scale.nearest (Scale.nearest time rate nanosPerSecond) nanosPerSecond rate =
      Scale.nearest tick nanosPerSecond rate := by
    -- Whichever of the two units is finer, one of the ways there and back is without loss.
    rcases le_total rate nanosPerSecond with h | h
    · rw [← ht, Scale.nearest_nearest hr h]
    · rw [Scale.nearest_nearest Scale.nanosPerSecond_pos h, ht]
  change min (Scale.nearest (min (Scale.nearest time rate nanosPerSecond) Scale.largest)
    nanosPerSecond rate) Scale.largest = min (Scale.nearest (min tick Scale.largest)
    nanosPerSecond rate) Scale.largest
  rw [Scale.nearest_min, Scale.nearest_min, hsame]

theorem align_down {factor rateOut : Nat} (hf : 2 ≤ factor) (hr : 0 < rateOut) {h : Header}
    {time : Nat} (ht : h.timestamp? = some time)
    (hrate : 2 * (factor * rateOut) ≤ nanosPerSecond) (hw : time ≤ Scale.largest)
    (hle : time ≤ timeOfTick rateOut (startTick (factor * rateOut) factor h)) :
    align (factor * rateOut) rateOut .downsampling time =
      timeOfTick rateOut (startTick (factor * rateOut) factor h) := by
  have hpos : 0 < factor := by omega
  have hreached := reached_startTick hpos ht hw hrate
  rcases Nat.lt_or_ge (startTick (factor * rateOut) factor h * nanosPerSecond) (time * rateOut)
    with hpast | hnot
  · have htol := tolerance_pos (Nat.mul_pos hpos hr) hrate
    rw [align_of_past hreached hf hr hrate hw hpast, if_neg (by omega)]
  · exact align_of_not_past hreached hr hrate hw hnot

end Grid

def Conversion.StartsAt (offset leading origin : Nat) : Conversion → Prop
  | .copy => origin = offset
  | .up factor _ => origin = min (offset * factor) Scale.largest
  | .down factor _ _ => offset + leading = origin * factor

namespace Setup

structure OnTime (s : Setup) (h : Header) : Prop where
  rate : s.rateIn ≤ 500000000
  time : h.timestamp? = some (Scale.round h.offset nanosPerSecond s.rateIn)
  unsaturated : Scale.nearest h.offset nanosPerSecond s.rateIn ≤ Scale.largest
  offset : h.offset ≤ Scale.largest

variable {s : Setup} {h : Header}

theorem OnTime.position_eq (ht : s.OnTime h) : Grid.position s.rateIn h = h.offset := by
  have hrate : s.rateIn ≤ nanosPerSecond := ht.rate.trans (by decide)
  exact Grid.position_of_time ht.time s.rateIn_pos hrate ht.offset ht.unsaturated

theorem Coherent.origin_down (hs : s.Coherent) {factor : Nat} {d : Decimation} {z : Bool}
    (hc : s.conversion = .down factor d z) (ht : s.OnTime h) :
    (s.opened h).origin = Scale.least h.offset s.rateOut s.rateIn := by
  have hr := hs.relates
  have hbegins := hs.begins_least ht.position_eq
  have hlt := hs.down_lt hc
  rw [hc] at hr hbegins
  have hlead := Grid.leading_lt (Nat.lt_of_lt_of_le Nat.zero_lt_two hr.1) s.rateIn h
  have hword := ht.offset
  have hhalf := Nat.mul_le_mul_left (Scale.least h.offset s.rateOut s.rateIn) hr.1
  simp only [Conversion.Begins, leading, hc] at hbegins
  apply Scale.ceil_eq_least
  simp only [Scale.largest] at hword ⊢
  omega

theorem Coherent.startsAt (hs : s.Coherent) (ht : s.OnTime h) :
    s.conversion.StartsAt h.offset (s.leading h) (s.opened h).origin := by
  have hbegins := hs.begins_least ht.position_eq
  have horigin : (s.opened h).origin =
      min (Scale.least h.offset s.rateOut s.rateIn) Scale.largest := rfl
  cases hc : s.conversion with
  | copy =>
    rw [hc] at hbegins
    rw [horigin, show Scale.least h.offset s.rateOut s.rateIn = h.offset from hbegins]
    exact Nat.min_eq_left ht.offset
  | up factor i =>
    rw [hc] at hbegins
    exact horigin.trans (congr_arg (min · Scale.largest) hbegins)
  | down factor d z =>
    rw [hs.origin_down hc ht]
    rw [hc] at hbegins
    exact hbegins.symm

theorem Coherent.align_onTime (hs : s.Coherent) (ht : s.OnTime h) :
    Grid.align s.rateIn s.rateOut s.conversion.direction
        (Scale.round h.offset nanosPerSecond s.rateIn) =
      Grid.timeOfTick s.rateOut (s.opened h).origin := by
  have hr := hs.relates
  have hstart := hs.startsAt ht
  have htime := Scale.round_eq_nearest ht.unsaturated
  cases hc : s.conversion with
  | copy =>
    rw [hc] at hr hstart
    have hrate : s.rateOut = s.rateIn := hr
    have horigin : (s.opened h).origin = min h.offset Scale.largest :=
      hstart.trans (Nat.min_eq_left ht.offset).symm
    rw [Grid.align_of_ne (by nofun), horigin]
    apply Grid.timeOfTick_round s.rateOut_pos
    rw [hrate, htime]
  | up factor i =>
    rw [hc] at hr hstart
    have hpos : 0 < factor := Nat.lt_of_lt_of_le Nat.zero_lt_two hr.1
    have horigin : (s.opened h).origin = min (h.offset * factor) Scale.largest := hstart
    rw [Grid.align_of_ne (by nofun), horigin]
    apply Grid.timeOfTick_round s.rateOut_pos
    rw [hr.2, Scale.nearest_mul_mul hpos s.rateIn_pos, htime]
  | down factor d z =>
    rw [hc] at hr
    obtain ⟨hf, hrate⟩ := hr
    have hpos : 0 < factor := by omega
    have htick := Grid.mul_startTick hpos s.rateIn h
    rw [ht.position_eq] at htick
    -- The time of the header is not after that of the tick, so no tick is skipped.
    have hsame : Scale.round (factor * Grid.startTick s.rateIn factor h) nanosPerSecond s.rateIn =
        Grid.timeOfTick s.rateOut (Grid.startTick s.rateIn factor h) := by
      have hnearest := Scale.nearest_mul_mul hpos s.rateOut_pos (Grid.startTick s.rateIn factor h)
        nanosPerSecond
      rw [← hrate, Nat.mul_comm] at hnearest
      exact congr_arg (min · Scale.largest) hnearest
    have hle := Scale.round_mono nanosPerSecond s.rateIn (htick.ge.trans' (Nat.le_add_right _ _))
    rw [hsame] at hle
    have hhalf : 2 * s.rateIn ≤ nanosPerSecond := Nat.mul_le_mul_left 2 ht.rate
    have hword : Scale.round h.offset nanosPerSecond s.rateIn ≤ Scale.largest :=
      Nat.min_le_right _ _
    have hstamp := ht.time
    rw [hs.origin_down hc ht, hs.least_down hc ht.position_eq]
    rw [hrate] at hle hhalf hword hstamp ⊢
    exact Grid.align_down hf s.rateOut_pos hstamp hhalf hword hle

end Setup

theorem Stamp.OnTicks.abs_time_sub_le {rateOut origin : Nat} {m : Stamp} (hr : 0 < rateOut)
    (h : m.OnTicks rateOut origin (Grid.timeOfTick rateOut origin)) :
    ∃ t : Nat, m.timestamp? = some t ∧
      |(t : ℚ) - min (m.offset * nanosPerSecond / rateOut : ℚ) Scale.largest| ≤ 1 := by
  refine ⟨_, h.timestamp, ?_⟩
  have hfit : Grid.timeOfTick rateOut origin + Grid.timeOfTick rateOut (m.offset - origin) ≤
      Scale.largest := Nat.le_of_lt_succ h.time_lt
  have hsum : (m.offset * nanosPerSecond / rateOut : ℚ) =
      origin * nanosPerSecond / rateOut + (m.offset - origin : Nat) * nanosPerSecond / rateOut := by
    rw [← add_div, ← add_mul, ← Nat.cast_add, Nat.add_sub_cancel' h.origin_le]
  rw [hsum, Nat.cast_add]
  apply abs_add_sub_min_le
  · positivity
  · positivity
  · positivity
  · exact_mod_cast hfit
  · exact Scale.abs_round_sub_le origin nanosPerSecond hr
  · exact Scale.abs_round_sub_le (m.offset - origin) nanosPerSecond hr

namespace Converter

variable {α ρ : Type} [Zero α] [Add α] [Sub α] [Add ρ] [Mul ρ] [Scalar ρ] [Sample α ρ]
variable [Element α] {c d : Converter α ρ} {b : Buffer α} {n : Nat} {ms : List Stamp}

/-- A stream stays on the global time grid. If the first buffer of a segment has the time of
its offset, the segment has the output offset and the time of the tick that it starts on, and
no stamp of it is more than a nanosecond away from the time of its offset. -/
theorem segment_on_time_grid (hc : c.Reachable) (h : Underway c b d n ms)
    (hrate : d.setup.rateIn ≤ 500000000)
    (ht : b.header.timestamp? =
      some (Scale.round b.header.offset nanosPerSecond d.setup.rateIn))
    (hfit : Scale.nearest b.header.offset nanosPerSecond d.setup.rateIn ≤ Scale.largest) :
    d.segment.origin =
        min ((b.header.offset * d.setup.rateOut) ⌈/⌉ d.setup.rateIn) Scale.largest ∧
      d.setup.conversion.StartsAt b.header.offset (d.setup.leading b.header) d.segment.origin ∧
      d.segment.start? =
        some (Scale.round d.segment.origin nanosPerSecond d.setup.rateOut) ∧
      ∀ m ∈ ms, ∃ t : Nat, m.timestamp? = some t ∧
        |(t : ℚ) - min (m.offset * nanosPerSecond / d.setup.rateOut : ℚ) Scale.largest| ≤ 1 := by
  have hv := hc.valid Kernel.serves_stable
  obtain ⟨hd, -, hlt⟩ := h.booked hv ht
  have hsetup := hd.setup
  have htime : c.pending.OnTime b.header := by
    rw [hsetup] at hrate ht hfit
    refine ⟨hrate, ht, hfit, ?_⟩
    simp only [Scale.largest]
    omega
  have halign := hv.pending.1.align_onTime htime
  rw [hsetup, halign] at hd
  rw [hsetup, hd.origin]
  refine ⟨Scale.ceil_eq_ceilDiv _ _ c.pending.rateIn_pos, hv.pending.1.startsAt htime,
    hd.startsAt, fun m hm => ?_⟩
  exact (hd.stamps m hm).abs_time_sub_le c.pending.rateOut_pos

theorem segment_on_time_grid_from_five :
    ∃ d ms, Underway (ofSetup picking) threeSamples d 3 ms ∧
      d.segment.origin = min ((5 * 2 : ℕ) ⌈/⌉ (4 : ℕ)) Scale.largest ∧
      5 + 1 = d.segment.origin * 2 ∧
      d.segment.start? = some (Scale.round d.segment.origin nanosPerSecond 2) ∧
      ∀ m ∈ ms, ∃ t : Nat, m.timestamp? = some t ∧
        |(t : ℚ) - min (m.offset * nanosPerSecond / (2 : ℕ) : ℚ) Scale.largest| ≤ 1 := by
  have hc : (ofSetup picking : Converter Float Float).Reachable :=
    .made (show ofConfig picking.config = .ok (ofSetup picking) from rfl)
  obtain ⟨t, ht, hsetup⟩ : ∃ t, (ofSetup picking).transform threeSamples [0] = .ok (.ok t) ∧
      t.converter.setup = picking := ⟨_, rfl, rfl⟩
  have hopened := Underway.opened (.inr (.inr (.inl rfl))) ht
  have hgrid := segment_on_time_grid hc hopened
  rw [hsetup] at hgrid
  exact ⟨_, _, hopened, hgrid (by decide) (by decide) (by decide)⟩

def holding : Setup where
  config :=
    { rateIn := ⟨500000000, by decide, by decide⟩, rateOut := ⟨4000000000, by decide, by decide⟩,
      type := .f64 }
  conversion := .up 8 .hold

def halvingRate : Setup where
  config :=
    { rateIn := .two, rateOut := .one, type := .f64 }
  conversion := .down 2 .pick false

def emptyAt (offset time : Nat) : Buffer Float :=
  ⟨{ len := 0, offset, timestamp? := some time }, []⟩

/-- At the largest words the grid is left: eight times the offset 25 · 10 ^ 17 is cut, and so is
the time of the tick after that of 18446744073.5 seconds. -/
theorem segment_off_time_grid_at_largest :
    (∃ t, (ofConfig holding.config = .ok (ofSetup holding : Converter Float Float) ∧
        holding.OnTime (emptyAt 2500000000000000000 5000000000000000000).header) ∧
      (ofSetup holding).transform (emptyAt 2500000000000000000 5000000000000000000) [] =
        .ok (.ok t) ∧
      t.converter.segment.origin ≠
        (2500000000000000000 * holding.rateOut) ⌈/⌉ holding.rateIn) ∧
    ∃ t, (ofConfig halvingRate.config = .ok (ofSetup halvingRate : Converter Float Float) ∧
        halvingRate.OnTime (emptyAt 36893488147 18446744073500000000).header) ∧
      (ofSetup halvingRate).transform (emptyAt 36893488147 18446744073500000000) [] =
        .ok (.ok t) ∧
      ∃ time : Nat, t.stamp.timestamp? = some time ∧
        1 < |(time : ℚ) - t.stamp.offset * nanosPerSecond / halvingRate.rateOut| := by
  constructor
  · obtain ⟨t, ht, horigin⟩ : ∃ t, (ofSetup holding).transform
        (emptyAt 2500000000000000000 5000000000000000000) [] = .ok (.ok t) ∧
        t.converter.segment.origin = Scale.largest := ⟨_, rfl, by decide +kernel⟩
    refine ⟨t, ⟨rfl, by decide, by decide, by decide, by decide⟩, ht, ?_⟩
    rw [horigin]
    decide
  · obtain ⟨t, ht, htime, hoffset⟩ : ∃ t, (ofSetup halvingRate).transform
        (emptyAt 36893488147 18446744073500000000) [] = .ok (.ok t) ∧
        t.stamp.timestamp? = some Scale.largest ∧ t.stamp.offset = 18446744074 :=
      ⟨_, rfl, by decide +kernel, by decide +kernel⟩
    refine ⟨t, ⟨rfl, by decide, by decide, by decide, by decide⟩, ht, _, htime, ?_⟩
    have hrate : halvingRate.rateOut = 1 := rfl
    rw [hoffset, hrate]
    norm_num [Scale.largest, nanosPerSecond]

end Converter

end RateConversion
