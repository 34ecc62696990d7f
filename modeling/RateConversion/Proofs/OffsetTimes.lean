import RateConversion.Converter
import RateConversion.Proofs.Ratio
import RateConversion.Proofs.Rescale

/-! Offsets told by their times. At a rate, the offsets whose times fit in a word all come back
from their rounded times exactly when a sample lasts a nanosecond or longer. A segment then
passes over as many samples for the time of an offset as for the offset itself. -/

namespace RateConversion

namespace Scale

theorem nearest_self (num : Nat) {denom : Nat} (hd : 0 < denom) :
    nearest denom num denom = num := by
  apply nearest_eq hd
  · exact Nat.le_add_right _ _
  · omega

/-- Counts that come back from their quotients have quotients that lie apart, so that none of
them is more than its quotient. -/
theorem le_nearest_of_back {num denom most : Nat}
    (hback : ∀ n ≤ most, nearest (nearest n num denom) denom num = n) {n : Nat} (hn : n ≤ most) :
    n ≤ nearest n num denom := by
  induction n with
  | zero => exact Nat.zero_le _
  | succ n ih =>
    have hle : n ≤ most := Nat.le_of_succ_le hn
    have hprev := ih hle
    have hmono := nearest_mono num denom (Nat.le_add_right n 1)
    have hapart : nearest n num denom ≠ nearest (n + 1) num denom := by
      intro hsame
      have hnext := hback (n + 1) hn
      rw [← hsame, hback n hle] at hnext
      omega
    omega

theorem le_nearest {rate : Nat} (hpos : 0 < rate) (hrate : rate ≤ nanosPerSecond) (n : Nat) :
    n ≤ nearest n nanosPerSecond rate :=
  le_nearest_of_back (fun n _ => nearest_nearest hpos hrate n) le_rfl

/-- What an offset becomes on the way to its time and back. -/
def throughTime (rate n : Nat) : Checked Nat := do
  let time ← roundOver n nanosPerSecond rate
  roundOver time rate nanosPerSecond

theorem throughTime_eq {rate : Nat} (hpos : 0 < rate) {n : Nat}
    (hfit : nearest n nanosPerSecond rate ≤ largest) :
    throughTime rate n =
      .ok (min (nearest (nearest n nanosPerSecond rate) rate nanosPerSecond) largest) := by
  have hthere : roundOver n nanosPerSecond rate = .ok (nearest n nanosPerSecond rate) := by
    rw [roundOver, if_neg hpos.ne', round_eq_nearest hfit]
  rw [throughTime, hthere, Checked.ok_bind, roundOver, if_neg nanosPerSecond_pos.ne']
  rfl

theorem rate_le_of_back {rate : Nat} (hpos : 0 < rate) (hword : rate ≤ largest)
    (hback : ∀ n ≤ largest, nearest n nanosPerSecond rate ≤ largest →
      throughTime rate n = .ok n) : rate ≤ nanosPerSecond := by
  have hsecond : nearest rate nanosPerSecond rate = nanosPerSecond := nearest_self _ hpos
  have hcount : ∀ n ≤ rate, nearest (nearest n nanosPerSecond rate) rate nanosPerSecond = n := by
    intro n hn
    have htime : nearest n nanosPerSecond rate ≤ nanosPerSecond :=
      (nearest_mono _ _ hn).trans hsecond.le
    have hfit : nearest n nanosPerSecond rate ≤ largest := htime.trans (by decide)
    have hcut := hback n (hn.trans hword) hfit
    rw [throughTime_eq hpos hfit] at hcut
    have hsmall : nearest (nearest n nanosPerSecond rate) rate nanosPerSecond ≤ rate :=
      (nearest_mono _ _ htime).trans (nearest_self rate nanosPerSecond_pos).le
    rw [Nat.min_eq_left (hsmall.trans hword)] at hcut
    exact Except.ok.inj hcut
  exact (le_nearest_of_back hcount le_rfl).trans hsecond.le

theorem throughTime_eq_self {rate : Nat} (hpos : 0 < rate) (hrate : rate ≤ nanosPerSecond)
    {n : Nat} (hfit : nearest n nanosPerSecond rate ≤ largest) : throughTime rate n = .ok n := by
  have hword : n ≤ largest := (le_nearest hpos hrate n).trans hfit
  rw [throughTime_eq hpos hfit, nearest_nearest hpos hrate, Nat.min_eq_left hword]

end Scale

namespace Setup

variable {s : Setup} {h : Header}

theorem leading_congr {h' : Header}
    (hp : Grid.position s.rateIn h = Grid.position s.rateIn h') : s.leading h = s.leading h' := by
  simp only [leading, Grid.leading, hp]

/-- Offsets come back from their times, if these fit in a word, at every rate up to one sample
in a nanosecond and at no rate above. A segment that a buffer opens there passes over the same
samples whether the buffer has the time of its offset or no time: those up to the next offset
that the factor divides. -/
theorem time_tells_offset :
    (∀ rate, 0 < rate → rate ≤ Scale.largest →
      ((∀ n ≤ Scale.largest, Scale.nearest n nanosPerSecond rate ≤ Scale.largest →
        Scale.throughTime rate n = .ok n) ↔ rate ≤ nanosPerSecond)) ∧
    ∀ s : Setup, s.rateIn ≤ nanosPerSecond → ∀ h : Header,
      Scale.nearest h.offset nanosPerSecond s.rateIn ≤ Scale.largest →
      ∀ time, time = Scale.round h.offset nanosPerSecond s.rateIn →
        s.leading { h with timestamp? := some time } = s.leading { h with timestamp? := none } ∧
        ∀ factor d z, s.conversion = .down factor d z →
          s.leading { h with timestamp? := some time } = (factor - h.offset % factor) % factor := by
  constructor
  · intro rate hpos hword
    constructor
    · exact Scale.rate_le_of_back hpos hword
    · intro hrate n _ hfit
      exact Scale.throughTime_eq_self hpos hrate hfit
  · rintro s hrate h hfit time rfl
    have hword := (Scale.le_nearest s.rateIn_pos hrate h.offset).trans hfit
    have hplace : Grid.position s.rateIn
        { h with timestamp? := some (Scale.round h.offset nanosPerSecond s.rateIn) } = h.offset :=
      Grid.position_of_time rfl s.rateIn_pos hrate hword hfit
    refine ⟨leading_congr hplace, ?_⟩
    intro factor d z hdown
    simp only [leading, hdown, Grid.leading]
    rw [hplace]

def nanosecondSamples : Setup where
  config :=
    { rateIn := ⟨1000000000, by decide, by decide⟩, rateOut := ⟨250000000, by decide, by decide⟩,
      type := .f64 }
  conversion := .down 4 .pick false

/-- The largest offset comes back at the highest rate, and two offsets below it the next tick is
three samples ahead. -/
theorem time_tells_offset_at_limit :
    Setup.ofConfig nanosecondSamples.config = .ok nanosecondSamples ∧
      0 < nanosPerSecond ∧ nanosPerSecond ≤ Scale.largest ∧
      Scale.nearest Scale.largest nanosPerSecond nanosPerSecond ≤ Scale.largest ∧
      Scale.throughTime nanosPerSecond Scale.largest = .ok Scale.largest ∧
      nanosecondSamples.leading
          { len := 8, offset := 18446744073709551613,
            timestamp? := some 18446744073709551613 } = 3 := by
  have hback := (time_tells_offset.1 nanosPerSecond (by decide) (by decide)).mpr le_rfl
  have hlead := (time_tells_offset.2 nanosecondSamples (by decide)
    { len := 8, offset := 18446744073709551613 } (by decide) 18446744073709551613
    (by decide)).2 4 .pick false rfl
  exact ⟨by decide, by decide, by decide, by decide, hback _ le_rfl (by decide),
    hlead.trans (by decide)⟩

/-- At the next rate above, the two samples in the middle of the first second have one time. It
leads back to the later one. -/
example : Scale.throughTime 1000000001 500000000 = .ok 500000001 ∧
    Scale.throughTime 1000000001 500000001 = .ok 500000001 := by
  decide

end Setup

end RateConversion
