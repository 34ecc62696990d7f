import Mathlib.Tactic.Linarith
import Mathlib.Tactic.Ring
import RateConversion.Grid

/-! Rounded quotients as integer inequalities. A quotient that fits in a word is the
nearest or the least integer, so a count goes to nanoseconds and back without loss as
long as a sample period is not shorter than a nanosecond. -/

namespace RateConversion.Scale

def nearest (value num denom : Nat) : Nat := (value * num + denom / 2) / denom

def least (value num denom : Nat) : Nat := (value * num + (denom - 1)) / denom

theorem round_eq_nearest {value num denom : Nat} (h : nearest value num denom ≤ largest) :
    round value num denom = nearest value num denom := Nat.min_eq_left h

theorem ceil_eq_least {value num denom : Nat} (h : least value num denom ≤ largest) :
    ceil value num denom = least value num denom := Nat.min_eq_left h

theorem ceil_eq_least_of_lt {value num denom : Nat} (h : ceil value num denom < largest) :
    ceil value num denom = least value num denom :=
  ceil_eq_least ((min_lt_iff.mp h).resolve_right (Nat.lt_irrefl _)).le

theorem le_of_mul_lt_mul_add (denom : Nat) {a b : Nat} (h : denom * a < denom * b + denom) :
    a ≤ b :=
  Nat.lt_succ_iff.mp (Nat.lt_of_mul_lt_mul_left h)

theorem nearest_bounds (value num : Nat) {denom : Nat} (hd : 0 < denom) :
    2 * (denom * nearest value num denom) ≤ 2 * (value * num) + denom ∧
      2 * (value * num) + denom < 2 * (denom * nearest value num denom) + 2 * denom := by
  have hm := Nat.div_add_mod (value * num + denom / 2) denom
  have hl := Nat.mod_lt (value * num + denom / 2) hd
  simp only [nearest]
  omega

theorem nearest_eq {value num denom q : Nat} (hd : 0 < denom)
    (hlow : 2 * (denom * q) ≤ 2 * (value * num) + denom)
    (hhigh : 2 * (value * num) + denom < 2 * (denom * q) + 2 * denom) :
    nearest value num denom = q := by
  obtain ⟨h1, h2⟩ := nearest_bounds value num hd
  apply Nat.le_antisymm
  · apply le_of_mul_lt_mul_add denom
    omega
  · apply le_of_mul_lt_mul_add denom
    omega

theorem least_bounds (value num : Nat) {denom : Nat} (hd : 0 < denom) :
    value * num ≤ denom * least value num denom ∧
      denom * least value num denom < value * num + denom := by
  have hm := Nat.div_add_mod (value * num + (denom - 1)) denom
  have hl := Nat.mod_lt (value * num + (denom - 1)) hd
  simp only [least]
  omega

theorem least_eq {value num denom q : Nat} (hd : 0 < denom)
    (hlow : value * num ≤ denom * q) (hhigh : denom * q < value * num + denom) :
    least value num denom = q := by
  obtain ⟨h1, h2⟩ := least_bounds value num hd
  apply Nat.le_antisymm
  · apply le_of_mul_lt_mul_add denom
    omega
  · apply le_of_mul_lt_mul_add denom
    omega

theorem least_of_mul_eq {value num denom q : Nat} (hd : 0 < denom)
    (h : value * num = denom * q) : least value num denom = q :=
  least_eq hd h.le (by omega)

theorem least_le_of_mul_le {value num denom q : Nat} (hd : 0 < denom)
    (h : value * num ≤ denom * q) : least value num denom ≤ q := by
  obtain ⟨-, hleast⟩ := least_bounds value num hd
  apply le_of_mul_lt_mul_add denom
  omega

theorem nearest_le_least (value num : Nat) {denom : Nat} (hd : 0 < denom) :
    nearest value num denom ≤ least value num denom := by
  obtain ⟨h1, -⟩ := nearest_bounds value num hd
  obtain ⟨h2, -⟩ := least_bounds value num hd
  apply le_of_mul_lt_mul_add denom
  omega

theorem least_le_nearest_succ (value num : Nat) {denom : Nat} (hd : 0 < denom) :
    least value num denom ≤ nearest value num denom + 1 := by
  obtain ⟨-, h1⟩ := nearest_bounds value num hd
  obtain ⟨-, h2⟩ := least_bounds value num hd
  apply le_of_mul_lt_mul_add denom
  rw [Nat.mul_succ]
  omega

theorem nearest_mono {a b : Nat} (num denom : Nat) (h : a ≤ b) :
    nearest a num denom ≤ nearest b num denom :=
  Nat.div_le_div_right (Nat.add_le_add_right (Nat.mul_le_mul_right num h) _)

theorem round_mono {a b : Nat} (num denom : Nat) (h : a ≤ b) :
    round a num denom ≤ round b num denom :=
  Nat.le_min.mpr ⟨(Nat.min_le_left _ _).trans (nearest_mono num denom h), Nat.min_le_right _ _⟩

theorem least_mono {a b : Nat} (num denom : Nat) (h : a ≤ b) :
    least a num denom ≤ least b num denom :=
  Nat.div_le_div_right (Nat.add_le_add_right (Nat.mul_le_mul_right num h) _)

theorem ceil_mono {a b : Nat} (num denom : Nat) (h : a ≤ b) :
    ceil a num denom ≤ ceil b num denom :=
  Nat.le_min.mpr ⟨(Nat.min_le_left _ _).trans (least_mono num denom h), Nat.min_le_right _ _⟩

theorem round_le_ceil (value num : Nat) {denom : Nat} (hd : 0 < denom) :
    round value num denom ≤ ceil value num denom :=
  min_le_min_right _ (nearest_le_least value num hd)

theorem ceil_le_round_succ (value num : Nat) {denom : Nat} (hd : 0 < denom) :
    ceil value num denom ≤ round value num denom + 1 := by
  have hsucc := least_le_nearest_succ value num hd
  simp only [ceil, round, ← least.eq_1, ← nearest.eq_1]
  omega

theorem nanosPerSecond_pos : 0 < nanosPerSecond := Nat.succ_pos _

theorem nearest_min (a b num denom : Nat) :
    nearest (min a b) num denom = min (nearest a num denom) (nearest b num denom) :=
  Monotone.map_min (f := fun n => nearest n num denom) fun _ _ h => nearest_mono num denom h

theorem nearest_mul_mul {factor denom : Nat} (hf : 0 < factor) (hd : 0 < denom)
    (value num : Nat) :
    nearest (value * factor) num (factor * denom) = nearest value num denom := by
  obtain ⟨h1, h2⟩ := nearest_bounds value num hd
  have hlow := Nat.mul_le_mul_left factor h1
  have hhigh := Nat.mul_lt_mul_of_pos_left h2 hf
  apply nearest_eq (Nat.mul_pos hf hd)
  · linarith
  · linarith

theorem nearest_nearest {fine coarse : Nat} (hc : 0 < coarse) (hle : coarse ≤ fine) (n : Nat) :
    nearest (nearest n fine coarse) coarse fine = n := by
  obtain ⟨h1, h2⟩ := nearest_bounds n fine hc
  generalize nearest n fine coarse = t at h1 h2
  rw [Nat.mul_comm n] at h1 h2
  apply nearest_eq (hc.trans_le hle)
  · rw [Nat.mul_comm t]
    omega
  · rw [Nat.mul_comm t]
    rcases Nat.lt_or_ge coarse fine with hlt | hge
    · omega
    · obtain rfl := Nat.le_antisymm hle hge
      have ht : t ≤ n := by
        by_contra hc
        have := Nat.mul_le_mul_left coarse (Nat.lt_of_not_le hc)
        rw [Nat.mul_succ] at this
        omega
      have := Nat.mul_le_mul_left coarse ht
      omega

theorem round_round_eq {n rate : Nat} (hpos : 0 < rate) (hrate : rate ≤ nanosPerSecond)
    (hn : n ≤ largest) (hfit : nearest n nanosPerSecond rate ≤ largest) :
    round (round n nanosPerSecond rate) rate nanosPerSecond = n := by
  have h := nearest_nearest hpos hrate n
  rw [round_eq_nearest hfit, round_eq_nearest (h.trans_le hn), h]

end RateConversion.Scale

namespace RateConversion.Grid

theorem position_of_time {n rate : Nat} {h : Header}
    (ht : h.timestamp? = some (Scale.round n nanosPerSecond rate)) (hpos : 0 < rate)
    (hrate : rate ≤ nanosPerSecond) (hn : n ≤ Scale.largest)
    (hfit : Scale.nearest n nanosPerSecond rate ≤ Scale.largest) : position rate h = n := by
  simp only [position, ht]
  exact Scale.round_round_eq hpos hrate hn hfit

end RateConversion.Grid
