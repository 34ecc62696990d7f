import Mathlib.Algebra.Order.Floor.Semifield
import Mathlib.Data.Rat.Floor
import Mathlib.Tactic.FieldSimp
import Mathlib.Tactic.Positivity
import RateConversion.Proofs.Rescale

/-! Rescaling rounds a rational number once. The nearest quotient is the rational with a half
added and cut down to an integer, the least one is its ceiling, and only a quotient beyond the
largest word is cut. A product of two words and half a divisor fit in a word of twice the width,
so the quotients can be computed in such words, in which products wrap and sums are cut. -/

namespace RateConversion.Scale

def quotient (value num denom : Nat) : ℚ := value * num / denom

theorem nearest_eq_floor (value num : Nat) {denom : Nat} (hd : 0 < denom) :
    nearest value num denom = ⌊quotient value num denom + 1 / 2⌋₊ := by
  obtain ⟨hlow, hhigh⟩ := nearest_bounds value num hd
  have hpos : (0 : ℚ) < denom := Nat.cast_pos.mpr hd
  have hsum : quotient value num denom + 1 / 2 =
      (2 * (value * num) + denom : Nat) / (2 * denom) := by
    rw [quotient]
    push_cast
    field_simp
  symm
  rw [hsum, Nat.floor_eq_iff (by positivity), le_div_iff₀ (by positivity),
    div_lt_iff₀ (by positivity)]
  constructor
  · have hcast := Nat.cast_le (α := ℚ).mpr hlow
    push_cast at hcast ⊢
    linarith
  · have hcast := Nat.cast_lt (α := ℚ).mpr hhigh
    push_cast at hcast ⊢
    linarith

theorem least_eq_ceil (value num : Nat) {denom : Nat} (hd : 0 < denom) :
    least value num denom = ⌈quotient value num denom⌉₊ := by
  obtain ⟨hlow, hhigh⟩ := least_bounds value num hd
  have hpos : (0 : ℚ) < denom := Nat.cast_pos.mpr hd
  apply eq_of_forall_ge_iff
  intro k
  rw [Nat.ceil_le, quotient, div_le_iff₀ hpos, ← Nat.cast_mul, ← Nat.cast_mul, Nat.cast_le]
  constructor
  · intro hk
    have hmul := Nat.mul_le_mul_left denom hk
    rw [Nat.mul_comm k]
    omega
  · intro hk
    exact least_le_of_mul_le hd (by rwa [Nat.mul_comm k] at hk)

theorem round_eq_min_floor (value num : Nat) {denom : Nat} (hd : 0 < denom) :
    round value num denom = min ⌊quotient value num denom + 1 / 2⌋₊ largest :=
  congr_arg (min · largest) (nearest_eq_floor value num hd)

theorem ceil_eq_min_ceil (value num : Nat) {denom : Nat} (hd : 0 < denom) :
    ceil value num denom = min ⌈quotient value num denom⌉₊ largest :=
  congr_arg (min · largest) (least_eq_ceil value num hd)

theorem nearest_add_near (a b num : Nat) {denom : Nat} (hd : 0 < denom) :
    nearest a num denom + nearest b num denom ≤ nearest (a + b) num denom + 1 ∧
      nearest (a + b) num denom ≤ nearest a num denom + nearest b num denom + 1 := by
  obtain ⟨ha, ha'⟩ := nearest_bounds a num hd
  obtain ⟨hb, hb'⟩ := nearest_bounds b num hd
  obtain ⟨hs, hs'⟩ := nearest_bounds (a + b) num hd
  rw [Nat.add_mul] at hs hs'
  constructor
  · apply le_of_mul_lt_mul_add denom
    rw [Nat.mul_succ, Nat.mul_add]
    omega
  · apply le_of_mul_lt_mul_add denom
    rw [Nat.mul_succ, Nat.mul_add]
    omega

/-! ## Words of twice the width -/

/-- The nearest quotient in words of 128 bits. The product wraps and the sum is cut. -/
def roundWide (value num denom : Nat) : Nat :=
  min (min (value * num % 2 ^ 128 + denom / 2) (2 ^ 128 - 1) / denom) largest

def ceilWide (value num denom : Nat) : Nat :=
  let product := value * num % 2 ^ 128
  min (product / denom + if product % denom = 0 then 0 else 1) largest

variable {value num denom : Nat}

theorem dividend_lt (hv : value ≤ largest) (hn : num ≤ largest) (hd : denom ≤ largest) :
    value * num + denom < 2 ^ 128 := by
  have hproduct : value * num ≤ largest * largest := Nat.mul_le_mul hv hn
  have hmost : largest * largest + largest < 2 ^ 128 := by decide
  omega

theorem roundWide_eq (hv : value ≤ largest) (hn : num ≤ largest) (hd : denom ≤ largest) :
    roundWide value num denom = round value num denom := by
  have hlt := dividend_lt hv hn hd
  have hsum : value * num + denom / 2 ≤ 2 ^ 128 - 1 := by omega
  rw [roundWide, Nat.mod_eq_of_lt (by omega), Nat.min_eq_left hsum, round]

theorem least_eq_div_add (value num : Nat) (hd : 0 < denom) :
    least value num denom =
      value * num / denom + if value * num % denom = 0 then 0 else 1 := by
  have hm := Nat.div_add_mod (value * num) denom
  have hl := Nat.mod_lt (value * num) hd
  split_ifs with hrest
  · rw [Nat.add_zero]
    exact least_of_mul_eq hd (by omega)
  · apply least_eq hd
    · rw [Nat.mul_succ]
      omega
    · rw [Nat.mul_succ]
      omega

theorem ceilWide_eq (hv : value ≤ largest) (hn : num ≤ largest) (hpos : 0 < denom)
    (hd : denom ≤ largest) : ceilWide value num denom = ceil value num denom := by
  have hlt := dividend_lt hv hn hd
  simp only [ceilWide]
  rw [Nat.mod_eq_of_lt (by omega), ← least_eq_div_add value num hpos, ceil, least]

/-- Rescaling by a ratio of words gives the rational rounded to the nearest integer, a half going
up, or to the integer above, each cut at the largest word. No number on the way leaves a word of
twice the width. It keeps the order of values, the two results differ by one at most, and so
does the nearest one from the sum for two parts, if it is not cut. -/
theorem rescale_exact (hn : num ≤ largest) (hpos : 0 < denom) (hd : denom ≤ largest) :
    (∀ value ≤ largest,
      roundOver value num denom = .ok (min ⌊quotient value num denom + 1 / 2⌋₊ (2 ^ 64 - 1)) ∧
      ceilOver value num denom = .ok (min ⌈quotient value num denom⌉₊ (2 ^ 64 - 1)) ∧
      value * num + denom / 2 < 2 ^ 128 ∧ value * num / denom + 1 < 2 ^ 128 ∧
      roundWide value num denom = round value num denom ∧
      ceilWide value num denom = ceil value num denom ∧
      round value num denom ≤ ceil value num denom ∧
      ceil value num denom ≤ round value num denom + 1) ∧
    Monotone (round · num denom) ∧ Monotone (ceil · num denom) ∧
    ∀ value value' : Nat, ⌊quotient (value + value') num denom + 1 / 2⌋₊ ≤ largest →
      |(round value num denom + round value' num denom : ℤ) -
        round (value + value') num denom| ≤ 1 := by
  refine ⟨?_, fun a b h => round_mono num denom h, fun a b h => ceil_mono num denom h, ?_⟩
  · intro value hv
    have hlt := dividend_lt hv hn hd
    have hdiv := Nat.div_le_self (value * num) denom
    refine ⟨?_, ?_, by omega, by omega, roundWide_eq hv hn hd, ceilWide_eq hv hn hpos hd,
      round_le_ceil value num hpos, ceil_le_round_succ value num hpos⟩
    · rw [roundOver, if_neg hpos.ne', round_eq_min_floor value num hpos]
      rfl
    · rw [ceilOver, if_neg hpos.ne', ceil_eq_min_ceil value num hpos]
      rfl
  · intro a b hfit
    rw [← nearest_eq_floor (a + b) num hpos] at hfit
    have ha : nearest a num denom ≤ largest :=
      (nearest_mono num denom (Nat.le_add_right a b)).trans hfit
    have hb : nearest b num denom ≤ largest :=
      (nearest_mono num denom (Nat.le_add_left b a)).trans hfit
    obtain ⟨hover, hunder⟩ := nearest_add_near a b num hpos
    rw [round_eq_nearest ha, round_eq_nearest hb, round_eq_nearest hfit, abs_le]
    omega

theorem rescale_exact_at_largest :
    largest ≤ largest ∧ 0 < largest ∧
      roundOver largest largest largest =
        .ok (min ⌊quotient largest largest largest + 1 / 2⌋₊ (2 ^ 64 - 1)) ∧
      largest * largest + largest / 2 < 2 ^ 128 ∧
      roundWide largest largest largest = round largest largest largest ∧
      round largest largest largest = largest := by
  have hexact := rescale_exact (le_refl largest) (show 0 < largest by decide) (le_refl largest)
  obtain ⟨hround, -, hfit, -, hwide, -⟩ := hexact.1 largest le_rfl
  exact ⟨le_rfl, by decide, hround, hfit, hwide, by decide⟩

example : round 5 7 2 = 18 ∧ ceil 5 7 3 = 12 ∧ round 5 7 3 = 12 ∧ round largest 7 2 = largest := by
  decide

end RateConversion.Scale
