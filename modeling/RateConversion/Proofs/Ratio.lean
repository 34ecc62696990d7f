import Mathlib.Algebra.Order.Ring.Nat
import RateConversion.Converter

/-! What the conversion of a configuration says about its rates: they are equal, or one
is the other times the factor, which is at least 2 and fits in 32 bits. -/

namespace RateConversion

def Conversion.Relates (rateIn rateOut : Nat) : Conversion → Prop
  | .copy => rateOut = rateIn
  | .up factor _ => 2 ≤ factor ∧ rateOut = factor * rateIn
  | .down factor _ _ => 2 ≤ factor ∧ rateIn = factor * rateOut

namespace Rate

/-! Rates of the examples. -/

def one : Rate := ⟨1, by decide, by decide⟩
def two : Rate := ⟨2, by decide, by decide⟩
def three : Rate := ⟨3, by decide, by decide⟩
def four : Rate := ⟨4, by decide, by decide⟩

end Rate

namespace Config

theorem rateOut_eq_of_passthrough {c : Config} (h : c.direction = .passthrough) :
    c.rateOut.hz = c.rateIn.hz := by
  simp only [direction] at h
  split at h <;> simp_all

theorem rateIn_lt_of_upsampling {c : Config} (h : c.direction = .upsampling) :
    c.rateIn.hz < c.rateOut.hz := by
  simp only [direction] at h
  split at h <;> simp_all [Nat.compare_eq_gt]

theorem rateOut_lt_of_downsampling {c : Config} (h : c.direction = .downsampling) :
    c.rateOut.hz < c.rateIn.hz := by
  simp only [direction] at h
  split at h <;> simp_all [Nat.compare_eq_lt]

theorem ratio_mul (c : Config) :
    c.ratio.1 * c.rateIn.hz = c.ratio.2 * c.rateOut.hz := by
  simp only [ratio]
  rw [Nat.div_mul_right_comm (Nat.gcd_dvd_left _ _), Nat.div_mul_right_comm (Nat.gcd_dvd_right _ _),
    Nat.mul_comm]

theorem resolve_relates {c : Config} {num den : Nat} {k : Conversion}
    (hmul : num * c.rateIn.hz = den * c.rateOut.hz) (hone : num = 1 ∨ den = 1)
    (h : c.resolve num den = .ok k) : k.Relates c.rateIn.hz c.rateOut.hz := by
  have hin := c.rateIn.pos
  have hout := c.rateOut.pos
  simp only [resolve] at h
  split at h
  · rename_i hdir
    split at h <;> cases h
    exact rateOut_eq_of_passthrough hdir
  · rename_i hdir
    have hlt := rateIn_lt_of_upsampling hdir
    split at h <;> cases h
    rcases hone with rfl | rfl
    · exfalso
      have : den ≠ 0 := by rintro rfl; omega
      have := Nat.le_mul_of_pos_left c.rateOut.hz (Nat.pos_of_ne_zero this)
      omega
    · refine ⟨?_, by omega⟩
      by_contra hc
      have := Nat.mul_le_mul_right c.rateIn.hz (show num ≤ 1 by omega)
      omega
  · rename_i hdir
    have hlt := rateOut_lt_of_downsampling hdir
    split at h <;> cases h
    rcases hone with rfl | rfl
    · refine ⟨?_, by omega⟩
      by_contra hc
      have := Nat.mul_le_mul_right c.rateOut.hz (show den ≤ 1 by omega)
      omega
    · exfalso
      have : num ≠ 0 := by rintro rfl; omega
      have := Nat.le_mul_of_pos_left c.rateIn.hz (Nat.pos_of_ne_zero this)
      omega

theorem conversion_relates {c : Config} {k : Conversion} (h : c.conversion = .ok k) :
    k.Relates c.rateIn.hz c.rateOut.hz := by
  simp only [conversion] at h
  cases hu : c.checkUnitSize with
  | error e => rw [hu] at h; cases h
  | ok u =>
    rw [hu] at h
    simp only [bind, Except.bind] at h
    split at h
    · cases h
    · rename_i hone
      exact resolve_relates c.ratio_mul (by omega) h

end Config

namespace Setup

/-- The stored conversion is the one that the configuration resolves to. -/
def Coherent (s : Setup) : Prop := s.config.conversion = .ok s.conversion

theorem ofConfig_eq_ok_iff {c : Config} {s : Setup} :
    ofConfig c = .ok s ↔ s.config = c ∧ s.Coherent := by
  simp only [ofConfig, Coherent]
  constructor
  · intro h
    cases hc : c.conversion with
    | error e => rw [hc] at h; cases h
    | ok k => rw [hc] at h; cases h; exact ⟨rfl, hc⟩
  · rintro ⟨rfl, h⟩
    rw [h]
    rfl

theorem Coherent.relates {s : Setup} (h : s.Coherent) :
    s.conversion.Relates s.rateIn s.rateOut := Config.conversion_relates h

theorem rateIn_pos (s : Setup) : 0 < s.rateIn := s.config.rateIn.pos

theorem rateOut_pos (s : Setup) : 0 < s.rateOut := s.config.rateOut.pos

theorem Coherent.up_lt {s : Setup} (h : s.Coherent) {factor : Nat} {i : Interpolation}
    (hc : s.conversion = .up factor i) : factor < 2 ^ 32 := by
  have hr := h.relates
  rw [hc] at hr
  calc factor ≤ factor * s.rateIn := Nat.le_mul_of_pos_right _ s.rateIn_pos
    _ = s.rateOut := hr.2.symm
    _ < 2 ^ 32 := s.config.rateOut.lt

theorem Coherent.down_lt {s : Setup} (h : s.Coherent) {factor : Nat} {d : Decimation} {z : Bool}
    (hc : s.conversion = .down factor d z) : factor < 2 ^ 32 := by
  have hr := h.relates
  rw [hc] at hr
  calc factor ≤ factor * s.rateOut := Nat.le_mul_of_pos_right _ s.rateOut_pos
    _ = s.rateIn := hr.2.symm
    _ < 2 ^ 32 := s.config.rateIn.lt

end Setup

end RateConversion
