import Mathlib.Algebra.Polynomial.Derivative
import Mathlib.Algebra.Polynomial.Eval.Degree
import Mathlib.Tactic.FieldSimp
import RateConversion.Proofs.ExactArithmetic
import RateConversion.Proofs.SplineValues

/-! Splines where arithmetic is exact. A segment takes its values from one polynomial at the
fractions between its knots. The polynomial goes on to the right knot, and that of a cubic
segment leaves it with the slope that the next segment starts with. A line is drawn as it is by
lines, and a parabola by parabolas and cubics, but for the first segment, whose slope at the
left knot is none. -/

namespace RateConversion

namespace Spline

open Polynomial

variable {K : Type} [Field K]

theorem eval_of_natDegree_le_one {p : K[X]} (hp : p.natDegree ≤ 1) (z : K) :
    p.eval z = p.coeff 0 + p.coeff 1 * z := by
  rw [eval_eq_sum_range' (Nat.lt_succ_iff.mpr hp), Finset.sum_range_succ, Finset.sum_range_one,
    pow_zero, pow_one, mul_one]

theorem eval_of_natDegree_le_two {p : K[X]} (hp : p.natDegree ≤ 2) (z : K) :
    p.eval z = p.coeff 0 + p.coeff 1 * z + p.coeff 2 * z ^ 2 := by
  rw [eval_eq_sum_range' (Nat.lt_succ_iff.mpr hp), Finset.sum_range_succ, Finset.sum_range_succ,
    Finset.sum_range_one, pow_zero, pow_one, mul_one]

variable [Scalar K] [Sample K K]

/-- The polynomial of the segment from a knot to the next, in the fraction of the way. -/
noncomputable def piece (i : Interpolation) (x : Nat → K) (j : Nat) : K[X] :=
  match i with
  | .hold => C (x j)
  | .linear => C (x j) + C (x (j + 1) - x j) * X
  | .quadratic =>
    C (x j) + C (slope x j) * X + C (x (j + 1) - x j - slope x j) * X ^ 2
  | .cubic =>
    C (x j) + C (slope x j) * X
      + C (3 • (x (j + 1) - x j) - slope x (j + 1) - 2 • slope x j) * X ^ 2
      + C (2 • (x j - x (j + 1)) + slope x (j + 1) + slope x j) * X ^ 3

variable {i : Interpolation} {x : Nat → K} {j : Nat}

theorem two_eq (e : Exact K K) : (Scalar.ofRatio 2 1 : K) = 2 := by
  rw [e.ofRatio_eq]
  norm_num

theorem three_eq (e : Exact K K) : (Scalar.ofRatio 3 1 : K) = 3 := by
  rw [e.ofRatio_eq]
  norm_num

theorem slope_succ (e : Exact K K) (x : Nat → K) (j : Nat) :
    slope x (j + 1) = (x (j + 2) - x j) / 2 := by
  rw [slope, e.divide_eq, two_eq e, smul_eq_mul, div_eq_inv_mul]

theorem eval_piece (e : Exact K K) (i : Interpolation) (x : Nat → K) (j : Nat) (t : K) :
    (piece i x j).eval t = curve i x j t := by
  cases i with
  | hold => simp only [piece, curve, eval_C]
  | linear =>
    simp only [piece, curve, eval_add, eval_mul, eval_C, eval_X, e.scale_eq, smul_eq_mul]
    ring
  | quadratic =>
    simp only [piece, curve, eval_add, eval_mul, eval_pow, eval_C, eval_X, e.scale_eq, smul_eq_mul]
    ring
  | cubic =>
    simp only [piece, curve, eval_add, eval_mul, eval_pow, eval_C, eval_X, e.scale_eq, smul_eq_mul,
      two_eq e, three_eq e]
    ring

theorem eval_zero_piece (i : Interpolation) (x : Nat → K) (j : Nat) :
    (piece i x j).eval 0 = x j := by
  cases i <;> simp [piece]

theorem eval_one_piece (hi : i ≠ .hold) (x : Nat → K) (j : Nat) :
    (piece i x j).eval 1 = x (j + 1) := by
  cases i with
  | hold => exact absurd rfl hi
  | linear =>
    simp only [piece, eval_add, eval_mul, eval_C, eval_X]
    ring
  | quadratic | cubic =>
    simp only [piece, eval_add, eval_mul, eval_pow, eval_C, eval_X]
    ring

theorem output_eq_piece (e : Exact K K) (factor : Nat) (i : Interpolation) (x : Nat → K)
    (o : Nat) :
    output factor i x o = (piece i x (o / factor)).eval ((o % factor : Nat) / factor : K) := by
  unfold output
  split_ifs with hknot
  · rw [hknot, Nat.cast_zero, zero_div, eval_zero_piece]
  · rw [eval_piece e, e.ofRatio_eq, Int.cast_natCast]

theorem derivative_cubic_left (x : Nat → K) (j : Nat) :
    (derivative (piece .cubic x j)).eval 0 = slope x j := by
  simp [piece]

theorem derivative_cubic_right (x : Nat → K) (j : Nat) :
    (derivative (piece .cubic x j)).eval 1 = slope x (j + 1) := by
  simp [piece]
  ring

theorem eval_piece_linear {p : K[X]} (hp : p.natDegree ≤ 1) (h0 : x j = p.eval (j : K))
    (h1 : x (j + 1) = p.eval ((j + 1 : Nat) : K)) (t : K) :
    (piece .linear x j).eval t = p.eval (j + t) := by
  rw [eval_of_natDegree_le_one hp] at h0 h1 ⊢
  simp only [piece, eval_add, eval_mul, eval_C, eval_X]
  rw [h0, h1]
  push_cast
  ring

variable [CharZero K]

theorem slope_parabola (e : Exact K K) {p : K[X]} (hp : p.natDegree ≤ 2)
    (hprev : x j = p.eval (j : K)) (hnext : x (j + 2) = p.eval ((j + 2 : Nat) : K)) :
    slope x (j + 1) = p.coeff 1 + 2 * p.coeff 2 * (j + 1) := by
  rw [eval_of_natDegree_le_two hp] at hprev hnext
  rw [slope_succ e, hprev, hnext]
  push_cast
  field_simp
  ring

theorem eval_piece_quadratic (e : Exact K K) {p : K[X]} (hp : p.natDegree ≤ 2)
    (hx : ∀ k ≤ j + 2, x k = p.eval (k : K)) (t : K) :
    (piece .quadratic x (j + 1)).eval t = p.eval ((j + 1 : Nat) + t) := by
  have hslope := slope_parabola e hp (hx j (by omega)) (hx (j + 2) le_rfl)
  have h0 := hx (j + 1) (by omega)
  have h1 := hx (j + 2) le_rfl
  rw [eval_of_natDegree_le_two hp] at h0 h1 ⊢
  simp only [piece, eval_add, eval_mul, eval_pow, eval_C, eval_X]
  rw [hslope, h0, h1]
  push_cast
  ring

theorem eval_piece_cubic (e : Exact K K) {p : K[X]} (hp : p.natDegree ≤ 2)
    (hx : ∀ k ≤ j + 3, x k = p.eval (k : K)) (t : K) :
    (piece .cubic x (j + 1)).eval t = p.eval ((j + 1 : Nat) + t) := by
  have hleft := slope_parabola e hp (hx j (by omega)) (hx (j + 2) (by omega))
  have hright := slope_parabola e hp (hx (j + 1) (by omega)) (hx (j + 3) le_rfl)
  have h0 := hx (j + 1) (by omega)
  have h1 := hx (j + 2) (by omega)
  rw [eval_of_natDegree_le_two hp] at h0 h1 ⊢
  simp only [piece, eval_add, eval_mul, eval_pow, eval_C, eval_X]
  rw [hleft, hright, h0, h1]
  push_cast
  ring

/-- A segment draws a polynomial: by lines a line, by parabolas and cubics after the first
segment a parabola. -/
def Draws (i : Interpolation) (p : K[X]) (j : Nat) : Prop :=
  (i = .linear ∧ p.natDegree ≤ 1) ∨
    ((i = .quadratic ∨ i = .cubic) ∧ p.natDegree ≤ 2 ∧ 0 < j)

theorem eval_piece_of_draws (e : Exact K K) {p : K[X]} (hd : Draws i p j) {n : Nat}
    (hx : ∀ k < n, x k = p.eval (k : K)) (hj : j + i.lead < n) (t : K) :
    (piece i x j).eval t = p.eval (j + t) := by
  rcases hd with ⟨rfl, hp⟩ | ⟨hi, hp, hpos⟩
  · exact eval_piece_linear hp (hx j (by omega)) (hx (j + 1) hj) t
  · obtain ⟨j, rfl⟩ := Nat.exists_eq_succ_of_ne_zero hpos.ne'
    rcases hi with rfl | rfl
    · have hlast : j + 2 < n := hj
      exact eval_piece_quadratic e hp (fun k hk => hx k (by omega)) t
    · have hlast : j + 3 < n := hj
      exact eval_piece_cubic e hp (fun k hk => hx k (by omega)) t

end Spline

open Spline Polynomial

variable {K : Type} [Field K] [Scalar K] [Sample K K]

theorem stretch_getD_append {α : Type} (xs zs : List α) (d : α) :
    stretch ((xs ++ zs).getD · d) 0 xs.length = xs := by
  have hall := stretch_getD (xs ++ zs) d
  rw [List.length_append, stretch_add] at hall
  exact (List.append_inj hall (length_stretch _ _ _)).1

namespace Kernel

theorem spline_feedAll {u : Upsampler K} {xss yss : List (List K)} {l : Kernel K K}
    (h : (Kernel.spline u).feedAll xss = .ok (l, yss)) :
    l = .spline (RateConversion.feed Upsampler.step u xss.flatten).1 := by
  induction xss generalizing u yss with
  | nil =>
    cases h
    rfl
  | cons xs xss ih =>
    obtain ⟨_, hfeed, h⟩ := Checked.bind_eq_ok_iff.mp h
    cases hfeed
    obtain ⟨_, hrest, h⟩ := Checked.bind_eq_ok_iff.mp h
    cases h
    rw [ih hrest, List.flatten_cons, feed_append]

theorem lt_length_fed_iff {u : Upsampler K} (hf : 0 < u.factor) (xs : List K) (o : Nat) :
    o < ((Kernel.spline u.reset : Kernel K K).fed xs).2.length ↔
      o / u.factor + u.interpolation.lead < xs.length := by
  have hlen := (Upsampler.feed_step (u := u.reset) hf xs).2.2
  have hcount : u.reset.completed xs.length =
      (xs.length - u.interpolation.lead) * u.factor := by
    change (xs.length + min 0 u.interpolation.lead - u.interpolation.lead) * u.factor = _
    rw [Nat.zero_min, Nat.add_zero]
  change o < (RateConversion.feed Upsampler.step u.reset xs).2.length ↔ _
  rw [hlen, hcount, ← Nat.div_lt_iff_lt_mul hf, Nat.lt_sub_iff_add_lt]

theorem spline_delivers (e : Exact K K) {u : Upsampler K} (hf : 0 < u.factor)
    (leading : Nat) (xss : List (List K)) :
    ((Kernel.spline u : Kernel K K).reset leading).Delivers xss
      (fun o => o / u.factor + u.interpolation.lead)
      (fun o => (piece u.interpolation (xss.flatten.getD · 0) (o / u.factor)).eval
        ((o % u.factor : Nat) / u.factor : K)) := by
  have htakes : ((Kernel.spline u : Kernel K K).reset leading).TakesAll xss := trivial
  apply htakes.delivers
  · exact lt_length_fed_iff hf
  · intro o y hy
    rw [← output_eq_piece e]
    have hstart := Traces.start u.factor u.interpolation (xss.flatten.getD · 0)
    exact feed_getD (I := Traces u.factor u.interpolation (xss.flatten.getD · 0))
      (Q := fun o y => y = output u.factor u.interpolation (xss.flatten.getD · 0) o)
      (fun p o u h => h.step hf) (fun p o u h k y hy => h.eq_output hf hy) hstart o hy

theorem slope_between_calls {u : Upsampler K} (hf : 0 < u.factor)
    (hi : u.interpolation = .cubic) (leading : Nat) (xss : List (List K)) (n : Nat) :
    ∃ v yss, ((Kernel.spline u : Kernel K K).reset leading).feedAll (xss.take n) =
        .ok (.spline v, yss) ∧
      v.slope = slope (xss.flatten.getD · 0) ((xss.take n).flatten.length - 2) := by
  have htakes : ((Kernel.spline u : Kernel K K).reset leading).TakesAll (xss.take n) := trivial
  obtain ⟨l, yss, hrun, -⟩ := htakes.feedAll
  have hsplit : xss.flatten = (xss.take n).flatten ++ (xss.drop n).flatten := by
    rw [← List.flatten_append, List.take_append_drop]
  have hstart := Traces.start u.factor u.interpolation (xss.flatten.getD · 0)
  have htraces := feed_stretch_state
    (I := Traces u.factor u.interpolation (xss.flatten.getD · 0))
    (fun p o u h => h.step hf) hstart (xss.take n).flatten.length
  -- The trace is of the whole input, of which the calls so far are the first stretch.
  have hcalls : stretch (xss.flatten.getD · 0) 0 (xss.take n).flatten.length =
      (xss.take n).flatten := by
    rw [hsplit]
    exact stretch_getD_append _ _ 0
  rw [hcalls, Nat.zero_add] at htraces
  cases spline_feedAll hrun
  exact ⟨_, yss, hrun, htraces.threaded hi⟩

theorem eq_eval_of_draws [CharZero K] (e : Exact K K) {u : Upsampler K} (hf : 0 < u.factor)
    {leading : Nat} {xss yss : List (List K)} {l : Kernel K K}
    (hrun : ((Kernel.spline u : Kernel K K).reset leading).feedAll xss = .ok (l, yss))
    {p : K[X]} (hp : ∀ (j : Nat) (x : K), xss.flatten[j]? = some x → x = p.eval (j : K))
    {j i : Nat} {y : K} (hi : i < u.factor) (hy : yss.flatten[j * u.factor + i]? = some y)
    (hd : Draws u.interpolation p j) : y = p.eval (j + i / u.factor : K) := by
  obtain ⟨l', yss', hrun', hlen, hdue, hvalue⟩ := spline_delivers e hf leading xss
  cases hrun.symm.trans hrun'
  obtain ⟨hknot, hplace⟩ := div_mod_place hi j
  -- The output is there, so all the samples that its segment looks at are.
  have hlast : (j * u.factor + i) / u.factor + u.interpolation.lead < xss.flatten.length := by
    have hall := hdue xss.length (j * u.factor + i)
    rw [List.take_of_length_le hlen.le, List.take_length] at hall
    exact hall.mp (List.getElem?_eq_some_iff.mp hy).1
  have hx : ∀ k < xss.flatten.length, xss.flatten.getD k 0 = p.eval (k : K) := by
    intro k hk
    rw [List.getD_eq_getElem _ _ hk]
    exact hp k _ (List.getElem?_eq_getElem hk)
  rw [hknot] at hlast
  have hpiece := hvalue _ y hy
  simp only [hknot, hplace] at hpiece
  rw [hpiece]
  exact eval_piece_of_draws e hd hx hlast _

/-- Where arithmetic is exact, an upsampler delivers the values of its segments' polynomials at
the fractions between the knots, however its input is parted. A segment ends on its right knot,
and two cubic ones meet with one slope, which is kept where a call ends between them. If the
input has the values of a polynomial that the segments draw, so has the output. -/
theorem delivers_pieces [CharZero K] (e : Exact K K) {u : Upsampler K} (hf : 0 < u.factor)
    (leading : Nat) (xss : List (List K)) :
    ((Kernel.spline u : Kernel K K).reset leading).Delivers xss
        (fun o => o / u.factor + u.interpolation.lead)
        (fun o => (piece u.interpolation (xss.flatten.getD · 0) (o / u.factor)).eval
          ((o % u.factor : Nat) / u.factor : K)) ∧
      (u.interpolation ≠ .hold → ∀ j,
        (piece u.interpolation (xss.flatten.getD · 0) j).eval 1 = xss.flatten.getD (j + 1) 0) ∧
      (u.interpolation = .cubic → ∀ j,
        (derivative (piece u.interpolation (xss.flatten.getD · 0) j)).eval 1 =
          (derivative (piece u.interpolation (xss.flatten.getD · 0) (j + 1))).eval 0) ∧
      (u.interpolation = .cubic → ∀ n, ∃ v yss,
        ((Kernel.spline u : Kernel K K).reset leading).feedAll (xss.take n) =
          .ok (.spline v, yss) ∧
        v.slope = (derivative (piece u.interpolation (xss.flatten.getD · 0)
          ((xss.take n).flatten.length - 2))).eval 0) ∧
      ∀ (l : Kernel K K) (yss : List (List K)),
        ((Kernel.spline u : Kernel K K).reset leading).feedAll xss = .ok (l, yss) →
        ∀ p : K[X], (∀ (j : Nat) (x : K), xss.flatten[j]? = some x → x = p.eval (j : K)) →
        ∀ (j i : Nat) (y : K), i < u.factor → yss.flatten[j * u.factor + i]? = some y →
          Draws u.interpolation p j → y = p.eval (j + i / u.factor : K) := by
  refine ⟨spline_delivers e hf leading xss, ?_, ?_, ?_, ?_⟩
  · intro hi j
    exact eval_one_piece hi _ j
  · intro hi j
    rw [hi, derivative_cubic_right, derivative_cubic_left]
  · intro hi n
    obtain ⟨v, yss, hrun, hslope⟩ := slope_between_calls hf hi leading xss n
    rw [hi, derivative_cubic_left]
    exact ⟨v, yss, hrun, hslope⟩
  · intro l yss hrun p hp j i y hi hy hd
    exact eq_eval_of_draws e hf hrun hp hi hy hd

theorem delivers_pieces_of_squares :
    ∃ l yss, ((Kernel.spline (.start 2 .cubic) : Kernel ℚ ℚ).reset 0).feedAll
        [[0, 1, 4], [9, 16]] = .ok (l, yss) ∧
      yss.flatten[3]? = some (9 / 4) := by
  obtain ⟨⟨l, yss, hrun, hlen, hdue, -⟩, -, -, -, hdraws⟩ :=
    delivers_pieces Rational.exact (u := .start 2 .cubic) (show 0 < 2 by decide) 0
      [[0, 1, 4], [9, 16]]
  have hlt : 3 < yss.flatten.length := by
    have hall := (hdue 2 3).mpr (by decide)
    rwa [List.take_of_length_le (show yss.length ≤ 2 from hlen.le)] at hall
  have hsquares : ∀ (j : Nat) (x : ℚ), [[0, 1, 4], [9, 16]].flatten[j]? = some x →
      x = (X ^ 2 : ℚ[X]).eval (j : ℚ) := by
    intro j x hx
    rw [eval_pow, eval_X]
    match j with
    | 0 | 1 | 2 | 3 | 4 =>
      cases hx
      norm_num
  have hy := List.getElem?_eq_getElem hlt
  refine ⟨l, yss, hrun, hy.trans (congr_arg some ?_)⟩
  have hvalue := hdraws l yss hrun (X ^ 2) hsquares 1 1 _ (show 1 < 2 by decide) hy
    (Or.inr ⟨Or.inr rfl, natDegree_X_pow_le 2, Nat.one_pos⟩)
  rw [hvalue, eval_pow, eval_X, show (Upsampler.start 2 .cubic : Upsampler ℚ).factor = 2 from rfl]
  norm_num

end Kernel

end RateConversion
