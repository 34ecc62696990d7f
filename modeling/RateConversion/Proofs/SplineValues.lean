import RateConversion.Proofs.Calls

/-! Interpolation as a function of the whole input. A segment starts on its left knot and goes
on with the values of one curve at the fractions between the knots. The slope of a curve at a
knot is that between the neighbours of the knot, and none at the first one. The upsampler,
which keeps two knots and one slope, gives these segments in their order, each with the last
sample that it waits for. -/

namespace RateConversion

namespace Upsampler

variable {α ρ : Type} [Scalar ρ]

theorem eq_of_getElem?_between {factor i : Nat} {knot y : α} {f : ρ → α}
    (h : (between factor knot f)[i]? = some y) :
    y = if i = 0 then knot else f (Scalar.ofRatio (i : Nat) factor) := by
  cases i with
  | zero =>
    cases h
    rfl
  | succ i =>
    rw [if_neg (Nat.succ_ne_zero i)]
    have hlt := (List.getElem?_eq_some_iff.mp h).1
    rw [between, List.length_cons, List.length_map, List.length_range] at hlt
    rw [between, List.getElem?_cons_succ, List.getElem?_map,
      List.getElem?_range (by omega)] at h
    cases h
    rfl

theorem replicate_eq_between {factor : Nat} (hf : 0 < factor) (knot : α) :
    List.replicate factor knot = between factor knot fun _ : ρ => knot := by
  obtain ⟨n, rfl⟩ := Nat.exists_eq_succ_of_ne_zero hf.ne'
  rw [between, Nat.succ_sub_one, List.map_const', List.length_range]
  rfl

end Upsampler

namespace Spline

variable {α ρ : Type} [Zero α] [Sub α] [Scalar ρ] [Sample α ρ]

theorem div_mod_place {factor i : Nat} (hi : i < factor) (j : Nat) :
    (j * factor + i) / factor = j ∧ (j * factor + i) % factor = i := by
  refine ⟨?_, ?_⟩
  · rw [Nat.mul_comm, Nat.mul_add_div (Nat.zero_lt_of_lt hi), Nat.div_eq_of_lt hi, Nat.add_zero]
  · rw [Nat.mul_comm, Nat.mul_add_mod, Nat.mod_eq_of_lt hi]

def slope (x : Nat → α) : Nat → α
  | 0 => 0
  | j + 1 => divide (x (j + 2) - x j) (Scalar.ofRatio 2 1 : ρ)

section Curves

variable [Add α] [Mul ρ]

/-- The curve from a knot to the next, at the fraction `t` of the way. -/
def curve (i : Interpolation) (x : Nat → α) (j : Nat) (t : ρ) : α :=
  match i with
  | .hold => x j
  | .linear => x j + scale (x (j + 1) - x j) t
  | .quadratic => x j + scale (slope x j) t + scale (x (j + 1) - x j - slope x j) (t * t)
  | .cubic =>
    x j + scale (slope x j) t
      + scale (scale (x (j + 1) - x j) (Scalar.ofRatio 3 1 : ρ) - slope x (j + 1)
          - scale (slope x j) (Scalar.ofRatio 2 1 : ρ)) (t * t)
      + scale (scale (x j - x (j + 1)) (Scalar.ofRatio 2 1 : ρ) + slope x (j + 1) + slope x j)
          (t * t * t)

/-- The output number `o`. The one on a knot is taken from it as it is. -/
def output (factor : Nat) (i : Interpolation) (x : Nat → α) (o : Nat) : α :=
  if o % factor = 0 then x (o / factor)
  else curve i x (o / factor) (Scalar.ofRatio (o % factor : Nat) factor)

def segment (factor : Nat) (i : Interpolation) (x : Nat → α) (j : Nat) : List α :=
  Upsampler.between factor (x j) (curve i x j)

theorem eq_output_of_segment {factor i j : Nat} {kind : Interpolation} {x : Nat → α} {y : α}
    (hi : i < factor) (h : (segment factor kind x j : List α)[i]? = some y) :
    y = output factor kind x (j * factor + i) := by
  obtain ⟨hknot, hplace⟩ := div_mod_place hi j
  rw [output, hknot, hplace]
  exact Upsampler.eq_of_getElem?_between h

end Curves

structure Traces (factor : Nat) (i : Interpolation) (x : Nat → α) (p o : Nat)
    (u : Upsampler α) : Prop where
  joined : Reference.Interpolates x factor i 0 p o u
  threaded : i = .cubic → u.slope = slope x (p - 2)

namespace Traces

variable {factor p o : Nat} {i : Interpolation} {x : Nat → α} {u : Upsampler α}

theorem start (factor : Nat) (i : Interpolation) (x : Nat → α) :
    Traces factor i x 0 0 (.start factor i) := by
  refine ⟨⟨rfl, rfl, le_rfl, rfl, ?_, ?_⟩, fun _ => rfl⟩
  · rw [Nat.zero_sub, Nat.max_self, Nat.zero_mul]
  · intro _ h
    omega

theorem knots_pair (h : Traces factor i x (p + 2) o u) : u.knots = .pair (x p) (x (p + 1)) := by
  have hknots := h.joined.knots
  rw [if_neg (by omega), if_neg (by omega)] at hknots
  exact hknots

theorem knots_single (h : Traces factor i x 1 o u) : u.knots = .single (x 0) := by
  have hknots := h.joined.knots
  rw [if_neg (by omega), if_pos rfl] at hknots
  exact hknots

variable [Add α] [Mul ρ]

theorem segment?_eq {j : Nat} (hf : 0 < factor) (h : Traces factor i x (j + i.lead) o u) :
    ∃ s, u.segment? (x (j + i.lead)) = some (segment factor i x j, s) := by
  have htimes := h.joined.times
  have hkind := h.joined.kind
  unfold Upsampler.segment?
  rw [htimes, hkind]
  cases i with
  | hold =>
    have hflat := Upsampler.replicate_eq_between (ρ := ρ) hf (x j)
    exact ⟨_, congr_arg (fun ys => some (ys, u.slope)) hflat⟩
  | linear =>
    cases j with
    | zero =>
      rw [h.knots_single]
      exact ⟨_, rfl⟩
    | succ j =>
      rw [h.knots_pair]
      exact ⟨_, rfl⟩
  | quadratic =>
    cases j with
    | zero =>
      rw [h.knots_single]
      exact ⟨_, rfl⟩
    | succ j =>
      rw [h.knots_pair]
      exact ⟨_, rfl⟩
  | cubic =>
    have hslope : u.slope = slope x j := h.threaded rfl
    rw [h.knots_pair, hslope]
    exact ⟨_, rfl⟩

theorem threaded_step (h : Traces factor .cubic x p o u) :
    (u.step (x p)).1.slope = slope x (p + 1 - 2) := by
  have hkind := h.joined.kind
  have hslope := h.threaded rfl
  unfold Upsampler.step Upsampler.segment?
  rw [hkind]
  match p, h with
  | 0, h =>
    have hknots : u.knots = .empty := h.joined.knots
    rw [hknots]
    exact hslope
  | 1, h =>
    rw [h.knots_single]
    exact hslope
  | p + 2, h =>
    rw [h.knots_pair]
    rfl

theorem step (hf : 0 < factor) (h : Traces factor i x p o u) :
    Traces factor i x (p + 1) (o + (u.step (x p)).2.length) (u.step (x p)).1 := by
  refine ⟨h.joined.step hf, ?_⟩
  rintro rfl
  exact h.threaded_step

theorem eq_output (hf : 0 < factor) (h : Traces factor i x p o u) {k : Nat} {y : α}
    (hy : (u.step (x p)).2[k]? = some y) : y = output factor i x (o + k) := by
  have hlen := (Upsampler.step_spec (h.joined.times ▸ hf) (x p)).2.2.2
  rw [h.joined.kind, h.joined.times, h.joined.size] at hlen
  have hk := (List.getElem?_eq_some_iff.mp hy).1
  by_cases hlead : i.lead ≤ p
  · obtain ⟨j, rfl⟩ := Nat.exists_eq_add_of_le' hlead
    have hout : o = j * factor := by
      rw [h.joined.out, Nat.add_sub_cancel, Nat.zero_max]
    obtain ⟨s, hs⟩ := h.segment?_eq hf
    have hseg : (u.step (x (j + i.lead))).2 = segment factor i x j := by
      unfold Upsampler.step
      rw [hs]
    have hlt : k < factor := by
      split_ifs at hlen with hknots
      · omega
      · omega
    rw [hseg] at hy
    rw [hout]
    exact eq_output_of_segment hlt hy
  · rw [if_neg (by omega)] at hlen
    omega

end Traces

end Spline

variable {α ρ : Type} [Zero α] [Add α] [Sub α] [Add ρ] [Mul ρ] [Scalar ρ] [Sample α ρ]

/-- From a reset on, an upsampler delivers the samples of its spline. -/
theorem Kernel.delivers_spline {u : Upsampler α} (hf : 0 < u.factor) (leading : Nat)
    (xss : List (List α)) :
    ((Kernel.spline u : Kernel α ρ).reset leading).Delivers xss
      (fun o => o / u.factor + u.interpolation.lead)
      (Spline.output u.factor u.interpolation (xss.flatten.getD · 0)) := by
  have htakes : ((Kernel.spline u : Kernel α ρ).reset leading).TakesAll xss := trivial
  apply htakes.delivers
  · intro xs o
    change o < (RateConversion.feed Upsampler.step u.reset xs).2.length ↔ _
    have hlen := (Upsampler.feed_step (u := u.reset) hf xs).2.2
    have hcount : u.reset.completed xs.length =
        (xs.length - u.interpolation.lead) * u.factor := by
      change (xs.length + min 0 u.interpolation.lead - u.interpolation.lead) * u.factor = _
      rw [Nat.zero_min, Nat.add_zero]
    rw [hlen, hcount, ← Nat.div_lt_iff_lt_mul hf, Nat.lt_sub_iff_add_lt]
  · intro o y hy
    have hstart := Spline.Traces.start u.factor u.interpolation (xss.flatten.getD · 0)
    exact feed_getD (I := Spline.Traces u.factor u.interpolation (xss.flatten.getD · 0))
      (Q := fun o y => y = Spline.output u.factor u.interpolation (xss.flatten.getD · 0) o)
      (fun p o u h => h.step hf) (fun p o u h k y hy => h.eq_output hf hy) hstart o hy

theorem Kernel.delivers_spline_over_call_end :
    ((Kernel.spline (.start 2 .cubic) : Kernel Float Float).reset 0).Delivers [[1, 2, 4], [8, 7]]
      (fun o => o / 2 + 2) (Spline.output 2 .cubic ([1, 2, 4, 8, 7].getD · 0)) :=
  delivers_spline (u := .start 2 .cubic) (show 0 < 2 by decide) 0 [[1, 2, 4], [8, 7]]

end RateConversion
