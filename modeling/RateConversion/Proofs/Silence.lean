import RateConversion.Proofs.Serving
import RateConversion.Proofs.Weights

/-! Zeros in a silent kernel. Where arithmetic on zeros gives zeros, a kernel that holds
nothing but zeros gives zeros for zeros, and passing over them at once leaves the kernel
as feeding them would. -/

namespace RateConversion

/-- Arithmetic in which nothing but zero passes for zero, and zeros give zeros. -/
structure InertZeros (α ρ : Type) [Zero α] [Add α] [Sub α] [Scalar ρ] [Sample α ρ] : Prop where
  eq_zero (x : α) : isZero x = true → x = 0
  add_zero : (0 : α) + 0 = 0
  sub_zero : (0 : α) - 0 = 0
  scale_zero (t : ρ) : scale (0 : α) t = 0
  divide_weight (n : Nat) : 0 < n → divide (0 : α) (TaperedMean.halves n : ρ) = 0
  divide_two : divide (0 : α) (Upsampler.two : ρ) = 0

theorem feed_replicate {σ α β : Type} {step : σ → α → σ × List β} {P : σ → Prop} {x : α}
    {y : β} (h : ∀ s, P s → P (step s x).1 ∧ ∀ z ∈ (step s x).2, z = y) {s : σ} (hs : P s)
    (n : Nat) :
    P (feed step s (List.replicate n x)).1 ∧ ∀ z ∈ (feed step s (List.replicate n x)).2, z = y := by
  induction n generalizing s with
  | zero => exact ⟨hs, by simp [feed_nil]⟩
  | succ n ih =>
    obtain ⟨h1, h2⟩ := h s hs
    obtain ⟨h3, h4⟩ := ih h1
    rw [List.replicate_succ, feed_cons]
    refine ⟨h3, fun z hz => ?_⟩
    rcases List.mem_append.mp hz with hz | hz
    · exact h2 z hz
    · exact h4 z hz

theorem TickClock.pick_zero {α : Type} [Zero α] (c : TickClock) :
    ∀ z ∈ (c.pick (0 : α)).2, z = 0 := by
  simp only [pick]
  split_ifs <;> simp

variable {α ρ : Type} [Zero α] [Add α] [Sub α] [Scalar ρ] [Sample α ρ]

namespace TaperedMean

variable [Add ρ] {m : TaperedMean α ρ}

/-- What silence and its weight amount to, and that zeros keep it. -/
structure Silent (m : TaperedMean α ρ) : Prop where
  centred : m.Centred
  clock : m.clock.Sound
  exact : ExactUpTo ρ (2 * m.clock.stride)
  weighed : ∃ since, m.Weighed since
  sum : m.sum = 0

theorem Silent.step (hz : InertZeros α ρ) (h : m.Silent) :
    (m.step 0).1.Silent ∧ ∀ z ∈ (m.step (0 : α)).2, z = 0 := by
  obtain ⟨since, hw⟩ := h.weighed
  have hclock := step_clock m (0 : α)
  have hsum : (m.take 0).sum = 0 := by
    simp only [take]
    split_ifs
    · dsimp only
      rw [h.sum, hz.scale_zero, hz.add_zero]
    · exact h.sum
  have htaken := weight_take h.centred h.clock h.exact hw (0 : α)
  refine ⟨⟨?_, ?_, ?_, ⟨_, weighed_step h.centred h.clock h.exact hw 0⟩, ?_⟩, ?_⟩
  · simp only [Centred]
    rw [hclock]
    exact h.centred
  · rw [hclock, TickClock.next_eq_after h.clock]
    exact TickClock.after_sound h.clock 1
  · rw [hclock]
    exact h.exact
  · simp only [TaperedMean.step, restart]
    split_ifs
    · exact hz.scale_zero _
    · rfl
    · exact hsum
  · simp only [TaperedMean.step]
    rw [take_clock]
    split_ifs with hr
    · have hphase := beq_iff_eq.mp hr
      have hpos : 0 < m.windowWeight since m.clock.phase := by
        rw [windowWeight_succ h.centred h.clock.stride_pos hw.begun (by omega) hphase.le]
        exact Nat.lt_of_lt_of_le (placeWeight_pos m _) (Nat.le_add_left _ _)
      intro z hmem
      rw [List.mem_singleton.mp hmem, hsum, htaken, hz.divide_weight _ hpos]
    · simp

theorem Silent.fed_zeros (hz : InertZeros α ρ) (h : m.Silent) (n : Nat) :
    (feed TaperedMean.step m (List.replicate n (0 : α))).1.Silent ∧
      ∀ z ∈ (feed TaperedMean.step m (List.replicate n (0 : α))).2, z = 0 :=
  feed_replicate (fun _ hm => hm.step hz) h n

theorem Silent.eq_of_skip (hz : InertZeros α ρ) (h : m.Silent) {n : Nat} (hn : n < 2 ^ 64)
    {m' : TaperedMean α ρ} (hskip : m.skip n = .ok m') :
    m' = (feed TaperedMean.step m (List.replicate n (0 : α))).1 := by
  obtain ⟨since, hw⟩ := h.weighed
  have hfeed := weighed_feed h.centred h.clock h.exact hw (List.replicate n (0 : α))
  have hclock := (feed_step h.clock (List.replicate n (0 : α))).1
  rw [List.length_replicate] at hfeed hclock
  have hclock' := clock_skip h.clock hn hskip
  obtain ⟨hsum, hweight⟩ := weighed_skip h.centred h.clock h.exact hw hn hskip
  exact hweight.unique (hclock'.trans hclock.symm) (hsum.trans (h.fed_zeros hz n).1.sum.symm) hfeed

end TaperedMean

theorem Taps.apply_zero (hz : InertZeros α ρ) (t : Taps ρ) {read : Nat → α}
    (h : ∀ i, read i = 0) (c : Nat) : t.apply read c = 0 := by
  have key (m : Nat) (taps : List ρ) : addPairs read c m taps (0 : α) = 0 := by
    induction taps generalizing m with
    | nil => rfl
    | cons tap taps ih =>
      rw [addPairs, h, h, hz.add_zero, hz.scale_zero, hz.add_zero, ih]
  rw [apply, h, hz.scale_zero, key]

namespace SincFilter

variable {f : SincFilter α ρ}

theorem outputs_zero (hz : InertZeros α ρ) (hs : f.isSilent = true) (n : Nat) :
    ∀ z ∈ f.outputs (List.replicate n (0 : α)), z = 0 := by
  have hzero : ∀ x ∈ f.history.toList ++ List.replicate n 0, x = 0 := by
    intro x hx
    rcases List.mem_append.mp hx with hx | hx
    · exact hz.eq_zero x (List.all_eq_true.mp hs x hx)
    · exact List.eq_of_mem_replicate hx
  intro z hmem
  obtain ⟨k, -, rfl⟩ := List.mem_map.mp hmem
  refine Taps.apply_zero hz _ (fun i => ?_) _
  rw [List.getD_eq_getElem?_getD]
  cases hi : (f.history.toList ++ List.replicate n 0)[i]? with
  | none => rfl
  | some x => exact hzero x (List.mem_of_getElem? hi)

end SincFilter

namespace Upsampler

theorem foldl_push_replicate {α : Type} (k : Knots α) (x : α) (n : Nat) :
    (List.replicate n x).foldl (fun k x => k.push x) k =
      (List.replicate (min n 2) x).foldl (fun k x => k.push x) k := by
  have hpair (n : Nat) :
      (List.replicate n x).foldl (fun k x => k.push x) (Knots.pair x x) = .pair x x := by
    induction n with
    | zero => rfl
    | succ n ih => exact ih
  have htwo : (k.push x).push x = .pair x x := by cases k <;> rfl
  rcases n with _ | _ | n
  · rfl
  · rfl
  · rw [Nat.min_eq_right (Nat.le_add_left 2 n)]
    simp only [List.replicate_succ, List.foldl_cons, List.replicate_zero, List.foldl_nil, htwo,
      hpair]

theorem between_zero {α ρ : Type} [Zero α] [Scalar ρ] {factor : Nat} {f : ρ → α}
    (h : ∀ t, f t = 0) : ∀ z ∈ between factor (0 : α) f, z = 0 := by
  intro z hz
  rcases List.mem_cons.mp hz with rfl | hz
  · rfl
  · obtain ⟨i, -, rfl⟩ := List.mem_map.mp hz
    exact h _

theorem line_zero (hz : InertZeros α ρ) (factor : Nat) :
    ∀ z ∈ line factor (0 : α) 0, z = 0 := by
  simp only [line]
  refine between_zero fun t => ?_
  rw [hz.sub_zero, hz.scale_zero, hz.add_zero]

structure Silent (u : Upsampler α) : Prop where
  knots : ∀ x ∈ u.knots.toList, x = 0
  slope : u.slope = 0

variable {u : Upsampler α}

theorem silent_of_isSilent (hz : InertZeros α ρ) (h : u.isSilent = true) : u.Silent := by
  simp only [isSilent] at h
  rw [Bool.and_eq_true] at h
  exact ⟨fun x hx => hz.eq_zero x (List.all_eq_true.mp h.1 x hx), hz.eq_zero _ h.2⟩

variable [Mul ρ]

theorem parabola_zero (hz : InertZeros α ρ) (factor : Nat) :
    ∀ z ∈ parabola factor (0 : α) 0 0, z = 0 := by
  simp only [parabola]
  refine between_zero fun t => ?_
  simp only [hz.sub_zero, hz.scale_zero, hz.add_zero]

theorem cubic_zero (hz : InertZeros α ρ) (factor : Nat) :
    ∀ z ∈ cubic factor (0 : α) 0 0 0, z = 0 := by
  simp only [cubic]
  refine between_zero fun t => ?_
  simp only [hz.sub_zero, hz.scale_zero, hz.add_zero]

theorem Silent.segment (hz : InertZeros α ρ) (h : u.Silent) {ys : List α} {slope : α}
    (hs : u.segment? 0 = some (ys, slope)) : slope = 0 ∧ ∀ z ∈ ys, z = 0 := by
  obtain ⟨factor, i, k, s⟩ := u
  obtain ⟨hk, rfl⟩ := h
  cases i with
  | hold =>
    cases hs
    exact ⟨rfl, fun z hmem => List.eq_of_mem_replicate hmem⟩
  | linear =>
    cases k with
    | empty => cases hs
    | single a | pair _ a =>
      cases hs
      cases hk a (by simp [Knots.toList])
      exact ⟨rfl, line_zero hz factor⟩
  | quadratic =>
    cases k with
    | empty => cases hs
    | single a =>
      cases hs
      cases hk a (by simp [Knots.toList])
      exact ⟨rfl, parabola_zero hz factor⟩
    | pair p a =>
      cases hs
      cases hk p (by simp [Knots.toList])
      cases hk a (by simp [Knots.toList])
      rw [hz.sub_zero, hz.divide_two]
      exact ⟨rfl, parabola_zero hz factor⟩
  | cubic =>
    cases k with
    | empty | single => cases hs
    | pair a b =>
      cases hs
      cases hk a (by simp [Knots.toList])
      cases hk b (by simp [Knots.toList])
      rw [hz.sub_zero, hz.divide_two]
      exact ⟨rfl, cubic_zero hz factor⟩

theorem Silent.step (hz : InertZeros α ρ) (h : u.Silent) :
    (u.step 0).1.Silent ∧ ∀ z ∈ (u.step (0 : α)).2, z = 0 := by
  have hknots : ∀ x ∈ (u.knots.push 0).toList, x = 0 := by
    intro x hx
    rw [Knots.toList_push] at hx
    rcases List.mem_append.mp (List.mem_of_mem_drop hx) with hx | hx
    · exact h.knots x hx
    · exact List.mem_singleton.mp hx
  simp only [Upsampler.step]
  cases hs : u.segment? 0 with
  | none => exact ⟨⟨hknots, h.slope⟩, by simp⟩
  | some p =>
    obtain ⟨h1, h2⟩ := h.segment hz hs
    exact ⟨⟨hknots, h1⟩, h2⟩

theorem Silent.skip (hz : InertZeros α ρ) (hf : 0 < u.factor) (h : u.Silent) (n : Nat) :
    u.skip n = (feed Upsampler.step u (List.replicate n (0 : α))).1 ∧
      ∀ z ∈ (feed Upsampler.step u (List.replicate n (0 : α))).2, z = 0 := by
  obtain ⟨hs, hout⟩ := feed_replicate (P := Silent) (fun u hu => hu.step hz) h n
  obtain ⟨h1, h2, -⟩ := feed_step hf (List.replicate n (0 : α))
  have h3 := knots_feed u (List.replicate n (0 : α))
  refine ⟨?_, hout⟩
  simp only [Upsampler.skip]
  have hslope := h.slope.trans hs.slope.symm
  cases hfed : (feed Upsampler.step u (List.replicate n (0 : α))).1 with
  | mk factor interpolation knots slope =>
    rw [hfed] at h1 h2 h3 hslope
    rw [Upsampler.mk.injEq]
    exact ⟨h1.symm, h2.symm, (foldl_push_replicate u.knots 0 n).symm.trans h3.symm, hslope⟩

end Upsampler

end RateConversion
