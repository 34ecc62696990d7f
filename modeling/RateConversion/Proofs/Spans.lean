import Mathlib.Data.List.GetD
import RateConversion.Kernel
import RateConversion.Proofs.Ring
import RateConversion.Proofs.Ticks

/-! What a span of samples does to each kernel: where its clock ends, how many samples it
gives and, for the sinc filter, which. The outputs of two spans fed together are those of
one span after the other. -/

namespace RateConversion

theorem feed_clock {σ α β : Type} {step : σ → α → σ × List β} (clock : σ → TickClock)
    (hnext : ∀ s x, clock (step s x).1 = (clock s).next)
    (hlen : ∀ s x, (step s x).2.length = if (clock s).ready then 1 else 0)
    {s : σ} (hs : (clock s).Sound) (xs : List α) :
    clock (feed step s xs).1 = (clock s).after xs.length ∧
      (feed step s xs).2.length = (clock s).count xs.length := by
  induction xs generalizing s with
  | nil => exact ⟨TickClock.after_zero.symm, rfl⟩
  | cons x xs ih =>
    have h1 : clock (step s x).1 = (clock s).after 1 := by
      rw [hnext, TickClock.next_eq_after hs]
    have h2 : (step s x).2.length = (clock s).count 1 := by
      rw [hlen, TickClock.count_one hs]
    obtain ⟨h3, h4⟩ := ih (h1 ▸ TickClock.after_sound hs 1)
    rw [feed_cons, List.length_cons, Nat.add_comm xs.length 1]
    refine ⟨?_, ?_⟩
    · rw [h3, h1, TickClock.after_add hs]
    · rw [List.length_append, h2, h4, h1, TickClock.count_add hs]

namespace TickClock

theorem feed_pick {α : Type} {c : TickClock} (h : c.Sound) (xs : List α) :
    (feed pick c xs).1 = c.after xs.length ∧ (feed pick c xs).2.length = c.count xs.length := by
  refine feed_clock id (fun _ _ => rfl) (fun c x => ?_) h xs
  simp only [pick, id]
  split_ifs <;> rfl

/-- A block is thinned out to the samples from the wait on, a stride apart. -/
theorem getElem?_feed_pick {α : Type} {c : TickClock} (h : c.Sound) (xs : List α) (i : Nat) :
    (feed pick c xs).2[i]? = xs[c.wait + i * c.stride]? := by
  induction xs generalizing c i with
  | nil => rfl
  | cons x xs ih =>
    have hwait := wait_after h 1
    have hcount := count_one h
    have hrest (i : Nat) := ih (after_sound h 1) i
    rw [← next_eq_after h] at hwait hrest
    have hstride : c.next.stride = c.stride := rfl
    rw [feed_cons]
    simp only [pick]
    split_ifs at hcount ⊢ with hready
    · rw [(ready_iff h).mp hready, hcount, Nat.zero_add, Nat.one_mul] at hwait
      rw [(ready_iff h).mp hready, Nat.zero_add]
      cases i with
      | zero => rw [Nat.zero_mul]; rfl
      | succ i =>
        have hplace : (i + 1) * c.stride = c.next.wait + i * c.next.stride + 1 := by
          rw [hstride, Nat.add_one_mul]
          omega
        rw [hplace, List.getElem?_cons_succ, ← hrest]
        rfl
    · rw [hcount, Nat.zero_mul, Nat.add_zero] at hwait
      have hplace : c.wait + i * c.stride = c.next.wait + i * c.next.stride + 1 := by
        rw [hstride]
        omega
      rw [hplace, List.getElem?_cons_succ, ← hrest]
      rfl

theorem advance_eq_feed_pick {α : Type} {c : TickClock} (h : c.Sound) {xs : List α}
    (hxs : xs.length < 2 ^ 62) :
    c.advance xs.length (c.count xs.length) = .ok (feed pick c xs).1 := by
  rw [advance_eq h hxs, (feed_pick h xs).1]

end TickClock

namespace TaperedMean

variable {α ρ : Type} [Add α] [Add ρ] [Scalar ρ] [Sample α ρ]

theorem take_clock (m : TaperedMean α ρ) (x : α) : (m.take x).clock = m.clock := by
  simp only [take]
  split_ifs <;> rfl

variable [Zero α]

theorem step_clock (m : TaperedMean α ρ) (x : α) : (m.step x).1.clock = m.clock.next := by
  simp only [step]
  split_ifs <;> rfl

theorem length_step (m : TaperedMean α ρ) (x : α) :
    (m.step x).2.length = if m.clock.ready then 1 else 0 := by
  simp only [step]
  rw [take_clock]
  split_ifs <;> rfl

theorem feed_step {m : TaperedMean α ρ} (h : m.clock.Sound) (xs : List α) :
    (feed step m xs).1.clock = m.clock.after xs.length ∧
      (feed step m xs).2.length = m.clock.count xs.length :=
  feed_clock TaperedMean.clock step_clock length_step h xs

end TaperedMean

namespace Knots

variable {α : Type}

theorem size_push (k : Knots α) (x : α) : (k.push x).size = min 2 (k.size + 1) := by
  cases k <;> rfl

end Knots

namespace Upsampler

variable {α ρ : Type}

def completed (u : Upsampler α) (n : Nat) : Nat :=
  (n + min u.knots.size u.interpolation.lead - u.interpolation.lead) * u.factor

theorem lead_le_two (i : Interpolation) : i.lead ≤ 2 := by cases i <;> decide

theorem outputLenFrom_eq_ok_iff {factor carried n m : Nat} {i : Interpolation} :
    outputLenFrom factor i carried n = .ok m ↔
      m = (n + min carried i.lead - i.lead) * factor ∧ n + min carried i.lead < 2 ^ 64 ∧
        (n + min carried i.lead - i.lead) * factor < 2 ^ 64 := by
  simp only [outputLenFrom]
  rw [Checked.bind_eq_ok_iff]
  constructor
  · rintro ⟨known, hadd, hmul⟩
    obtain ⟨rfl, hk⟩ := Checked.add_eq_ok_iff.mp hadd
    obtain ⟨rfl, hm⟩ := Checked.mul_eq_ok_iff.mp hmul
    exact ⟨rfl, hk, hm⟩
  · rintro ⟨rfl, hk, hm⟩
    exact ⟨_, Checked.add_eq_ok_iff.mpr ⟨rfl, hk⟩, Checked.mul_eq_ok_iff.mpr ⟨rfl, hm⟩⟩

variable [Scalar ρ]

theorem length_between {factor : Nat} (hf : 0 < factor) (knot : α) (f : ρ → α) :
    (between factor knot f).length = factor := by
  simp only [between, List.length_cons, List.length_map, List.length_range]
  omega

variable [Add α] [Sub α] [Sample α ρ]

theorem length_line {factor : Nat} (hf : 0 < factor) (a next : α) :
    (line factor a next).length = factor := by
  simp only [line]
  exact length_between hf _ _

variable [Mul ρ]

theorem length_parabola {factor : Nat} (hf : 0 < factor) (a slope next : α) :
    (parabola factor a slope next).length = factor := by
  simp only [parabola]
  exact length_between hf _ _

theorem length_cubic {factor : Nat} (hf : 0 < factor) (a b slopeA slopeB : α) :
    (cubic factor a b slopeA slopeB).length = factor := by
  simp only [cubic]
  exact length_between hf _ _

variable [Zero α]

theorem segment?_isSome (u : Upsampler α) (x : α) :
    (u.segment? x).isSome ↔ u.interpolation.lead ≤ u.knots.size := by
  obtain ⟨_, i, k, _⟩ := u
  cases i <;> cases k <;> simp [segment?, Interpolation.lead, Knots.size]

theorem length_segment {u : Upsampler α} (hf : 0 < u.factor) {x slope : α} {ys : List α}
    (h : u.segment? x = some (ys, slope)) : ys.length = u.factor := by
  simp only [segment?] at h
  split at h <;> cases h
  · exact List.length_replicate
  · exact length_line hf _ _
  · exact length_line hf _ _
  · exact length_parabola hf _ _ _
  · exact length_parabola hf _ _ _
  · exact length_cubic hf _ _ _ _

theorem step_spec {u : Upsampler α} (hf : 0 < u.factor) (x : α) :
    (u.step x).1.factor = u.factor ∧ (u.step x).1.interpolation = u.interpolation ∧
      (u.step x).1.knots = u.knots.push x ∧
      (u.step x).2.length = if u.interpolation.lead ≤ u.knots.size then u.factor else 0 := by
  have hsome := segment?_isSome u x
  simp only [step]
  cases hs : u.segment? x with
  | none =>
    rw [hs] at hsome
    exact ⟨rfl, rfl, rfl, by rw [if_neg (by simpa using hsome)]; rfl⟩
  | some p =>
    rw [hs] at hsome
    exact ⟨rfl, rfl, rfl, by rw [if_pos (by simpa using hsome), length_segment hf hs]⟩

theorem knots_feed (u : Upsampler α) (xs : List α) :
    (feed step u xs).1.knots = xs.foldl (fun k x => k.push x) u.knots := by
  induction xs generalizing u with
  | nil => rfl
  | cons x xs ih =>
    have hstep : (u.step x).1.knots = u.knots.push x := by
      simp only [step]
      cases u.segment? x <;> rfl
    rw [feed_cons, List.foldl_cons, ih, hstep]

theorem feed_step {u : Upsampler α} (hf : 0 < u.factor) (xs : List α) :
    (feed step u xs).1.factor = u.factor ∧
      (feed step u xs).1.interpolation = u.interpolation ∧
      (feed step u xs).2.length = u.completed xs.length := by
  induction xs generalizing u with
  | nil =>
    refine ⟨rfl, rfl, ?_⟩
    rw [feed_nil, completed, List.length_nil, Nat.zero_add,
      Nat.sub_eq_zero_of_le (Nat.min_le_right _ _), Nat.zero_mul]
  | cons x xs ih =>
    obtain ⟨h1, h2, h3, h4⟩ := step_spec hf x
    obtain ⟨h5, h6, h7⟩ := ih (h1 ▸ hf)
    have hlead := lead_le_two u.interpolation
    rw [feed_cons]
    refine ⟨h5.trans h1, h6.trans h2, ?_⟩
    rw [List.length_append, h4, h7, completed, completed, h1, h2, h3, Knots.size_push,
      List.length_cons]
    split_ifs with hle
    · rw [Nat.min_eq_right (a := min 2 _) (by omega), Nat.min_eq_right hle, Nat.add_sub_cancel,
        Nat.add_sub_cancel, Nat.succ_mul, Nat.add_comm]
    · rw [Nat.zero_add]
      congr 1
      omega

end Upsampler

namespace Taps

variable {α ρ : Type} [Add α] [Sample α ρ]

theorem apply_congr (t : Taps ρ) {read read' : Nat → α} {c c' : Nat}
    (h : ∀ m ≤ t.reach, read (c - m) = read' (c' - m) ∧ read (c + m) = read' (c' + m)) :
    t.apply read c = t.apply read' c' := by
  have key (m : Nat) (taps : List ρ) (acc : α) (hm : m + taps.length ≤ t.reach + 1) :
      addPairs read c m taps acc = addPairs read' c' m taps acc := by
    induction taps generalizing m acc with
    | nil => rfl
    | cons tap taps ih =>
      rw [List.length_cons] at hm
      obtain ⟨h1, h2⟩ := h m (by omega)
      rw [addPairs, addPairs, h1, h2, ih _ _ (by omega)]
  have h0 : read c = read' c' := (h 0 (Nat.zero_le _)).2
  rw [apply, apply, h0, key 1 t.sides _ (by rw [reach]; omega)]

end Taps

theorem mapM_eq_ok_map {α β : Type} {f : α → Checked β} {g : α → β} {xs : List α}
    (h : ∀ x ∈ xs, f x = .ok (g x)) : xs.mapM f = .ok (xs.map g) := by
  induction xs with
  | nil => rfl
  | cons x xs ih =>
    rw [List.mapM_cons, h x List.mem_cons_self, ih fun y hy => h y (List.mem_cons_of_mem x hy)]
    rfl

namespace SincFilter

variable {α ρ : Type}

/-- The clock is ahead of the window, and the window of the next tick is full when the tick
is ready. -/
structure Sound (f : SincFilter α ρ) : Prop where
  clock : f.clock.Sound
  lookahead : f.clock.lookahead = f.taps.reach
  history : f.history.Sound
  capacity : f.history.capacity = 2 * f.taps.reach
  filled : 2 * f.taps.reach ≤ f.history.size + f.clock.wait

theorem sound_reset [Zero α] {f : SincFilter α ρ} {leading : Nat} (hs : 0 < f.clock.stride)
    (hs' : f.clock.stride < 2 ^ 62) (hr : f.taps.reach + leading + f.taps.reach < 2 ^ 63)
    (hc : f.history.capacity = 2 * f.taps.reach) :
    (f.reset leading).Sound ∧
      (f.reset leading).clock.wait = f.taps.reach + leading + f.taps.reach := by
  have hwait : (f.reset leading).clock.wait = f.taps.reach + leading + f.taps.reach :=
    TickClock.wait_start hs hs' (by omega) hr
  refine ⟨⟨TickClock.start_sound hs hs' (by omega) hr, rfl, History.clear_sound _, hc, ?_⟩,
    hwait⟩
  have hfilled : 2 * f.taps.reach ≤ 0 + (f.reset leading).clock.wait := by omega
  exact hfilled

theorem read_toArray [Zero α] (h : History α) (xs : List α) :
    read h xs.toArray = fun i => (h.toList ++ xs).getD i 0 := by
  funext i
  simp only [read]
  split_ifs with hi
  · rw [List.getD_append _ _ _ _ (by simpa using hi),
      List.getD_eq_getElem _ _ (by simpa using hi), History.getElem_toList]
  · rw [List.getD_append_right _ _ _ _ (by simpa using hi), History.length_toList]
    simp

theorem size_extend [Zero α] {f : SincFilter α ρ} (hf : f.Sound) (xs : List α) :
    (f.history.extend xs).size = min (2 * f.taps.reach) (f.history.size + xs.length) := by
  rw [← History.length_toList, (History.extend_spec hf.history xs).2.2, length_rtake,
    List.length_append, History.length_toList, hf.capacity]

def after [Zero α] (f : SincFilter α ρ) (xs : List α) : SincFilter α ρ :=
  { f with clock := f.clock.after xs.length, history := f.history.extend xs }

theorem eq_after_of_skip [Zero α] {f f' : SincFilter α ρ} (hf : f.Sound) {n : Nat}
    (hn : n < 2 ^ 64) (h : f.skip n = .ok f') : f' = f.after (List.replicate n 0) := by
  obtain ⟨clock, hc, h⟩ := Checked.bind_eq_ok_iff.mp h
  cases h
  rw [TickClock.eq_after_of_advance hf.clock hn hc, after, History.extendZeros_eq,
    List.length_replicate]

theorem skip_eq_ok [Zero α] {f : SincFilter α ρ} (hf : f.Sound) {n : Nat} (hn : n < 2 ^ 62) :
    f.skip n = .ok (f.after (List.replicate n 0)) := by
  simp only [skip, after]
  rw [TickClock.skip, TickClock.advance_eq hf.clock hn, History.extendZeros_eq,
    List.length_replicate]
  rfl

theorem after_sound [Zero α] {f : SincFilter α ρ} (hf : f.Sound) (xs : List α) :
    (f.after xs).Sound := by
  obtain ⟨h1, h2, -⟩ := History.extend_spec hf.history xs
  refine ⟨TickClock.after_sound hf.clock _, hf.lookahead, h1, h2.trans hf.capacity, ?_⟩
  have hsize := size_extend hf xs
  have hwait := TickClock.wait_after hf.clock xs.length
  have hfull := hf.filled
  change 2 * f.taps.reach ≤
    (f.history.extend xs).size + (f.clock.after xs.length).wait
  omega

variable [Zero α] [Add α] [Sample α ρ]

def outputs (f : SincFilter α ρ) (xs : List α) : List α :=
  (List.range (f.clock.count xs.length)).map fun k =>
    f.taps.apply (fun i => (f.history.toList ++ xs).getD i 0)
      (f.history.size + f.clock.wait + k * f.clock.stride - f.taps.reach)

variable {f : SincFilter α ρ}

theorem output_of_within (t : Taps ρ) (h : History α) (xs : Array α) {newest : Nat}
    (hin : h.size + 2 * t.reach ≤ newest) :
    t.output (xs.getD · 0) xs.size (newest - h.size) =
      t.output (read h xs) (h.size + xs.size) newest := by
  have hrange : 2 * t.reach ≤ newest - h.size ∧ newest - h.size < xs.size ↔
      2 * t.reach ≤ newest ∧ newest < h.size + xs.size := by omega
  have hread (i : Nat) : xs.getD i 0 = read h xs (h.size + i) := by
    rw [read, if_neg (by omega), Nat.add_sub_cancel_left]
  rw [Taps.output, Taps.output, if_congr hrange rfl rfl]
  split_ifs with hfit
  · refine congr_arg Except.ok (Taps.apply_congr _ fun m hm => ⟨?_, ?_⟩)
    · rw [hread]
      congr 1
      omega
    · rw [hread]
      congr 1
      omega
  · rfl

theorem output_eq (f : SincFilter α ρ) (xs : List α) (newest : Nat) :
    f.output xs.toArray newest =
      f.taps.output (fun i => (f.history.toList ++ xs).getD i 0)
        (f.history.size + xs.length) newest := by
  rw [← read_toArray, ← List.size_toArray]
  simp only [output]
  split_ifs with hin
  · exact output_of_within f.taps f.history _ hin
  · rfl

theorem feed_eq (hf : f.Sound) (xs : List α) :
    f.feed xs = (f.clock.advance xs.length (f.clock.count xs.length)).map fun clock =>
      ({ f with clock, history := f.history.extend xs }, f.outputs xs) := by
  have hout : (List.range (f.clock.count xs.length)).mapM (fun k =>
      f.output xs.toArray (f.history.size + f.clock.wait + k * f.clock.stride)) =
        .ok (f.outputs xs) := by
    refine mapM_eq_ok_map fun k hk => ?_
    have hfull := hf.filled
    have hlt := (TickClock.lt_count_iff hf.clock.stride_pos _ _).mp (List.mem_range.mp hk)
    rw [output_eq, Taps.output, if_pos ⟨by omega, by omega⟩]
  simp only [feed]
  rw [hout]
  cases f.clock.advance xs.length (f.clock.count xs.length) <;> rfl

theorem eq_of_feed (hf : f.Sound) {xs : List α} (hn : xs.length < 2 ^ 64)
    {r : SincFilter α ρ × List α} (h : f.feed xs = .ok r) : r = (f.after xs, f.outputs xs) := by
  rw [feed_eq hf] at h
  cases hc : f.clock.advance xs.length (f.clock.count xs.length) with
  | error e =>
    rw [hc] at h
    cases h
  | ok clock =>
    rw [hc] at h
    cases h
    rw [TickClock.eq_after_of_advance hf.clock hn hc]
    rfl

theorem feed_eq_ok (hf : f.Sound) {xs : List α} (hn : xs.length < 2 ^ 62) :
    f.feed xs = .ok (f.after xs, f.outputs xs) := by
  rw [feed_eq hf, TickClock.advance_eq hf.clock hn]
  rfl

theorem length_outputs (f : SincFilter α ρ) (xs : List α) :
    (f.outputs xs).length = f.clock.count xs.length := by
  simp [outputs]

theorem outputs_append (hf : f.Sound) (xs ys : List α) :
    f.outputs (xs ++ ys) = f.outputs xs ++ (f.after xs).outputs ys := by
  have hfull := hf.filled
  have hcap := hf.capacity
  have hsize := size_extend hf xs
  have hwait := TickClock.wait_after hf.clock xs.length
  obtain ⟨-, -, hkept⟩ := History.extend_spec hf.history xs
  have hlen := History.length_toList f.history
  have hs := hf.clock.stride_pos
  simp only [outputs]
  rw [List.length_append, TickClock.count_add hf.clock, List.range_add, List.map_append,
    List.map_map]
  refine congr_arg₂ _ (List.map_congr_left fun k hk => ?_) (List.map_congr_left fun k hk => ?_)
  · have hlt := (TickClock.lt_count_iff hs _ _).mp (List.mem_range.mp hk)
    refine Taps.apply_congr _ fun m hm => ⟨?_, ?_⟩ <;>
      rw [← List.append_assoc, List.getD_append _ _ _ _ (by simp; omega)]
  · have hlt := (TickClock.lt_count_iff (TickClock.after_sound hf.clock _).stride_pos _ _).mp
      (List.mem_range.mp hk)
    -- The history has let go of the first samples: those before the window.
    have hdrop : (f.history.extend xs).toList ++ ys =
        (f.history.toList ++ (xs ++ ys)).drop
          (f.history.size + xs.length - (f.history.extend xs).size) := by
      rw [← List.append_assoc, List.drop_append_of_le_length (by simp), hkept, List.rtake]
      congr 2
      rw [List.length_append, hlen, hcap]
      omega
    have hread (i : Nat) : ((f.history.extend xs).toList ++ ys).getD i 0 =
        (f.history.toList ++ (xs ++ ys)).getD
          (f.history.size + xs.length - (f.history.extend xs).size + i) 0 := by
      rw [hdrop]
      simp [List.getD_eq_getElem?_getD]
    simp only [after, TickClock.after_stride, Function.comp_apply, hread, Nat.add_mul] at hlt ⊢
    have hfull' := (after_sound hf xs).filled
    simp only [after] at hfull'
    refine Taps.apply_congr _ fun m hm => ⟨?_, ?_⟩ <;> congr 1 <;> omega

end SincFilter

end RateConversion
