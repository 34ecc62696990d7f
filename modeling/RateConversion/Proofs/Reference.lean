import RateConversion.Proofs.SegmentStart
import RateConversion.Proofs.Serving

/-! What each kernel gives for a stream, sample by sample. Let `x` be the stream by its input
offset. The sample at an output offset is an expression in the samples of `x` around the
place of that offset, whatever the place at which the stream was joined, once the kernel
has seen enough of it. -/

namespace RateConversion

/-- The samples of a stream from an offset on. -/
def stretch {α : Type} (x : Nat → α) (offset n : Nat) : List α :=
  (List.range n).map fun i => x (offset + i)

theorem length_stretch {α : Type} (x : Nat → α) (offset n : Nat) :
    (stretch x offset n).length = n := by
  simp [stretch]

theorem stretch_succ {α : Type} (x : Nat → α) (offset n : Nat) :
    stretch x offset (n + 1) = x offset :: stretch x (offset + 1) n := by
  simp [stretch, List.range_succ_eq_map, Nat.add_assoc, Nat.add_comm 1]

theorem stretch_add {α : Type} (x : Nat → α) (offset m n : Nat) :
    stretch x offset (m + n) = stretch x offset m ++ stretch x (offset + m) n := by
  simp [stretch, List.range_add, Nat.add_assoc]

theorem getElem?_stretch {α : Type} {x : Nat → α} {a n i : Nat} (hi : i < n) :
    (stretch x a n)[i]? = some (x (a + i)) := by
  simp [stretch, hi]

theorem stretch_getD {α : Type} (xs : List α) (d : α) :
    stretch (fun i => xs.getD i d) 0 xs.length = xs := by
  apply List.ext_getElem
  · rw [length_stretch]
  · intro i h1 h2
    simp only [stretch, List.getElem_map, List.getElem_range, Nat.zero_add]
    exact List.getD_eq_getElem _ _ h2

/-- Feeding a stream to a machine. The invariant `I` ties the state to the offsets of the next
input and the next output, and `Q` is what holds of a sample at an output offset. -/
theorem feed_stretch {σ α β : Type} {step : σ → α → σ × List β} {x : Nat → α}
    {I : Nat → Nat → σ → Prop} {Q : Nat → β → Prop}
    (hI : ∀ p o s, I p o s → I (p + 1) (o + (step s (x p)).2.length) (step s (x p)).1)
    (hQ : ∀ p o s, I p o s → ∀ i y, (step s (x p)).2[i]? = some y → Q (o + i) y)
    {p o : Nat} {s : σ} (hs : I p o s) (n i : Nat) {y : β}
    (hy : (feed step s (stretch x p n)).2[i]? = some y) : Q (o + i) y := by
  induction n generalizing p o s i with
  | zero =>
    rw [stretch, List.range_zero, List.map_nil, feed_nil] at hy
    cases hy
  | succ n ih =>
    rw [stretch_succ, feed_cons] at hy
    rcases Nat.lt_or_ge i (step s (x p)).2.length with hi | hi
    · rw [List.getElem?_append_left hi] at hy
      exact hQ p o s hs i y hy
    · rw [List.getElem?_append_right hi] at hy
      have hrest := ih (hI p o s hs) _ hy
      rwa [show o + (step s (x p)).2.length + (i - (step s (x p)).2.length) = o + i by omega]
        at hrest

theorem feed_stretch_state {σ α β : Type} {step : σ → α → σ × List β} {x : Nat → α}
    {I : Nat → Nat → σ → Prop}
    (hI : ∀ p o s, I p o s → I (p + 1) (o + (step s (x p)).2.length) (step s (x p)).1)
    {p o : Nat} {s : σ} (hs : I p o s) (n : Nat) :
    I (p + n) (o + (feed step s (stretch x p n)).2.length) (feed step s (stretch x p n)).1 := by
  induction n generalizing p o s with
  | zero => exact hs
  | succ n ih =>
    have hrest := ih (hI p o s hs)
    rw [stretch_succ, feed_cons, List.length_append]
    rwa [Nat.add_right_comm, Nat.add_assoc o] at hrest

theorem feed_getD {σ α β : Type} {step : σ → α → σ × List β} {xs : List α} {d : α}
    {I : Nat → Nat → σ → Prop} {Q : Nat → β → Prop}
    (hI : ∀ p o s, I p o s →
      I (p + 1) (o + (step s (xs.getD p d)).2.length) (step s (xs.getD p d)).1)
    (hQ : ∀ p o s, I p o s → ∀ i y, (step s (xs.getD p d)).2[i]? = some y → Q (o + i) y)
    {s : σ} (hs : I 0 0 s) (i : Nat) {y : β} (hy : (feed step s xs).2[i]? = some y) : Q i y := by
  rw [← stretch_getD xs d] at hy
  have hvalue := feed_stretch hI hQ hs xs.length i hy
  rwa [Nat.zero_add] at hvalue

namespace Reference

section Samples

variable {α ρ : Type} [Zero α] [Add α] [Sub α] [Add ρ] [Mul ρ] [Scalar ρ] [Sample α ρ]

def slope (x : Nat → α) (j : Nat) : α := divide (x (j + 1) - x (j - 1)) Upsampler.two

def segment (factor : Nat) (i : Interpolation) (x : Nat → α) (j : Nat) : List α :=
  match i with
  | .hold => List.replicate factor (x j)
  | .linear => Upsampler.line factor (x j) (x (j + 1))
  | .quadratic => Upsampler.parabola factor (x j) (slope x j) (x (j + 1))
  | .cubic => Upsampler.cubic factor (x j) (x (j + 1)) (slope x j) (slope x (j + 1))

/-- Sum and weight of the first samples of the window around an output tick. An even window
begins with the sample that it shares with the window before it. -/
def window (factor : Nat) (x : Nat → α) (o : Nat) : Nat → α × ρ
  | 0 =>
    if factor % 2 = 0 then
      (scale (x ((o - 1) * factor + factor / 2)) (TaperedMean.halves 1 : ρ), TaperedMean.halves 1)
    else (0, TaperedMean.halves 0)
  | n + 1 =>
    let p := (o - 1) * factor + factor / 2 + 1 + n
    let w : ρ := TaperedMean.halves (if factor % 2 = 0 ∧ p = o * factor + factor / 2 then 1 else 2)
    ((window factor x o n).1 + scale (x p) w, (window factor x o n).2 + w)

def sampleAt (conv : Conversion) (x : Nat → α) (o : Nat) : α :=
  match conv with
  | .copy => x o
  | .up factor i => (segment factor i x (o / factor)).getD (o % factor) 0
  | .down factor d z =>
    match d, d.span? with
    | _, some span =>
      (Taps.lowPass factor span).apply x
        ((o - (Conversion.down factor d z).delay) * factor + span * factor / 2)
    | .tukey, none => divide (window factor x o factor).1 (window factor x o factor).2
    | _, none => x (o * factor)

theorem sampleAt_of_span {d : Decimation} {span : Nat} (hd : d.span? = some span) (factor : Nat)
    (z : Bool) (x : Nat → α) (o : Nat) :
    sampleAt (.down factor d z) x (o + (Conversion.down factor d z).delay) =
      (Taps.lowPass factor span).apply x (o * factor + span * factor / 2) := by
  cases d <;> cases hd <;> simp only [sampleAt, Decimation.span?, Nat.add_sub_cancel]

end Samples

/-- Output samples at the start of a segment that may miss what came before it. -/
def settling : Conversion → Nat
  | .up factor .quadratic | .up factor .cubic => factor
  | .down _ .tukey _ => 1
  | _ => 0

structure Points (factor reach p o : Nat) (c : TickClock) : Prop where
  stride : c.stride = factor
  lookahead : c.lookahead = reach
  phase : c.phase = p - (o * factor : Nat)
  due : p ≤ o * factor + reach

theorem Points.ready_iff {factor reach p o : Nat} {c : TickClock} (h : Points factor reach p o c) :
    c.ready = true ↔ p = o * factor + reach := by
  have := h.phase
  simp only [TickClock.ready]
  rw [beq_iff_eq, h.lookahead]
  omega

theorem Points.next {factor reach p o : Nat} {c : TickClock} (hf : 0 < factor)
    (h : Points factor reach p o c) :
    Points factor reach (p + 1) (if c.ready then o + 1 else o) c.next := by
  have hr := h.ready_iff
  have hphase := h.phase
  have hdue := h.due
  have hs := h.stride
  refine ⟨h.stride, h.lookahead, ?_, ?_⟩
  · simp only [TickClock.next]
    split_ifs with hc
    · rw [Nat.add_one_mul o factor]
      omega
    · omega
  · split_ifs with hc
    · rw [Nat.add_one_mul o factor]
      omega
    · rw [hr] at hc
      omega

theorem points_start {factor reach leading a first : Nat} (hl : leading < 2 ^ 63)
    (hb : first * factor = a + leading) :
    Points factor reach a first (.start factor reach 0 leading) := by
  refine ⟨rfl, rfl, ?_, by omega⟩
  simp only [TickClock.start, Nat.add_zero]
  rw [Checked.signed_eq (by omega), if_pos (by omega)]
  omega

theorem pick_eq {α : Type} {factor : Nat} (hf : 0 < factor) (x : Nat → α) {c : TickClock}
    {p o : Nat} (h : Points factor 0 p o c) (n i : Nat) {y : α}
    (hy : (feed TickClock.pick c (stretch x p n)).2[i]? = some y) : y = x ((o + i) * factor) := by
  refine feed_stretch (I := Points factor 0) (Q := fun o y => y = x (o * factor)) ?_ ?_ h n i hy
  · intro p o c h
    have hn := h.next hf
    simp only [TickClock.pick]
    split_ifs at hn ⊢ <;> exact hn
  · intro p o c h i y hy
    simp only [TickClock.pick] at hy
    split_ifs at hy with hr
    · cases i with
      | zero =>
        cases hy
        rw [h.ready_iff.mp hr]
        rfl
      | succ i => cases hy
    · cases hy

section Mean

variable {α ρ : Type} [Zero α] [Add α] [Add ρ] [Scalar ρ] [Sample α ρ]

structure Averages (x : Nat → α) (factor first p o : Nat) (m : TaperedMean α ρ) : Prop where
  clock : Points factor (factor / 2) p o m.clock
  reached : first ≤ o
  begun : first < o → (o - 1) * factor + factor / 2 < p
  held : first < o → (m.sum, m.weight) =
    window factor x o (p - ((o - 1) * factor + factor / 2) - 1)

theorem sub_one_mul_add {o : Nat} (factor : Nat) (h : 0 < o) :
    (o - 1) * factor + factor = o * factor := by
  rw [← Nat.add_one_mul, Nat.sub_add_cancel h]

theorem Averages.take {x : Nat → α} {factor first p o : Nat} {m : TaperedMean α ρ}
    (h : Averages x factor first p o m) (ho : first < o) :
    ((m.take (x p)).sum, (m.take (x p)).weight) =
      window factor x o (p - ((o - 1) * factor + factor / 2)) := by
  have hmul := sub_one_mul_add factor (show 0 < o by omega)
  have hbegun := h.begun ho
  have hphase := h.clock.phase
  have hlook := h.clock.lookahead
  have hdue := h.clock.due
  have hn : p - ((o - 1) * factor + factor / 2) =
      p - ((o - 1) * factor + factor / 2) - 1 + 1 := by omega
  have hp : (o - 1) * factor + factor / 2 + 1 + (p - ((o - 1) * factor + factor / 2) - 1) = p := by
    omega
  have hplace : m.placeWeight m.clock.phase =
      if factor % 2 = 0 ∧ p = o * factor + factor / 2 then 1 else 2 := by
    unfold TaperedMean.placeWeight TaperedMean.tapered
    rw [h.clock.stride, hlook, hphase]
    refine if_congr ?_ rfl rfl
    rw [Bool.and_eq_true, beq_iff_eq, beq_iff_eq]
    omega
  have htake : m.take (x p) =
      { m with
        sum := m.sum + scale (x p) (TaperedMean.halves (m.placeWeight m.clock.phase) : ρ)
        weight := m.weight + TaperedMean.halves (m.placeWeight m.clock.phase) } := by
    simp only [TaperedMean.take]
    rw [if_pos (by omega)]
  rw [htake, hn, window, ← h.held ho, hp, hplace]

theorem restart_eq {x : Nat → α} {factor p o : Nat} {m : TaperedMean α ρ}
    (hs : m.clock.stride = factor) (hp : p = o * factor + factor / 2) :
    ((m.restart (x p)).sum, (m.restart (x p)).weight) = window factor x (o + 1) 0 := by
  unfold TaperedMean.restart TaperedMean.tapered window
  rw [hs, Nat.add_sub_cancel, ← hp]
  simp only [beq_iff_eq]
  split_ifs <;> rfl

theorem Averages.step {x : Nat → α} {factor first p o : Nat} (hf : 0 < factor)
    {m : TaperedMean α ρ} (h : Averages x factor first p o m) :
    Averages x factor first (p + 1) (o + (m.step (x p)).2.length) (m.step (x p)).1 := by
  have hclock := h.clock.next hf
  have hready := h.clock.ready_iff
  have hreached := h.reached
  simp only [TaperedMean.step]
  rw [TaperedMean.take_clock]
  split_ifs at hclock ⊢ with hr
  · have hp := hready.mp hr
    refine ⟨hclock, Nat.le_add_right_of_le hreached, fun _ => ?_, fun _ => ?_⟩
    · simp only [List.length_singleton, Nat.add_sub_cancel]
      omega
    · have hzero : p + 1 - (o * factor + factor / 2) - 1 = 0 := by omega
      have hstride : (m.take (x p)).clock.stride = factor := by
        rw [TaperedMean.take_clock, h.clock.stride]
      rw [List.length_singleton, Nat.add_sub_cancel, hzero]
      exact restart_eq hstride hp
  · refine ⟨hclock, hreached, fun ho => Nat.lt_succ_of_lt (h.begun ho), fun ho => ?_⟩
    have hnext : p + 1 - ((o - 1) * factor + factor / 2) - 1 =
        p - ((o - 1) * factor + factor / 2) := by omega
    simp only [List.length_nil, Nat.add_zero, hnext]
    exact h.take ho

theorem mean_eq {factor : Nat} (hf : 0 < factor) (x : Nat → α) {m : TaperedMean α ρ}
    {p first : Nat} (h : Averages x factor first p first m) (n i : Nat) (hi : 0 < i) {y : α}
    (hy : (feed TaperedMean.step m (stretch x p n)).2[i]? = some y) :
    y = divide (window factor x (first + i) factor).1 (window factor x (first + i) factor).2 := by
  refine feed_stretch (I := Averages x factor first) (Q := fun o y => first < o →
    y = divide (window factor x o factor).1 (window factor x o factor).2)
    (fun p o m h => h.step hf) ?_ h n i hy (by omega)
  intro p o m h i y hy ho
  have hready := h.clock.ready_iff
  unfold TaperedMean.step at hy
  dsimp only at hy
  rw [TaperedMean.take_clock] at hy
  split_ifs at hy with hr
  · cases i with
    | zero =>
      cases hy
      have hp := hready.mp hr
      have hmul := sub_one_mul_add factor (show 0 < o by omega)
      have hfull : p - ((o - 1) * factor + factor / 2) = factor := by omega
      have htake := h.take ho
      rw [hfull] at htake
      rw [Nat.add_zero, ← htake]
    | succ i => cases hy
  · cases hy

end Mean

section Segments

variable {α ρ : Type} [Sub α] [Scalar ρ] [Sample α ρ]

structure Interpolates (x : Nat → α) (factor : Nat) (i : Interpolation) (a p o : Nat)
    (u : Upsampler α) : Prop where
  times : u.factor = factor
  kind : u.interpolation = i
  le : a ≤ p
  knots : u.knots = if p = a then .empty else if p = a + 1 then .single (x a)
    else .pair (x (p - 2)) (x (p - 1))
  out : o = max a (p - i.lead) * factor
  slope : i = .cubic → a + 3 ≤ p → u.slope = Reference.slope x (p - 2)

namespace Interpolates

variable {x : Nat → α} {factor a p o : Nat} {i : Interpolation} {u : Upsampler α}

theorem size (h : Interpolates x factor i a p o u) : u.knots.size = min 2 (p - a) := by
  have hle := h.le
  rw [h.knots]
  split_ifs with h0 h1
  · rw [h0, Nat.sub_self]
    rfl
  · rw [h1, Nat.add_sub_cancel_left]
    rfl
  · rw [Nat.min_eq_left (by omega)]
    rfl

theorem push (h : Interpolates x factor i a p o u) :
    u.knots.push (x p) =
      if p = a then .single (x a) else .pair (x (p - 1)) (x p) := by
  have hle := h.le
  rw [h.knots]
  split_ifs with h0 h1
  · rw [h0]
    rfl
  · rw [h1, Nat.add_sub_cancel]
    rfl
  · rfl

variable [Zero α] [Add α] [Mul ρ]

theorem segment_eq (h : Interpolates x factor i a p o u) (hf : 0 < factor)
    (hlead : a + i.lead ≤ p)
    (hp : a * factor + settling (.up factor i) ≤ (p - i.lead) * factor) :
    ∃ s, u.segment? (x p) = some (segment factor i x (p - i.lead), s) := by
  obtain ⟨f, i', k, sl⟩ := u
  obtain ⟨rfl, rfl, hle, hk, -, hs⟩ := h
  dsimp only at hk hs hf hlead hp ⊢
  have hnext {q : Nat} (h : a * f + f ≤ q * f) : a + 1 ≤ q := by
    rw [← Nat.add_one_mul] at h
    exact Nat.le_of_mul_le_mul_right h hf
  cases i' with
  | hold => exact ⟨_, rfl⟩
  | linear =>
    have hlead : a + 1 ≤ p := hlead
    rw [if_neg (by omega)] at hk
    split_ifs at hk with h1
    · subst h1
      rw [hk]
      exact ⟨_, rfl⟩
    · have hj : p - 1 + 1 = p := by omega
      rw [hk, segment, Interpolation.lead, hj]
      exact ⟨_, rfl⟩
  | quadratic =>
    have hlead : a + 1 ≤ p := hlead
    have hp := hnext hp
    have hj : p - 1 + 1 = p := by simp only [Interpolation.lead] at hp; omega
    rw [if_neg (by omega), if_neg (by simp only [Interpolation.lead] at hp; omega)] at hk
    rw [hk, segment, Reference.slope, Interpolation.lead, hj]
    exact ⟨_, rfl⟩
  | cubic =>
    have hlead : a + 2 ≤ p := hlead
    have hp : a + 1 ≤ p - 2 := hnext hp
    have hj : p - 2 + 1 = p - 1 := by omega
    have hlast : Reference.slope x (p - 1) = divide (x p - x (p - 2)) Upsampler.two := by
      rw [Reference.slope, show p - 1 + 1 = p by omega, show p - 1 - 1 = p - 2 by omega]
    rw [if_neg (by omega), if_neg (by omega)] at hk
    rw [hk, segment, Interpolation.lead, hj, ← hs rfl (by omega), hlast]
    exact ⟨_, rfl⟩

theorem step (h : Interpolates x factor i a p o u) (hf : 0 < factor) :
    Interpolates x factor i a (p + 1) (o + (u.step (x p)).2.length) (u.step (x p)).1 := by
  have hle := h.le
  obtain ⟨h1, h2, h3, h4⟩ := Upsampler.step_spec (h.times ▸ hf) (x p)
  refine ⟨h1.trans h.times, h2.trans h.kind, Nat.le_succ_of_le hle, ?_, ?_, fun hi hp => ?_⟩
  · rw [h3, h.push]
    split_ifs <;> first | omega | rfl
  · have hlead := Upsampler.lead_le_two i
    rw [h4, h.kind, h.times, h.size, h.out]
    split_ifs with hs
    · rw [max_eq_right (by omega), max_eq_right (by omega), ← Nat.add_one_mul]
      congr 1
      omega
    · rw [max_eq_left (by omega), max_eq_left (by omega)]
      rfl
  · subst hi
    have hk := h.knots
    rw [if_neg (by omega), if_neg (by omega)] at hk
    simp only [Upsampler.step, Upsampler.segment?]
    rw [h.kind, hk]
    dsimp only
    rw [Reference.slope, show p + 1 - 2 + 1 = p by omega, show p + 1 - 2 - 1 = p - 2 by omega]

end Interpolates

variable [Add α] [Mul ρ]

theorem upsampler_eq [Zero α] [Add ρ] {factor a p o : Nat} {i : Interpolation}
    (hf : 0 < factor) (x : Nat → α) {u : Upsampler α} (h : Interpolates x factor i a p o u)
    (n k : Nat) (hk : a * factor + settling (.up factor i) ≤ o + k) {y : α}
    (hy : (feed Upsampler.step u (stretch x p n)).2[k]? = some y) :
    y = sampleAt (.up factor i) x (o + k) := by
  refine feed_stretch (I := Interpolates x factor i a) (Q := fun o y =>
    a * factor + settling (.up factor i) ≤ o → y = sampleAt (.up factor i) x o)
    (fun p o u h => h.step hf) ?_ h n k hy hk
  intro p o u h k y hy hsettled
  have hlen := (Upsampler.step_spec (h.times ▸ hf) (x p)).2.2.2
  have hk := (List.getElem?_eq_some_iff.mp hy).1
  rw [hlen, h.kind, h.times, h.size] at hk
  have hlead := Upsampler.lead_le_two i
  have hle := h.le
  have hknown : i.lead ≤ min 2 (p - a) := by
    by_contra hc
    rw [if_neg hc] at hk
    cases hk
  rw [if_pos hknown] at hk
  have ho : o = (p - i.lead) * factor := by rw [h.out, max_eq_right (by omega)]
  -- Within a segment the left knot alone decides whether the output has settled.
  have hknot : a * factor + settling (.up factor i) ≤ (p - i.lead) * factor := by
    have hmul := Nat.mul_le_mul_right factor (show a ≤ p - i.lead by omega)
    have hdrop (h : a * factor + factor ≤ (p - i.lead) * factor + k) :
        a * factor + factor ≤ (p - i.lead) * factor := by
      have hlt : (a + 1) * factor < (p - i.lead + 1) * factor := by
        rw [Nat.add_one_mul, Nat.add_one_mul]
        omega
      rw [← Nat.add_one_mul]
      exact Nat.mul_le_mul_right factor (Nat.lt_succ_iff.mp (Nat.lt_of_mul_lt_mul_right hlt))
    rw [ho] at hsettled
    cases i with
    | hold | linear => exact hmul
    | quadratic | cubic => exact hdrop hsettled
  obtain ⟨s, hs⟩ := h.segment_eq hf (by omega) hknot
  have hout : (u.step (x p)).2 = segment factor i x (p - i.lead) := by
    simp only [Upsampler.step]
    rw [hs]
  rw [hout] at hy
  rw [sampleAt, ho, Nat.mul_comm, Nat.mul_add_div hf, Nat.div_eq_of_lt hk, Nat.mul_add_mod,
    Nat.mod_eq_of_lt hk, Nat.add_zero, List.getD_eq_getElem?_getD, hy]
  rfl

end Segments

theorem sinc_eq {α ρ : Type} [Zero α] [Add α] [Sample α ρ] {f : SincFilter α ρ}
    (hf : f.Sound) (hblank : f.history.toList = []) (x : Nat → α) (a n k : Nat)
    {y : α} (hy : (f.outputs (stretch x a n))[k]? = some y) :
    y = f.taps.apply x (a + (f.clock.wait + k * f.clock.stride - f.taps.reach)) := by
  have hsize : f.history.size = 0 := by
    rw [← History.length_toList, hblank]
    rfl
  have hfull := hf.filled
  have hcount := (List.getElem?_eq_some_iff.mp hy).1
  rw [SincFilter.length_outputs, length_stretch, TickClock.lt_count_iff hf.clock.stride_pos]
    at hcount
  have hread {i : Nat} (hi : i < n) : (stretch x a n).getD i 0 = x (a + i) := by
    rw [List.getD_eq_getElem?_getD, getElem?_stretch hi]
    rfl
  obtain ⟨_, hy⟩ := List.getElem?_eq_some_iff.mp hy
  simp only [SincFilter.outputs, List.getElem_map, List.getElem_range, hblank, hsize,
    List.nil_append, Nat.zero_add] at hy
  rw [← hy]
  refine Taps.apply_congr _ fun m hm => ⟨?_, ?_⟩
  · rw [hread (by omega)]
    congr 1
    omega
  · rw [hread (by omega), Nat.add_assoc]

end Reference

open Reference in
theorem Kernel.Serves.fed_reset {α ρ : Type} [Zero α] [Add α] [Sub α] [Add ρ] [Mul ρ]
    [Scalar ρ] [Sample α ρ] {conv : Conversion} {k : Kernel α ρ} (h : Serves conv k)
    (hf : conv.Fits) {leading a first : Nat} (hl : conv.Admits leading)
    (hb : conv.Begins a leading first) (x : Nat → α) (n i : Nat) (hs : settling conv ≤ i) {y : α}
    (hy : ((k.reset leading).fed (stretch x a n)).2[i]? = some y) :
    y = sampleAt conv x (first + conv.delay + i) := by
  have hk := h.reset hf hl
  cases h with
  | copy =>
    have hn := (List.getElem?_eq_some_iff.mp hy).1
    rw [Kernel.reset, Kernel.fed, length_stretch] at hn
    rw [Kernel.reset, Kernel.fed, getElem?_stretch hn] at hy
    cases hy
    cases hb
    rfl
  | @pick z c h hlook =>
    have hlt : leading < c.stride := hl
    have hfit := hf.2
    have hpoints : Points c.stride 0 a first (.ofDecimation c.stride .pick leading) :=
      points_start (by omega) hb
    exact pick_eq hf.1 x hpoints n i hy
  | @mean z m h hlook =>
    have hlt : leading < m.clock.stride := hl
    have hfit := hf.2
    have hpoints : Points m.clock.stride (m.clock.stride / 2) a first
        (.ofDecimation m.clock.stride .tukey leading) := points_start (by omega) hb
    exact mean_eq hf.1 x (m := .start m.clock.stride leading)
      ⟨hpoints, le_rfl, fun h => absurd h (lt_irrefl _), fun h => absurd h (lt_irrefl _)⟩ n i hs hy
  | @sinc d z span f hd h ht =>
    have hr : f.taps.reach = span * f.clock.stride / 2 := by rw [ht, Taps.reach_lowPass]
    have hlt : leading < f.clock.stride := hl
    have hstride := hf.2
    have hreach : f.taps.reach < 2 ^ 40 := ht ▸ Taps.reach_lowPass_lt hd hf.2
    have hwait : (f.reset leading).clock.wait = f.taps.reach + leading + f.taps.reach :=
      (SincFilter.sound_reset hf.1 (by omega) (by omega) h.capacity).2
    have hfirst : first * f.clock.stride = a + leading := hb
    have hplace : a + (f.taps.reach + leading + f.taps.reach + i * f.clock.stride -
        f.taps.reach) = (first + i) * f.clock.stride + span * f.clock.stride / 2 := by
      rw [Nat.add_mul, hfirst, ← hr]
      omega
    rw [sinc_eq hk.sound (History.toList_clear _) x a n i hy, hwait]
    change f.taps.apply x (a + (f.taps.reach + leading + f.taps.reach + i * f.clock.stride -
      f.taps.reach)) = _
    rw [hplace, ht, Nat.add_right_comm, sampleAt_of_span hd]
  | @spline u h =>
    have hfirst : first = a * u.factor := hb
    have hstart : Interpolates x u.factor u.interpolation a a first u.reset := by
      refine ⟨rfl, rfl, le_rfl, by rw [if_pos rfl]; rfl, ?_, fun _ h => by omega⟩
      rw [max_eq_left (Nat.sub_le _ _), hfirst]
    exact upsampler_eq h x hstart n i (by omega) hy

end RateConversion
