import RateConversion.Proofs.Serving

/-! Ticks counted over the spans of a stream. A clock is asked how many ticks a span makes
ready and is then moved past the span, again and again. However the stream is cut into spans,
each tick is counted in the span that holds the sample which makes it ready, and in no other.
The clock knows of the stream only where it stands from the next tick. -/

namespace RateConversion

namespace TickClock

/-- Counts the ticks of each span and moves past it, and gives the ticks of all. -/
def skipAll : TickClock → List Nat → Checked (TickClock × Nat)
  | c, [] => .ok (c, 0)
  | c, n :: ns => do
    let ticks := c.count n
    let later ← c.advance n ticks
    let rest ← later.skipAll ns
    .ok (rest.1, ticks + rest.2)

structure InWords (factor reach lead : Nat) : Prop where
  stride_pos : 0 < factor
  stride_lt : factor < 2 ^ 63
  first_lt : lead + reach < 2 ^ 63

structure Reckons (factor reach lead n ticks : Nat) (c : TickClock) : Prop where
  stride : c.stride = factor
  lookahead : c.lookahead = reach
  phase : c.phase = n - (lead + ticks * factor : Nat)
  due : n ≤ lead + reach + ticks * factor
  passed : 0 < ticks → lead + reach + ticks * factor < n + factor

theorem reckons_start {stride lookahead warmup leading : Nat}
    (w : InWords stride lookahead (leading + warmup)) :
    Reckons stride lookahead (leading + warmup) 0 0 (start stride lookahead warmup leading) := by
  have hlead : leading + warmup < 2 ^ 63 := (Nat.le_add_right _ _).trans_lt w.first_lt
  refine ⟨rfl, rfl, ?_, Nat.zero_le _, fun h => absurd h (Nat.lt_irrefl 0)⟩
  simp only [start]
  rw [Checked.signed_eq (by omega), if_pos hlead]
  omega

namespace Reckons

variable {factor reach lead n ticks : Nat} {c : TickClock}

theorem lt_ticks_iff (w : InWords factor reach lead)
    (h : Reckons factor reach lead n ticks c) (k : Nat) :
    k < ticks ↔ lead + reach + k * factor < n := by
  have hpos := w.stride_pos
  have hdue := h.due
  have hpassed := h.passed
  constructor
  · intro hk
    have hmul : (k + 1) * factor ≤ ticks * factor := Nat.mul_le_mul_right factor hk
    rw [Nat.add_one_mul] at hmul
    have hlast := hpassed (Nat.zero_lt_of_lt hk)
    omega
  · intro hlt
    apply Nat.lt_of_mul_lt_mul_right (a := factor)
    omega

theorem wait_add (w : InWords factor reach lead)
    (h : Reckons factor reach lead n ticks c) :
    c.wait + n = lead + reach + ticks * factor ∧ c.wait < 2 ^ 63 := by
  have hphase := h.phase
  have hlook := h.lookahead
  have hdue := h.due
  have hfirst := w.first_lt
  have hstride := w.stride_lt
  have hless : lead + reach + ticks * factor < n + 2 ^ 63 := by
    rcases Nat.eq_zero_or_pos ticks with hnone | hsome
    · rw [hnone, Nat.zero_mul]
      omega
    · have hlast := h.passed hsome
      omega
  simp only [wait, Checked.word]
  rw [Int.emod_eq_of_lt (by omega) (by omega)]
  omega

theorem wait_eq (w : InWords factor reach lead)
    (h : Reckons factor reach lead n ticks c) : (c.wait : Int) = reach - c.phase := by
  have hphase := h.phase
  have hwait := (h.wait_add w).1
  omega

theorem wait_lt_stride (w : InWords factor reach lead)
    (h : Reckons factor reach lead n ticks c) (hsome : 0 < ticks) : c.wait < factor := by
  have hlast := h.passed hsome
  have hwait := (h.wait_add w).1
  omega

theorem lt_count_iff (w : InWords factor reach lead)
    (h : Reckons factor reach lead n ticks c) (m k : Nat) :
    k < c.count m ↔ lead + reach + (ticks + k) * factor < n + m := by
  have hpos : 0 < c.stride := h.stride ▸ w.stride_pos
  have hwait := (h.wait_add w).1
  rw [TickClock.lt_count_iff hpos, h.stride, Nat.add_mul]
  omega

theorem count_mul_stride_lt (w : InWords factor reach lead)
    (h : Reckons factor reach lead n ticks c) {m : Nat} (hm : m < 2 ^ 62) :
    c.count m * factor < 2 ^ 63 := by
  have hstride := w.stride_lt
  have hpos : 0 < c.stride := h.stride ▸ w.stride_pos
  cases hcount : c.count m with
  | zero => omega
  | succ k =>
    have hlast := (TickClock.lt_count_iff hpos m k).mp (by omega)
    rw [h.stride] at hlast
    rw [Nat.add_one_mul]
    rcases Nat.eq_zero_or_pos k with hfirst | hmore
    · rw [hfirst, Nat.zero_mul]
      omega
    · have hone : factor ≤ k * factor := Nat.le_mul_of_pos_left factor hmore
      omega

theorem after_count (w : InWords factor reach lead)
    (h : Reckons factor reach lead n ticks c) (m : Nat) :
    Reckons factor reach lead (n + m) (ticks + c.count m)
      { c with phase := c.phase + m - (c.count m * factor : Nat) } := by
  have hphase := h.phase
  have hpos := w.stride_pos
  have hmul : (ticks + c.count m) * factor = ticks * factor + c.count m * factor :=
    Nat.add_mul _ _ _
  refine ⟨h.stride, h.lookahead, ?_, ?_, ?_⟩
  · dsimp only
    omega
  · exact Nat.le_of_not_lt fun hlt => Nat.lt_irrefl _ ((h.lt_count_iff w m _).mpr hlt)
  · intro hsome
    cases hcount : c.count m with
    | zero =>
      have hlast := h.passed (by omega)
      rw [Nat.add_zero]
      omega
    | succ k =>
      have hlast := (h.lt_count_iff w m k).mp (by omega)
      rw [← Nat.add_assoc, Nat.add_one_mul]
      omega

theorem advance (w : InWords factor reach lead)
    (h : Reckons factor reach lead n ticks c) {m : Nat} (hm : n + m < 2 ^ 62) :
    ∃ d, c.advance m (c.count m) = .ok d ∧
      Reckons factor reach lead (n + m) (ticks + c.count m) d := by
  have hback := h.count_mul_stride_lt w (show m < 2 ^ 62 by omega)
  have hlater := h.after_count w m
  have hwait := hlater.wait_eq w
  have hwait' := (hlater.wait_add w).2
  have hfirst := w.first_lt
  have hm' := Checked.signed_eq (show m < 2 ^ 64 by omega)
  have hback' := Checked.signed_eq (show c.count m * factor < 2 ^ 64 by omega)
  rw [if_pos (by omega)] at hm' hback'
  refine ⟨_, ?_, hlater⟩
  dsimp only at hwait
  simp only [TickClock.advance, Checked.bind_eq_ok_iff, Checked.mul_eq_ok_iff,
    Checked.signedRange_eq_ok_iff, h.stride]
  refine ⟨_, ⟨rfl, by omega⟩, _, ⟨rfl, ?_, ?_⟩, _, ⟨rfl, ?_, ?_⟩, ?_⟩
  case refine_5 =>
    rw [hm', hback', Int.add_sub_assoc]
  all_goals
    rw [hm', hback']
    omega

theorem skipAll (w : InWords factor reach lead)
    (h : Reckons factor reach lead n ticks c) {ns : List Nat} (hns : n + ns.sum < 2 ^ 62) :
    ∃ d more, c.skipAll ns = .ok (d, more) ∧
      Reckons factor reach lead (n + ns.sum) (ticks + more) d := by
  induction ns generalizing n ticks c with
  | nil => exact ⟨c, 0, rfl, h⟩
  | cons m ns ih =>
    rw [List.sum_cons] at hns ⊢
    obtain ⟨later, hlater, hreckons⟩ := h.advance w (show n + m < 2 ^ 62 by omega)
    obtain ⟨d, more, hrest, hend⟩ := ih hreckons (by omega)
    refine ⟨d, c.count m + more, ?_, ?_⟩
    · rw [TickClock.skipAll, hlater, Checked.ok_bind, hrest]
      rfl
    · rwa [Nat.add_assoc, Nat.add_assoc] at hend

theorem count_lt_count_succ_iff (w : InWords factor reach lead)
    (h : Reckons factor reach lead n ticks c) (j : Nat) :
    c.count j < c.count (j + 1) ↔ ∃ k, n + j = lead + reach + k * factor := by
  constructor
  · intro hlt
    have hin := (h.lt_count_iff w (j + 1) _).mp hlt
    have hout := mt (h.lt_count_iff w j (c.count j)).mpr (Nat.lt_irrefl _)
    exact ⟨ticks + c.count j, by omega⟩
  · rintro ⟨k, hk⟩
    -- The tick is still to come, as the ticks behind have been made ready before.
    have hnext : ticks ≤ k := by
      by_contra hbehind
      have hready := (h.lt_ticks_iff w k).mp (Nat.lt_of_not_le hbehind)
      omega
    have hsum : ticks + (k - ticks) = k := Nat.add_sub_cancel' hnext
    have hin := h.lt_count_iff w (j + 1) (k - ticks)
    have hout := h.lt_count_iff w j (k - ticks)
    rw [hsum] at hin hout
    omega

theorem count_succ_le (w : InWords factor reach lead)
    (h : Reckons factor reach lead n ticks c) (j : Nat) :
    c.count (j + 1) ≤ c.count j + 1 := by
  have hpos := w.stride_pos
  have hout := mt (h.lt_count_iff w j (c.count j)).mpr (Nat.lt_irrefl _)
  apply Nat.le_of_not_lt
  intro hlt
  have hin := (h.lt_count_iff w (j + 1) _).mp hlt
  rw [← Nat.add_assoc, Nat.add_one_mul] at hin
  omega

theorem count_add (w : InWords factor reach lead)
    (h : Reckons factor reach lead n ticks c) {m : Nat} {d : TickClock}
    (hd : Reckons factor reach lead (n + m) (ticks + c.count m) d) (b : Nat) :
    c.count (m + b) = c.count m + d.count b := by
  have hle : c.count m ≤ c.count (m + b) :=
    count_mono (h.stride ▸ w.stride_pos) (Nat.le_add_right m b)
  have hboth (k : Nat) : c.count m + k < c.count (m + b) ↔ k < d.count b := by
    rw [h.lt_count_iff w, hd.lt_count_iff w, Nat.add_assoc ticks, Nat.add_assoc n]
  have hends := hboth (c.count (m + b) - c.count m)
  have hends' := hboth (d.count b)
  omega

end Reckons

/-- A clock `d` that was `c` before `n` samples and `ticks` ticks. The first tick of `c` is
sample `lead`. -/
structure Counted (c : TickClock) (lead n ticks : Nat) (d : TickClock) : Prop where
  counted : ticks = c.count n
  phase : d.phase = n - lead - c.stride * ticks
  wait : (d.wait : Int) = c.lookahead - d.phase
  soon : 0 < ticks → d.wait < c.stride
  ready (j : Nat) : d.count j < d.count (j + 1) ↔ ∃ k, n + j = lead + c.lookahead + k * c.stride
  once (j : Nat) : d.count (j + 1) ≤ d.count j + 1
  add (a : Nat) : n + a < 2 ^ 62 →
    ∃ e, d.advance a (d.count a) = .ok e ∧ ∀ b, d.count (a + b) = d.count a + e.count b

def CountsOnce (c : TickClock) (lead : Nat) : Prop :=
  ∀ ns : List Nat, ns.sum < 2 ^ 62 →
    ∃ d ticks, c.skipAll ns = .ok (d, ticks) ∧ Counted c lead ns.sum ticks d

theorem Reckons.counted {factor reach lead n ticks : Nat} {c d : TickClock}
    (w : InWords factor reach lead) (hc : Reckons factor reach lead 0 0 c)
    (hd : Reckons factor reach lead n ticks d) : Counted c lead n ticks d := by
  have hphase := hd.phase
  refine ⟨?_, ?_, ?_, ?_, ?_, hd.count_succ_le w, ?_⟩
  · apply eq_of_forall_lt_iff
    intro k
    rw [hd.lt_ticks_iff w, hc.lt_count_iff w, Nat.zero_add, Nat.zero_add]
  · rw [hphase, hc.stride]
    push_cast
    ring
  · rw [hc.lookahead]
    exact hd.wait_eq w
  · rw [hc.stride]
    exact hd.wait_lt_stride w
  · rw [hc.lookahead, hc.stride]
    exact hd.count_lt_count_succ_iff w
  · intro a ha
    obtain ⟨e, he, hreckons⟩ := hd.advance w ha
    exact ⟨e, he, hd.count_add w hreckons⟩

theorem countsOnce_start {stride lookahead warmup leading : Nat}
    (w : InWords stride lookahead (leading + warmup)) :
    (start stride lookahead warmup leading).CountsOnce (leading + warmup) := by
  intro ns hns
  have hstart := reckons_start w
  obtain ⟨d, ticks, hrun, hend⟩ := hstart.skipAll w (show 0 + ns.sum < 2 ^ 62 by omega)
  rw [Nat.zero_add, Nat.zero_add] at hend
  exact ⟨d, ticks, hrun, hstart.counted w hend⟩

theorem inWords_ofDecimation {factor leading : Nat} (hpos : 0 < factor) (hlt : factor < 2 ^ 32)
    (d : Decimation) (hl : leading < factor) :
    InWords factor (d.reach factor) (leading + d.warmup factor) := by
  have hreach := d.reach_lt hlt
  have hwarmup := d.warmup_lt hlt
  exact ⟨hpos, by omega, by omega⟩

/-- A clock counts each tick once, if a stride and the sample that makes the first tick ready
are numbers of a signed word. They are for every clock that a downsampling can start with. -/
theorem counts_each_tick_once :
    (∀ stride lookahead warmup leading : Nat, 0 < stride → stride < 2 ^ 63 →
      lookahead + leading + warmup < 2 ^ 63 →
      (start stride lookahead warmup leading).CountsOnce (leading + warmup)) ∧
    (∀ factor d leading, 0 < factor → factor < 2 ^ 63 →
      d.reach factor + leading + d.warmup factor < 2 ^ 63 →
      (ofDecimation factor d leading).CountsOnce (leading + d.warmup factor)) ∧
    ∀ config s, Setup.ofConfig config = .ok s →
      ∀ factor d z, s.conversion = .down factor d z → ∀ leading < factor,
        (ofDecimation factor d leading).CountsOnce (leading + d.warmup factor) := by
  refine ⟨?_, ?_, ?_⟩
  · intro stride lookahead warmup leading hpos hstride hfirst
    exact countsOnce_start ⟨hpos, hstride, by omega⟩
  · intro factor d leading hpos hstride hfirst
    exact countsOnce_start ⟨hpos, hstride, by omega⟩
  · intro config s hs factor d z hdown leading hl
    have hfits := (Setup.ofConfig_eq_ok_iff.mp hs).2.fits
    rw [hdown] at hfits
    exact countsOnce_start (inWords_ofDecimation hfits.1 hfits.2 d hl)

/-- Three ticks in three spans. The first span ends with the sample that makes its tick ready,
and the second is without a tick. -/
theorem counts_each_tick_once_of_three_spans :
    0 < 4 ∧ 4 < 2 ^ 63 ∧ 2 + 3 + 0 < 2 ^ 63 ∧ [6, 3, 5].sum < 2 ^ 62 ∧
      (start 4 2 0 3).skipAll [6, 3, 5] = .ok (⟨4, 2, -1⟩, 3) ∧
      Counted (start 4 2 0 3) (3 + 0) [6, 3, 5].sum 3 ⟨4, 2, -1⟩ := by
  have hrun : (start 4 2 0 3).skipAll [6, 3, 5] = .ok (⟨4, 2, -1⟩, 3) := by decide
  obtain ⟨d, ticks, hend, hcounted⟩ := counts_each_tick_once.1 4 2 0 3 (by decide) (by decide)
    (by decide) [6, 3, 5] (by decide)
  cases hrun.symm.trans hend
  exact ⟨by decide, by decide, by decide, by decide, hrun, hcounted⟩

theorem not_countsOnce_of_fault {c : TickClock} {ns : List Nat} {f : Fault}
    (hns : ns.sum < 2 ^ 62) (h : c.skipAll ns = .error f) (lead : Nat) : ¬c.CountsOnce lead := by
  intro hcounts
  obtain ⟨d, ticks, hrun, -⟩ := hcounts ns hns
  cases h.symm.trans hrun

/-- Neither bound can be left out. A stride beyond the signed words is too far to move by, and a
clock whose first tick is beyond them starts at the end of the words, where it cannot move. -/
theorem not_countsOnce_beyond_words :
    (0 < 2 ^ 63 ∧ ¬(start (2 ^ 63) 0 0 0).CountsOnce 0) ∧
      ¬(start 1 0 0 (2 ^ 63 + 1)).CountsOnce (2 ^ 63 + 1) :=
  have hns : [1].sum < 2 ^ 62 := by decide
  ⟨⟨by decide, not_countsOnce_of_fault hns (f := .overflow) (by decide) _⟩,
    not_countsOnce_of_fault hns (f := .overflow) (by decide) _⟩

end TickClock

end RateConversion
