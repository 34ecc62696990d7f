import Mathlib.Data.List.DropRight
import RateConversion.Proofs.GapZeros
import RateConversion.Proofs.Prediction

/-! Where the silence of a gap begins. The mark on the output of a gap is the least offset
from which everything is zero, however the gap went through the kernel, and a stamp that is
cut there falls into two that cover the same samples and the same time. -/

namespace RateConversion

namespace Kernel

variable {α ρ : Type} [Sample α ρ]

theorem take_loudLen (ys : List α) : ys.take (loudLen ys) = ys.rdropWhile isZero := by
  have hlen : loudLen ys = (ys.rdropWhile isZero).length := by
    rw [loudLen, List.rdropWhile, List.length_reverse]
  rw [hlen]
  exact (List.prefix_iff_eq_take.mp (List.rdropWhile_prefix _ ys)).symm

theorem loudLen_le (ys : List α) : loudLen ys ≤ ys.length := by
  simp only [loudLen]
  exact (List.dropWhile_sublist _).length_le.trans_eq List.length_reverse

theorem loudLen_eq_zero_iff {ys : List α} : loudLen ys = 0 ↔ ∀ x ∈ ys, isZero x = true := by
  simp only [loudLen, List.length_eq_zero_iff, List.dropWhile_eq_nil_iff, List.mem_reverse]

theorem isZero_of_loudLen {ys : List α} : ∀ x ∈ ys.drop (loudLen ys), isZero x = true := by
  have hsplit := List.rdropWhile_append_rtakeWhile (p := isZero) (l := ys)
  have htail : ys.drop (loudLen ys) = ys.rtakeWhile isZero := by
    have hparts := (List.take_append_drop (loudLen ys) ys).trans hsplit.symm
    rw [take_loudLen] at hparts
    exact List.append_cancel_left hparts
  intro x hx
  rw [htail] at hx
  exact List.mem_rtakeWhile_imp hx

theorem not_isZero_before {ys : List α} (h : 0 < loudLen ys) :
    ∃ x, ys[loudLen ys - 1]? = some x ∧ isZero x = false := by
  have hle := loudLen_le ys
  have hne : ys.rdropWhile isZero ≠ [] := by
    rw [← take_loudLen, ← List.length_pos_iff, List.length_take]
    omega
  refine ⟨_, ?_, Bool.eq_false_iff.mpr (List.rdropWhile_last_not isZero ys hne)⟩
  rw [← List.getLast?_eq_some_getLast hne, ← take_loudLen, List.getLast?_take, if_neg h.ne']
  rw [List.getElem?_eq_getElem (by omega)]
  rfl

theorem loudLen_append (ys zs : List α) :
    loudLen (ys ++ zs) = if loudLen zs = 0 then loudLen ys else ys.length + loudLen zs := by
  have hnil : loudLen zs = 0 ↔ (zs.reverse.dropWhile isZero).isEmpty = true := by
    rw [loudLen, List.isEmpty_iff, List.length_eq_zero_iff]
  simp only [hnil]
  simp only [loudLen, List.reverse_append, List.dropWhile_append]
  split_ifs
  · rfl
  · rw [List.length_append, List.length_reverse, Nat.add_comm]

variable [Zero α] [Add α] [Sub α] [Add ρ] [Mul ρ] [Scalar ρ]

theorem loud_feedGap (hz : isZero (0 : α) = true) {k : Kernel α ρ} {n room : Nat}
    {p : Produced α ρ} (hp : k.feedGap n room = .ok p) : p.loud = loudLen p.output := by
  induction n using Nat.strong_induction_on generalizing k room p with
  | _ n ih =>
    rw [Kernel.feedGap] at hp
    split_ifs at hp with h0 hsilent
    · cases hp
      rfl
    · obtain ⟨k', -, hp⟩ := Checked.bind_eq_ok_iff.mp hp
      cases hp
      refine (loudLen_eq_zero_iff.mpr fun x hx => ?_).symm
      rw [List.eq_of_mem_replicate hx]
      exact hz
    · obtain ⟨r, -, hp⟩ := Checked.bind_eq_ok_iff.mp hp
      dsimp only at hp
      split_ifs at hp
      obtain ⟨q, hq, hp⟩ := Checked.bind_eq_ok_iff.mp hp
      cases hp
      have hlt : n - min n blockLen < n := by
        simp only [blockLen]
        omega
      dsimp only
      rw [loudLen_append, ih _ hlt hq]

end Kernel

/-- A stamp tells of the output of a gap from where on it is silent. -/
structure Stamp.Marks {α ρ : Type} [Sample α ρ] (m : Stamp) (ys : List α) : Prop where
  begins : m.offset ≤ m.gapStart
  ends : m.gapStart ≤ m.offsetEnd
  silent (i : Nat) (x : α) : ys[i]? = some x → m.gapStart ≤ m.offset + i → isZero x = true
  loud : m.offset < m.gapStart →
    ∃ x, ys[m.gapStart - m.offset - 1]? = some x ∧ isZero x = false
  gap : m.gap = true ↔ ∀ x ∈ ys, isZero x = true

theorem Stamp.marks_of_loudLen {α ρ : Type} [Sample α ρ] {m : Stamp} {ys : List α}
    (hlen : m.offsetEnd = m.offset + ys.length) (hcut : m.gapStart = m.offset + Kernel.loudLen ys)
    (hgap : m.gap = (Kernel.loudLen ys == 0)) : m.Marks ys := by
  have hle := Kernel.loudLen_le ys
  refine ⟨by omega, by omega, fun i x hx hi => ?_, fun hpos => ?_, ?_⟩
  · have hi : Kernel.loudLen ys ≤ i := by omega
    have hdrop : (ys.drop (Kernel.loudLen ys))[i - Kernel.loudLen ys]? = some x := by
      rw [List.getElem?_drop, Nat.add_sub_cancel' hi]
      exact hx
    exact Kernel.isZero_of_loudLen x (List.mem_of_getElem? hdrop)
  · rw [hcut, Nat.add_sub_cancel_left]
    exact Kernel.not_isZero_before (by omega)
  · rw [hgap, beq_iff_eq]
    exact Kernel.loudLen_eq_zero_iff

namespace Segment

variable {s : Segment} {rateOut : Nat} {m : Stamp}

structure Gave (s : Segment) (rateOut : Nat) (m : Stamp) : Prop where
  begun : s.start?.isSome → s.origin ≤ m.offset
  timed : s.Timed rateOut m.offsetEnd
  timestamp : m.timestamp? = s.time? rateOut m.offset
  duration : m.duration? = s.duration? rateOut m.offset m.offsetEnd

def head (s : Segment) (rateOut : Nat) (m : Stamp) : Stamp :=
  { m with
    offsetEnd := m.gapStart, duration? := s.duration? rateOut m.offset m.gapStart, gap := false }

def tail (s : Segment) (rateOut : Nat) (m : Stamp) : Stamp :=
  { m with
    offset := m.gapStart, timestamp? := s.time? rateOut m.gapStart
    duration? := s.duration? rateOut m.gapStart m.offsetEnd, discont := false, gap := true }

theorem split_eq_none (h : m.gapStart ≤ m.offset ∨ m.offsetEnd ≤ m.gapStart) :
    s.split rateOut m = .ok none := if_pos h

theorem Gave.split_eq (h : s.Gave rateOut m) (hb : m.offset < m.gapStart)
    (he : m.gapStart < m.offsetEnd) :
    s.split rateOut m = .ok (some (s.head rateOut m, s.tail rateOut m)) := by
  -- The times of the beginning and of the cut fit because that of the end does.
  have hcut : s.Timed rateOut m.gapStart := h.timed.mono (fun hs => (h.begun hs).trans hb.le) he.le
  have hbegin : s.Timed rateOut m.offset := hcut.mono h.begun hb.le
  simp only [split]
  rw [if_neg (by omega)]
  exact Checked.bind_eq_ok_iff.mpr ⟨_, timeBetween_eq_ok hbegin hcut hb.le,
    Checked.bind_eq_ok_iff.mpr ⟨_, timeAt_eq_ok_iff.mpr ⟨hcut, rfl⟩,
      Checked.bind_eq_ok_iff.mpr ⟨_, timeBetween_eq_ok hcut h.timed he.le, rfl⟩⟩⟩

theorem time?_add (rateOut : Nat) {a b start : Nat} (hs : s.start? = some start) (hab : a ≤ b) :
    ∃ t d, s.time? rateOut a = some t ∧ s.duration? rateOut a b = some d ∧
      s.time? rateOut b = some (t + d) := by
  have hm := Grid.timeOfTick_mono rateOut (show a - s.origin ≤ b - s.origin by omega)
  simp only [time?, duration?]
  rw [hs]
  refine ⟨_, _, rfl, rfl, congr_arg some ?_⟩
  dsimp only
  omega

end Segment

structure Stamp.Splits (m head tail : Stamp) : Prop where
  begins : head.offset = m.offset
  meets : head.offsetEnd = m.gapStart
  follows : tail.offset = m.gapStart
  ends : tail.offsetEnd = m.offsetEnd
  lengths : ∃ a b, head.len = .ok a ∧ tail.len = .ok b ∧ m.len = .ok (a + b)
  head_timestamp : head.timestamp? = m.timestamp?
  head_discont : head.discont = m.discont
  head_gap : head.gap = false
  tail_discont : tail.discont = false
  tail_gap : tail.gap = true

structure Stamp.SplitsTime (m head tail : Stamp) : Prop where
  follows : ∃ t d, head.timestamp? = some t ∧ head.duration? = some d ∧
    tail.timestamp? = some (t + d)
  durations : ∃ d e, head.duration? = some d ∧ tail.duration? = some e ∧
    m.duration? = some (d + e)

namespace Segment

variable {s : Segment} {rateOut : Nat} {m : Stamp}

theorem splits (hb : m.offset < m.gapStart) (he : m.gapStart < m.offsetEnd) :
    m.Splits (s.head rateOut m) (s.tail rateOut m) where
  begins := rfl
  meets := rfl
  follows := rfl
  ends := rfl
  lengths := by
    refine ⟨m.gapStart - m.offset, m.offsetEnd - m.gapStart, ?_, ?_, ?_⟩
    · exact Checked.sub_eq_ok_iff.mpr ⟨rfl, hb.le⟩
    · exact Checked.sub_eq_ok_iff.mpr ⟨rfl, he.le⟩
    · exact Checked.sub_eq_ok_iff.mpr ⟨by omega, by omega⟩
  head_timestamp := rfl
  head_discont := rfl
  head_gap := rfl
  tail_discont := rfl
  tail_gap := rfl

theorem Gave.splitsTime (h : s.Gave rateOut m) (hs : s.start?.isSome)
    (hb : m.offset < m.gapStart) (he : m.gapStart < m.offsetEnd) :
    m.SplitsTime (s.head rateOut m) (s.tail rateOut m) := by
  obtain ⟨start, hstart⟩ := Option.isSome_iff_exists.mp hs
  obtain ⟨t, d, ht, hd, hcut⟩ := time?_add rateOut hstart hb.le
  obtain ⟨_, e, -, he', -⟩ := time?_add rateOut hstart he.le
  -- Offsets are counted from the offset of the stamp here.
  have hordered : ({ s with nextOut := m.offset } : Segment).Ordered := h.begun
  have hsum := duration?_add hordered le_rfl hb.le he.le hd he'
  exact ⟨⟨t, d, h.timestamp.trans ht, hd, hcut⟩, ⟨d, e, hd, he', h.duration.trans hsum⟩⟩

end Segment

namespace Converter

variable {α ρ : Type} [Zero α] [Add α] [Sub α] [Add ρ] [Mul ρ] [Scalar ρ] [Sample α ρ]
  {c d : Converter α ρ} {b : Buffer α} {slice : List α} {t : Transformed α ρ}

theorem length_of_proceed {n : Nat} {r : Converter α ρ × List α × Stamp}
    (hr : d.proceed b n = .ok r) : r.2.1.length = n := by
  obtain ⟨_, -, hr⟩ := Checked.bind_eq_ok_iff.mp hr
  obtain ⟨_, -, hr⟩ := Checked.bind_eq_ok_iff.mp hr
  obtain ⟨_, -, hr⟩ := Checked.bind_eq_ok_iff.mp hr
  obtain ⟨p, -, hr⟩ := Checked.bind_eq_ok_iff.mp hr
  obtain ⟨_, hlen, hr⟩ := Checked.bind_eq_ok_iff.mp hr
  obtain ⟨_, -, hr⟩ := Checked.bind_eq_ok_iff.mp hr
  cases hr
  exact Checked.require_eq_ok_iff.mp hlen

theorem gave_of_proceed (ho : d.segment.Ordered) {n : Nat}
    {r : Converter α ρ × List α × Stamp} (hr : d.proceed b n = .ok r) :
    r.1.segment.Gave r.1.setup.rateOut r.2.2 := by
  obtain ⟨p, -, -, -, -, ht, rfl⟩ := exists_of_proceed ho hr
  exact ⟨ho, ht, rfl, rfl⟩

theorem marks_of_proceed (hz : isZero (0 : α) = true) (ho : d.segment.Ordered) {n : Nat}
    {r : Converter α ρ × List α × Stamp} (hr : d.proceed b n = .ok r) :
    r.2.2.offsetEnd = r.2.2.offset + r.2.1.length ∧
      if b.header.gap then r.2.2.Marks r.2.1
      else r.2.2.gap = false ∧ r.2.2.gapStart = r.2.2.offsetEnd := by
  have hlen := length_of_proceed hr
  obtain ⟨p, hp, -, -, -, -, rfl⟩ := exists_of_proceed ho hr
  dsimp only at hlen
  refine ⟨by simp only [Segment.stampOf, hlen], ?_⟩
  simp only [Kernel.give] at hp
  split_ifs at hp ⊢ with hg
  · have hloud := Kernel.loud_feedGap hz hp
    refine Stamp.marks_of_loudLen ?_ ?_ ?_
    · simp only [Segment.stampOf, hlen]
    · simp only [Segment.stampOf, hg, hloud, if_true]
    · simp only [Segment.stampOf, hg, hloud, Bool.true_and]
  · simp only [Segment.stampOf, hg]
    exact ⟨rfl, rfl⟩

/-- The mark on the output of a gap is tight, and the output is cut there into two parts that
share out its samples and its time. Of the arithmetic only the test for zero counts. -/
theorem gap_marks_tight [Element α] (hz : isZero (0 : α) = true) (hc : c.Reachable)
    (ht : c.transform b slice = .ok (.ok t)) :
    (∃ ys, t.slice = ys ++ slice.drop ys.length ∧
      t.stamp.offsetEnd = t.stamp.offset + ys.length ∧
      (b.header.gap = true → t.stamp.Marks ys) ∧
      (b.header.gap = false →
        t.stamp.gap = false ∧ t.stamp.gapStart = t.stamp.offsetEnd)) ∧
    ∃ parts?, t.converter.splitStamp t.stamp = .ok parts? ∧
      (parts?.isSome ↔
        t.stamp.offset < t.stamp.gapStart ∧ t.stamp.gapStart < t.stamp.offsetEnd) ∧
      ∀ head tail, parts? = some (head, tail) →
        t.stamp.Splits head tail ∧
        (t.converter.segment.start?.isSome → t.stamp.SplitsTime head tail) ∧
        t.converter.splitStamp head = .ok none ∧ t.converter.splitStamp tail = .ok none := by
  have hv := hc.valid Kernel.serves_stable
  obtain ⟨hb, n, d, output, -, -, hd, hr, hslice⟩ := exists_of_transform ht
  have ho := (hv.enter Kernel.serves_stable hd).ordered
  have hlen := length_of_proceed hr
  obtain ⟨hends, hmarks⟩ := marks_of_proceed hz ho hr
  have hgave := gave_of_proceed ho hr
  dsimp only at hlen hends hmarks hgave
  refine ⟨⟨output, hlen.symm ▸ hslice, hends, fun hg => ?_, fun hg => ?_⟩, ?_⟩
  · rwa [if_pos hg] at hmarks
  · rwa [hg, if_neg Bool.false_ne_true] at hmarks
  · by_cases hcut : t.stamp.offset < t.stamp.gapStart ∧ t.stamp.gapStart < t.stamp.offsetEnd
    · obtain ⟨hbegin, hend⟩ := hcut
      refine ⟨_, hgave.split_eq hbegin hend, ⟨fun _ => ⟨hbegin, hend⟩, fun _ => rfl⟩, ?_⟩
      intro head tail hparts
      cases hparts
      exact ⟨Segment.splits hbegin hend, fun hs => hgave.splitsTime hs hbegin hend,
        Segment.split_eq_none (.inr le_rfl), Segment.split_eq_none (.inl le_rfl)⟩
    · refine ⟨none, Segment.split_eq_none (by omega), ⟨fun h => ?_, fun h => absurd h hcut⟩, ?_⟩
      · cases h
      · intro head tail hparts
        cases hparts

open Rational in
theorem gap_marks_tight_after_sample :
    ∃ (c : Converter ℚ ℚ) (reply : Reply (List ℚ)) (t : Transformed ℚ ℚ) (head tail : Stamp),
      (ofSetup (tripling 1 .linear)).respond (piece 0 [3] 0) = .ok (c, reply) ∧
      c.transform ⟨⟨2, 1, some 0, true, false⟩, []⟩ (List.replicate 7 5) = .ok (.ok t) ∧
      t.converter.splitStamp t.stamp = .ok (some (head, tail)) ∧
      t.stamp.Splits head tail ∧ t.stamp.SplitsTime head tail := by
  have hmade : (ofSetup (tripling 1 .linear) : Converter ℚ ℚ).Reachable :=
    .made (show ofConfig (tripling 1 .linear).config = .ok (ofSetup (tripling 1 .linear)) from rfl)
  -- As samples the zeros give two lines and leave one sample of the slice.
  obtain ⟨c, reply, hc, u, hu, hslice, hoffset, hend, hstart⟩ :
      ∃ (c : Converter ℚ ℚ) (reply : Reply (List ℚ)),
        (ofSetup (tripling 1 .linear)).respond (piece 0 [3] 0) = .ok (c, reply) ∧
        ∃ u, c.transform (.zeros ⟨2, 1, some 0, true, false⟩) (List.replicate 7 5) = .ok (.ok u) ∧
          u.slice = Upsampler.line 3 3 0 ++ Upsampler.line 3 0 0 ++ [5] ∧
          u.stamp.offset = 0 ∧ u.stamp.offsetEnd = 6 ∧ u.converter.segment.start?.isSome :=
    ⟨_, _, rfl, _, rfl, rfl, rfl, rfl, rfl⟩
  have hreach := hmade.step hc
  have hboth := transform_zeros inertZeros (hreach.valid Kernel.poised_stable) (exactWeights _)
    (b := ⟨⟨2, 1, some 0, true, false⟩, []⟩) rfl (by decide) (List.replicate 7 5)
  rw [hu] at hboth
  obtain ⟨_, ht, hsame⟩ := hboth.exists_left
  cases hsame with
  | @accepted t _ halike hsame hspan =>
    have hbegins : t.stamp.offset = 0 := (congr_arg Stamp.offset hspan).trans hoffset
    have hends : t.stamp.offsetEnd = 6 := (congr_arg Stamp.offsetEnd hspan).trans hend
    obtain ⟨⟨ys, hys, hlen, hmarks, -⟩, parts?, hsplit, hiff, hparts⟩ :=
      gap_marks_tight (show isZero (0 : ℚ) = true from rfl) hreach ht
    have hlen : ys.length = 6 := by omega
    rw [hlen, hsame, hslice] at hys
    have hlines : Upsampler.line 3 3 0 ++ Upsampler.line 3 0 0 = ys :=
      (List.append_inj' hys rfl).1
    obtain ⟨hb, he, hsilent, hloud, -⟩ := hmarks rfl
    have hfirst : 0 < t.stamp.gapStart := by
      by_contra hle
      have hzero := hsilent 0 3 (by rw [← hlines]; rfl) (by omega)
      exact absurd hzero (by decide)
    have hlast : t.stamp.gapStart < 6 := by
      by_contra hle
      obtain ⟨x, hx, hnot⟩ := hloud (by omega)
      have hat : t.stamp.gapStart - t.stamp.offset - 1 = 5 := by omega
      rw [hat, ← hlines] at hx
      cases hx
      exact absurd hnot (by decide +kernel)
    obtain ⟨⟨head, tail⟩, hsome⟩ := Option.isSome_iff_exists.mp (hiff.mpr (by omega))
    obtain ⟨h1, h2, -⟩ := hparts head tail hsome
    exact ⟨c, reply, t, head, tail, hc, ht, hsome ▸ hsplit, h1, h2 (halike.segment ▸ hstart)⟩

end Converter

end RateConversion
