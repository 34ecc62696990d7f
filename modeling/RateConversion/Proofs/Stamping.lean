import RateConversion.Segment
import RateConversion.Proofs.Rescale

/-! The stamps of a segment. The times of output offsets are those of whole ticks after the
start of the segment, so they grow with the offset, and a span can be stamped exactly
when its end and the time of its end fit in a word. -/

namespace RateConversion

theorem Grid.timeOfTick_mono (rateOut : Nat) {a b : Nat} (h : a ≤ b) :
    timeOfTick rateOut a ≤ timeOfTick rateOut b :=
  Scale.round_mono _ _ h

namespace Segment

def Ordered (s : Segment) : Prop := s.start?.isSome → s.origin ≤ s.nextOut

def Timed (s : Segment) (rateOut offset : Nat) : Prop :=
  ∀ start, s.start? = some start → s.origin ≤ offset ∧
    start + Grid.timeOfTick rateOut (offset - s.origin) < 0x10000000000000000

def time? (s : Segment) (rateOut offset : Nat) : Option Nat :=
  s.start?.map fun start => start + Grid.timeOfTick rateOut (offset - s.origin)

def duration? (s : Segment) (rateOut offset offsetEnd : Nat) : Option Nat :=
  s.start?.map fun _ =>
    Grid.timeOfTick rateOut (offsetEnd - s.origin) - Grid.timeOfTick rateOut (offset - s.origin)

def stampOf (s : Segment) (rateOut len : Nat) (gap : Bool) (loud : Nat) : Stamp where
  offset := s.nextOut
  offsetEnd := s.nextOut + len
  timestamp? := s.time? rateOut s.nextOut
  duration? := s.duration? rateOut s.nextOut (s.nextOut + len)
  discont := s.armed && 0 < len
  gap := gap && loud == 0
  gapStart := if gap then s.nextOut + loud else s.nextOut + len

def emit (s : Segment) (len : Nat) : Segment :=
  { s with nextOut := s.nextOut + len, armed := s.armed && !(s.armed && 0 < len) }

variable {s : Segment} {rateOut : Nat}

theorem Timed.mono {a b : Nat} (h : s.Timed rateOut b) (ha : s.start?.isSome → s.origin ≤ a)
    (hab : a ≤ b) : s.Timed rateOut a := by
  intro start hs
  have hb := (h start hs).2
  have hm := Grid.timeOfTick_mono rateOut (show a - s.origin ≤ b - s.origin by omega)
  exact ⟨ha (by rw [hs]; rfl), by omega⟩

theorem timeAt_eq_ok_iff {offset : Nat} {t? : Option Nat} :
    s.timeAt rateOut offset = .ok t? ↔ s.Timed rateOut offset ∧ t? = s.time? rateOut offset := by
  simp only [timeAt, Timed, time?]
  cases s.start? with
  | none => simp [eq_comm]
  | some start =>
    simp only [Checked.bind_eq_ok_iff, Checked.sub_eq_ok_iff, Checked.add_eq_ok_iff,
      Option.some.injEq, forall_eq', Option.map_some, Except.ok.injEq]
    constructor
    · rintro ⟨_, ⟨rfl, h1⟩, _, ⟨rfl, h2⟩, rfl⟩
      exact ⟨⟨h1, h2⟩, rfl⟩
    · rintro ⟨⟨h1, h2⟩, rfl⟩
      exact ⟨_, ⟨rfl, h1⟩, _, ⟨rfl, h2⟩, rfl⟩

theorem timeBetween_eq_ok {offset offsetEnd : Nat} (h : s.Timed rateOut offset)
    (he : s.Timed rateOut offsetEnd) (hle : offset ≤ offsetEnd) :
    s.timeBetween rateOut offset offsetEnd = .ok (s.duration? rateOut offset offsetEnd) := by
  have h1 := timeAt_eq_ok_iff.mpr ⟨h, rfl⟩
  have h2 := timeAt_eq_ok_iff.mpr ⟨he, rfl⟩
  have hm := Grid.timeOfTick_mono rateOut (show offset - s.origin ≤ offsetEnd - s.origin by omega)
  simp only [timeBetween]
  refine Checked.bind_eq_ok_iff.mpr ⟨_, h2, Checked.bind_eq_ok_iff.mpr ⟨_, h1, ?_⟩⟩
  simp only [time?, duration?]
  cases s.start? with
  | none => rfl
  | some start =>
    generalize Grid.timeOfTick rateOut (offsetEnd - s.origin) = till at hm ⊢
    generalize Grid.timeOfTick rateOut (offset - s.origin) = since at hm ⊢
    exact Checked.bind_eq_ok_iff.mpr ⟨_, Checked.sub_eq_ok_iff.mpr
      ⟨(Nat.add_sub_add_left start till since).symm, Nat.add_le_add_left hm start⟩, rfl⟩

theorem stamp_eq_ok_iff (ho : s.Ordered) {len loud : Nat} {gap : Bool} {r : Segment × Stamp} :
    s.stamp rateOut len gap loud = .ok r ↔
      s.nextOut + len < 0x10000000000000000 ∧ s.Timed rateOut (s.nextOut + len) ∧
        r = (s.emit len, s.stampOf rateOut len gap loud) := by
  simp only [stamp]
  constructor
  · intro h
    obtain ⟨_, hadd, h⟩ := Checked.bind_eq_ok_iff.mp h
    obtain ⟨rfl, hlt⟩ := Checked.add_eq_ok_iff.mp hadd
    obtain ⟨_, htime, h⟩ := Checked.bind_eq_ok_iff.mp h
    obtain ⟨ht, rfl⟩ := timeAt_eq_ok_iff.mp htime
    obtain ⟨_, hdur, h⟩ := Checked.bind_eq_ok_iff.mp h
    have hend : s.Timed rateOut (s.nextOut + len) := by
      simp only [timeBetween] at hdur
      obtain ⟨_, htime, -⟩ := Checked.bind_eq_ok_iff.mp hdur
      exact (timeAt_eq_ok_iff.mp htime).1
    rw [timeBetween_eq_ok ht hend (Nat.le_add_right _ _)] at hdur
    cases hdur
    cases h
    exact ⟨hlt, hend, rfl⟩
  · rintro ⟨hlt, hend, rfl⟩
    have ht := hend.mono ho (Nat.le_add_right _ _)
    simp only [Checked.bind_eq_ok_iff]
    exact ⟨_, Checked.add_eq_ok_iff.mpr ⟨rfl, hlt⟩, _, timeAt_eq_ok_iff.mpr ⟨ht, rfl⟩, _,
      timeBetween_eq_ok ht hend (Nat.le_add_right _ _), rfl⟩

theorem idle_ordered : idle.Ordered := fun h => by cases h

theorem emit_ordered (ho : s.Ordered) (len : Nat) : (s.emit len).Ordered := fun h =>
  (ho h).trans (Nat.le_add_right _ _)

theorem armed_emit (s : Segment) (n : Nat) : (s.emit n).armed = (s.armed && n == 0) := by
  simp only [emit]
  cases n <;> simp

theorem emit_emit (s : Segment) (i j : Option Nat) (m n : Nat) :
    ({ ({ s with nextIn? := i } : Segment).emit m with nextIn? := j } : Segment).emit n =
      ({ s with nextIn? := j } : Segment).emit (m + n) := by
  have h : (s.armed && m == 0 && n == 0) = (s.armed && m + n == 0) := by
    cases m <;> cases n <;> simp
  rw [Segment.mk.injEq]
  refine ⟨rfl, rfl, rfl, Nat.add_assoc _ _ _, ?_⟩
  exact (armed_emit _ n).trans
    ((congr_arg (· && n == 0) (armed_emit _ m)).trans (h.trans (armed_emit _ (m + n)).symm))

theorem duration?_add (ho : s.Ordered) {a b c : Nat} (ha : s.nextOut ≤ a) (hab : a ≤ b)
    (hbc : b ≤ c) {d e : Nat} (hd : s.duration? rateOut a b = some d)
    (he : s.duration? rateOut b c = some e) : s.duration? rateOut a c = some (d + e) := by
  simp only [duration?] at *
  cases hs : s.start? with
  | none =>
    rw [hs] at hd
    cases hd
  | some start =>
    have := ho (by rw [hs]; rfl)
    have h1 := Grid.timeOfTick_mono rateOut (show a - s.origin ≤ b - s.origin by omega)
    have h2 := Grid.timeOfTick_mono rateOut (show b - s.origin ≤ c - s.origin by omega)
    rw [hs] at hd he
    simp only [Option.map_some, Option.some.injEq] at hd he ⊢
    omega

end Segment

end RateConversion
