import RateConversion.Proofs.Reachability

/-! Overflow is the only fault of a converter in a valid state. Differences do not go below
zero, reads stay inside their sequences, and a kernel gives as many samples as it told
beforehand, for a gap as for data. -/

namespace RateConversion

namespace Checked

/-- The computation overflows or gives a result with the property. -/
inductive UnlessOverflow {α : Type} (P : α → Prop) : Checked α → Prop
  | ok {a : α} (h : P a) : UnlessOverflow P (.ok a)
  | overflow : UnlessOverflow P (.error .overflow)

namespace UnlessOverflow

variable {α β : Type} {P : α → Prop} {Q : β → Prop} {x : Checked α}

theorem bind {f : α → Checked β} (h : UnlessOverflow P x)
    (hf : ∀ a, x = .ok a → P a → UnlessOverflow Q (f a)) : UnlessOverflow Q (x >>= f) := by
  cases h with
  | ok h => exact hf _ rfl h
  | overflow => exact .overflow

theorem mono {P' : α → Prop} (h : UnlessOverflow P x) (hP : ∀ a, x = .ok a → P a → P' a) :
    UnlessOverflow P' x := by
  cases h with
  | ok h => exact .ok (hP _ rfl h)
  | overflow => exact .overflow

theorem exists_ok (h : UnlessOverflow P x) (hx : x ≠ .error .overflow) : ∃ a, x = .ok a ∧ P a := by
  cases h with
  | ok h => exact ⟨_, rfl, h⟩
  | overflow => exact absurd rfl hx

end UnlessOverflow

theorem add_unlessOverflow (a b : Nat) : UnlessOverflow (fun _ => True) (add a b) := by
  unfold add
  split_ifs
  · exact .ok trivial
  · exact .overflow

theorem mul_unlessOverflow (a b : Nat) : UnlessOverflow (fun _ => True) (mul a b) := by
  unfold mul
  split_ifs
  · exact .ok trivial
  · exact .overflow

theorem signedRange_unlessOverflow (i : Int) :
    UnlessOverflow (fun _ => True) (signedRange i) := by
  unfold signedRange
  split_ifs
  · exact .ok trivial
  · exact .overflow

end Checked

open Checked

namespace TickClock

theorem advance_unlessOverflow (c : TickClock) (n emitted : Nat) :
    UnlessOverflow (fun _ => True) (c.advance n emitted) := by
  simp only [advance]
  apply (mul_unlessOverflow emitted c.stride).bind
  intro back _ _
  apply (signedRange_unlessOverflow _).bind
  intro move _ _
  exact (signedRange_unlessOverflow _).bind fun phase _ _ => .ok trivial

end TickClock

theorem SincFilter.feed_unlessOverflow {α ρ : Type} [Zero α] [Add α] [Sample α ρ]
    {f : SincFilter α ρ} (hf : f.Sound) (xs : List α) :
    UnlessOverflow (fun _ => True) (f.feed xs) := by
  have hadvance := f.clock.advance_unlessOverflow xs.length (f.clock.count xs.length)
  rw [feed_eq hf]
  generalize f.clock.advance xs.length (f.clock.count xs.length) = clock? at hadvance ⊢
  cases hadvance with
  | ok _ => exact .ok trivial
  | overflow => exact .overflow

namespace Kernel

variable {α ρ : Type} [Zero α] [Add ρ] [Scalar ρ]

theorem skip_unlessOverflow (k : Kernel α ρ) (n : Nat) :
    UnlessOverflow (fun _ => True) (k.skip n) := by
  cases k with
  | copy | spline => exact .ok trivial
  | pick c => exact (c.advance_unlessOverflow _ _).bind fun c' _ _ => .ok trivial
  | mean m =>
    have hskip : UnlessOverflow (fun _ => True) (m.skip n) :=
      (m.clock.advance_unlessOverflow _ _).bind fun c' _ _ => .ok trivial
    exact hskip.bind fun m' _ _ => .ok trivial
  | sinc f =>
    have hskip : UnlessOverflow (fun _ => True) (f.skip n) :=
      (f.clock.advance_unlessOverflow _ _).bind fun c' _ _ => .ok trivial
    exact hskip.bind fun f' _ _ => .ok trivial

variable {conv : Conversion} {k : Kernel α ρ}

theorem Serves.exists_skip (h : Serves conv k) {n : Nat} (hn : n < 2 ^ 62) :
    ∃ k', k.skip n = .ok k' := by
  cases h with
  | copy | spline => exact ⟨_, rfl⟩
  | pick h _ =>
    rw [Kernel.skip, TickClock.skip, TickClock.advance_eq h hn]
    exact ⟨_, rfl⟩
  | mean h _ =>
    rw [Kernel.skip, TaperedMean.skip, TickClock.advance_eq h hn]
    exact ⟨_, rfl⟩
  | sinc _ h _ =>
    rw [Kernel.skip, SincFilter.skip_eq_ok h hn]
    exact ⟨_, rfl⟩

variable [Add α] [Sub α] [Mul ρ] [Sample α ρ]

theorem Serves.feed_unlessOverflow (h : Serves conv k) {xs : List α} (hn : xs.length < 2 ^ 64) :
    UnlessOverflow (fun r => r = k.fed xs) (k.feed xs) := by
  have hfeed : UnlessOverflow (fun _ => True) (k.feed xs) := by
    cases h with
    | sinc _ h _ => exact (SincFilter.feed_unlessOverflow h xs).bind fun r _ _ => .ok trivial
    | _ => exact .ok trivial
  exact hfeed.mono fun r hr _ => h.sound.eq_of_feed hn hr

theorem Serves.yield_add (h : Serves conv k) (xs : List α) (n : Nat) :
    k.yield (xs.length + n) = k.yield xs.length + (k.fed xs).1.yield n := by
  have happend := congr_arg List.length (h.sound.fed_append xs (List.replicate n 0)).2
  rw [List.length_append, h.length_fed, h.length_fed, (h.fed xs).length_fed,
    List.length_append, List.length_replicate] at happend
  exact happend

theorem Serves.yield_block (h : Serves conv k) (n : Nat) :
    k.yield n = k.yield (min n blockLen) +
      (k.fed (List.replicate (min n blockLen) 0)).1.yield (n - min n blockLen) := by
  have hadd := h.yield_add (List.replicate (min n blockLen) 0) (n - min n blockLen)
  rwa [List.length_replicate, Nat.add_sub_cancel' (Nat.min_le_left _ _)] at hadd

theorem Serves.feedGap_unlessOverflow (h : Serves conv k) {n : Nat} (hn : n < 2 ^ 64) :
    UnlessOverflow (fun p => p.output.length = k.yield n) (k.feedGap n (k.yield n)) := by
  induction n using Nat.strong_induction_on generalizing k with
  | _ n ih =>
    rw [Kernel.feedGap]
    split_ifs with h0 hsilent
    · subst h0
      have hzero := h.length_fed []
      rw [h.fed_nil.2] at hzero
      exact .ok hzero
    · apply (skip_unlessOverflow k n).bind
      intro k' _ _
      exact .ok List.length_replicate
    · -- One block is fed. Its output leaves the room that the rest of the gap needs.
      have hle := Nat.min_le_left n blockLen
      have hlen : (List.replicate (min n blockLen) (0 : α)).length = min n blockLen :=
        List.length_replicate
      apply (h.feed_unlessOverflow (by omega)).bind
      rintro _ - rfl
      have hsplit := h.yield_block n
      have hout := h.length_fed (List.replicate (min n blockLen) 0)
      rw [hlen] at hout
      have hlt : n - min n blockLen < n := by
        simp only [blockLen]
        omega
      have hrest := ih _ hlt (h.fed (List.replicate (min n blockLen) 0)) (by omega)
      dsimp only
      rw [hout, hsplit, if_neg (by omega), Nat.add_sub_cancel_left]
      apply hrest.bind
      intro p _ hp
      exact .ok (List.length_append.trans (congr_arg₂ _ hout hp))

theorem Serves.exists_feedGap (h : Serves conv k) {n : Nat} (hn : n < 2 ^ 62) :
    ∃ p, k.feedGap n (k.yield n) = .ok p ∧ p.output.length = k.yield n := by
  induction n using Nat.strong_induction_on generalizing k with
  | _ n ih =>
    rw [Kernel.feedGap]
    split_ifs with h0 hsilent
    · subst h0
      have hzero := h.length_fed []
      rw [h.fed_nil.2] at hzero
      exact ⟨_, rfl, hzero⟩
    · obtain ⟨k', hk⟩ := h.exists_skip hn
      rw [hk]
      exact ⟨_, rfl, List.length_replicate⟩
    · have hlen : (List.replicate (min n blockLen) (0 : α)).length = min n blockLen :=
        List.length_replicate
      have hsplit := h.yield_block n
      have hgives := h.length_fed (List.replicate (min n blockLen) 0)
      rw [hlen] at hgives
      have hlt : n - min n blockLen < n := by
        simp only [blockLen]
        omega
      obtain ⟨p, hp, hout⟩ := ih _ hlt (h.fed (List.replicate (min n blockLen) 0)) (by omega)
      have hfeed : k.feed (List.replicate (min n blockLen) 0) =
          .ok (k.fed (List.replicate (min n blockLen) 0)) := h.sound.feed_eq_ok (by omega)
      simp only [hfeed, Checked.ok_bind]
      rw [hgives, if_neg (by omega), hsplit, Nat.add_sub_cancel_left, hp]
      refine ⟨_, rfl, ?_⟩
      rw [List.length_append, hgives, hout]

theorem Serves.give_unlessOverflow (h : Serves conv k) {b : Buffer α} (hb : b.Proper)
    (hn : b.header.len < 2 ^ 64) :
    UnlessOverflow (fun p => p.output.length = k.yield b.header.len)
      (k.give b (k.yield b.header.len)) := by
  simp only [give]
  split_ifs with hg
  · exact h.feedGap_unlessOverflow hn
  · have hlen := hb.resolve_left hg
    apply (h.feed_unlessOverflow (by omega)).bind
    rintro _ - rfl
    exact .ok (hlen ▸ h.length_fed b.samples)

end Kernel

namespace Segment

variable {s : Segment} {rateOut : Nat}

theorem timeAt_unlessOverflow {offset : Nat} (h : s.start?.isSome → s.origin ≤ offset) :
    UnlessOverflow (fun _ => True) (s.timeAt rateOut offset) := by
  simp only [timeAt]
  cases hs : s.start? with
  | none => exact .ok trivial
  | some start =>
    have hticks := sub_eq_ok_iff.mpr ⟨rfl, h (hs ▸ rfl)⟩
    dsimp only
    rw [hticks, ok_bind]
    exact (add_unlessOverflow _ _).bind fun time _ _ => .ok trivial

theorem timeBetween_unlessOverflow {offset offsetEnd : Nat}
    (h : s.start?.isSome → s.origin ≤ offset) (hle : offset ≤ offsetEnd) :
    UnlessOverflow (fun _ => True) (s.timeBetween rateOut offset offsetEnd) := by
  have htime : UnlessOverflow (fun _ => True) (s.timeAt rateOut offsetEnd) :=
    timeAt_unlessOverflow fun hs => (h hs).trans hle
  cases he : s.timeAt rateOut offsetEnd with
  | error f =>
    rw [he] at htime
    simp only [timeBetween, he]
    exact htime
  | ok t? =>
    -- If the later time fits, so does the earlier one.
    have hend := (timeAt_eq_ok_iff.mp he).1
    rw [timeBetween_eq_ok (hend.mono h hle) hend hle]
    exact .ok trivial

theorem stamp_unlessOverflow (ho : s.Ordered) (len : Nat) (gap : Bool) (loud : Nat) :
    UnlessOverflow (fun _ => True) (s.stamp rateOut len gap loud) := by
  refine (add_unlessOverflow _ _).bind fun offsetEnd hadd _ => ?_
  obtain ⟨rfl, -⟩ := add_eq_ok_iff.mp hadd
  refine (timeAt_unlessOverflow ho).bind fun timestamp? _ _ => ?_
  exact (timeBetween_unlessOverflow ho (Nat.le_add_right _ _)).bind fun duration? _ _ => .ok trivial

end Segment

namespace Converter

variable {α ρ : Type} [Zero α] [Scalar ρ]

theorem enter_unlessOverflow (c : Converter α ρ) (h : Header) :
    UnlessOverflow (fun _ => True) (c.enter h) := by
  simp only [enter]
  split_ifs
  · exact .ok trivial
  · have hsegment : UnlessOverflow (fun _ => True) (c.adopt.setup.openSegment h) :=
      (add_unlessOverflow _ _).bind fun nextOut _ _ => .ok trivial
    exact hsegment.bind fun s _ _ => .ok trivial

variable [Add α] [Sub α] [Add ρ] [Mul ρ] [Sample α ρ]

theorem Valid.proceed_unlessOverflow {d : Converter α ρ} (hd : d.Valid Kernel.Serves)
    {b : Buffer α} (hb : b.Proper) {n : Nat} (hn : d.kernel.outputLen b.header.len = .ok n) :
    UnlessOverflow (fun r => r.2.1.length = n) (d.proceed b n) := by
  have hyield := Kernel.eq_yield_of_outputLen hn
  rw [Converter.proceed]
  apply (add_unlessOverflow _ _).bind
  intro nextIn hin _
  have hlt := (add_eq_ok_iff.mp hin).2
  have hgive := hd.kernel.give_unlessOverflow hb (by omega)
  rw [← hyield] at hgive
  rw [hn, ok_bind, require_eq_ok_iff (u := ()).mpr rfl, ok_bind]
  apply hgive.bind
  intro p _ hp
  rw [require_eq_ok_iff (u := ()).mpr hp, ok_bind]
  have ho : ({ d.segment with nextIn? := some nextIn } : Segment).Ordered := hd.ordered
  exact (Segment.stamp_unlessOverflow ho n _ _).bind fun r _ _ => .ok hp

end Converter

end RateConversion
