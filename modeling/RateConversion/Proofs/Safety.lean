import RateConversion.Proofs.GapZeros
import RateConversion.Proofs.Overflow
import RateConversion.Proofs.Progress

/-! No fault inside the admitted range. If the numbers that a buffer leads to fit, it is run to
its end, and on the way every slot and window that is read or written lies inside its
sequence, no wait is negative, clocks end where they are moved to, and no window is divided
by less than one half. A gap makes several calls of a kernel, and this holds at each. -/

namespace RateConversion

/-- The wait for a tick is no negative number taken for a word, and strides divide. -/
structure TickClock.Waits (c : TickClock) : Prop where
  due : c.phase ≤ c.lookahead
  wait : (c.wait : Int) = c.lookahead - c.phase
  stride : 0 < c.stride

theorem TickClock.Sound.waits {c : TickClock} (h : c.Sound) : c.Waits :=
  ⟨h.due, wait_eq h, h.stride_pos⟩

/-- Every window that a span completes lies inside the history and the span, and the ring is in
range before each sample of the span that is put into it. -/
structure SincFilter.InRange {α ρ : Type} (f : SincFilter α ρ) (xs : List α) : Prop where
  window (i : Nat) : i < f.clock.count xs.length →
    2 * f.taps.reach ≤ f.history.size + f.clock.wait + i * f.clock.stride ∧
      f.history.size + f.clock.wait + i * f.clock.stride < f.history.size + xs.length
  ring (ys : List α) : ys <+: xs → (ys.foldl History.push f.history).InRange

theorem SincFilter.Sound.inRange {α ρ : Type} [Zero α] {f : SincFilter α ρ} (h : f.Sound)
    (xs : List α) : f.InRange xs := by
  refine ⟨fun i hi => ?_, fun ys _ => (History.foldl_push h.history ys).1.inRange⟩
  have hlt := (TickClock.lt_count_iff h.clock.stride_pos _ _).mp hi
  have hfull := h.filled
  omega

namespace TaperedMean

variable {α ρ : Type} [Zero α] [Add α] [Add ρ] [Scalar ρ] [Sample α ρ]

/-- Where sums of half weights are exact, each window of a span is divided by one half at
least and by no more than the stride. -/
def Divides (m : TaperedMean α ρ) (xs : List α) : Prop :=
  ExactUpTo ρ (2 * m.clock.stride) → ∀ ys x, ys ++ [x] <+: xs →
    (feed step m ys).1.clock.ready = true →
      ∃ w, 1 ≤ w ∧ w ≤ 2 * m.clock.stride ∧ ((feed step m ys).1.take x).weight = halves w

theorem Weighed.divides {m : TaperedMean α ρ} (hc : m.Centred) (hs : m.clock.Sound)
    (hw : ExactUpTo ρ (2 * m.clock.stride) → ∃ since, m.Weighed since) (xs : List α) :
    m.Divides xs := by
  intro hx ys x _ hready
  obtain ⟨since, hsince⟩ := hw hx
  have hweighed := weighed_feed hc hs hx hsince ys
  have hclock := (feed_step hs ys).1
  generalize (feed step m ys).1 = m' at hready hweighed hclock ⊢
  have hstride : m'.clock.stride = m.clock.stride := by rw [hclock, TickClock.after_stride]
  have hc' : m'.Centred := by
    simp only [Centred] at hc ⊢
    rw [hclock]
    exact hc
  have hs' : m'.clock.Sound := hclock ▸ TickClock.after_sound hs ys.length
  rw [← hstride] at hx
  have hphase := beq_iff_eq.mp hready
  refine ⟨_, ?_, ?_, weight_take hc' hs' hx hweighed x⟩
  · -- The newest place is inside the window and has a weight of its own.
    rw [windowWeight_succ hc' hs'.stride_pos hweighed.begun (by omega) hphase.le]
    exact (placeWeight_pos m' _).trans_le (Nat.le_add_left _ _)
  · rw [← hstride]
    exact windowWeight_le hc' hs'.stride_pos hphase.le

end TaperedMean

namespace Kernel

section Skip

variable {α ρ : Type} [Scalar ρ] {conv : Conversion} {k : Kernel α ρ}

theorem Serves.clock_sound (h : Serves conv k) {c : TickClock} (hc : k.clock? = some c) :
    c.Sound := by
  cases h with
  | copy | spline => cases hc
  | pick h _ | mean h _ =>
    cases hc
    exact h
  | sinc _ h _ =>
    cases hc
    exact h.clock

variable [Zero α] [Add ρ] [Sample α ρ]

structure SkipSafe (k : Kernel α ρ) (n room : Nat) : Prop where
  silent : k.isSilent = true
  fits : k.yield n = room
  skipped : ∃ k', k.skip n = .ok k'
  clock (c : TickClock) : k.clock? = some c → c.Waits
  ring (f : SincFilter α ρ) : k = .sinc f → f.InRange (List.replicate n 0)

theorem Poised.skipSafe (h : Poised conv k) (hs : k.isSilent = true) {n : Nat} (hn : n < 2 ^ 62) :
    k.SkipSafe n (k.yield n) := by
  refine ⟨hs, rfl, h.serves.exists_skip hn, fun c hc => (h.serves.clock_sound hc).waits, ?_⟩
  intro f hf
  cases hf
  exact h.serves.sound.inRange _

end Skip

variable {α ρ : Type} [Zero α] [Add α] [Sub α] [Add ρ] [Mul ρ] [Scalar ρ] [Sample α ρ]

inductive Call (α ρ : Type)
  | feed (k : Kernel α ρ) (xs : List α) (room : Nat)
  | skip (k : Kernel α ρ) (n room : Nat)

inductive GapCall : Kernel α ρ → Nat → Nat → Call α ρ → Prop
  | block {k : Kernel α ρ} {n room : Nat} (h0 : n ≠ 0) (hs : k.isSilent = false) :
    GapCall k n room (.feed k (List.replicate (min n blockLen) 0) room)
  | silence {k : Kernel α ρ} {n room : Nat} (h0 : n ≠ 0) (hs : k.isSilent = true) :
    GapCall k n room (.skip k n room)
  | later {k : Kernel α ρ} {n room : Nat} {r : Kernel α ρ × List α} {call : Call α ρ}
    (h0 : n ≠ 0) (hs : k.isSilent = false)
    (hr : k.feed (List.replicate (min n blockLen) 0) = .ok r)
    (rest : GapCall r.1 (n - min n blockLen) (room - r.2.length) call) : GapCall k n room call

def Calls (k : Kernel α ρ) (b : Buffer α) (room : Nat) (call : Call α ρ) : Prop :=
  if b.header.gap then GapCall k b.header.len room call else call = .feed k b.samples room

/-- Samples can be fed: the kernel gives as many as it tells, into the room that there is, its
clock ends where it is moved to, and nothing is read, written or divided out of range. -/
structure FeedSafe (k : Kernel α ρ) (xs : List α) (room : Nat) : Prop where
  told : k.outputLen xs.length = .ok (k.yield xs.length)
  fits : k.yield xs.length ≤ room
  fed : ∃ r, k.feed xs = .ok r ∧ r.2.length = k.yield xs.length ∧
    ∀ c, k.clock? = some c →
      ∃ c', c.advance xs.length (c.count xs.length) = .ok c' ∧ r.1.clock? = some c'
  clock (c : TickClock) : k.clock? = some c → c.Waits
  window (f : SincFilter α ρ) : k = .sinc f → f.InRange xs
  divisor (m : TaperedMean α ρ) : k = .mean m → m.Divides xs
  segment (u : Upsampler α) : k = .spline u → 0 < u.factor

def Call.Safe : Call α ρ → Prop
  | .feed k xs room => k.FeedSafe xs room
  | .skip k n room => k.SkipSafe n room

variable {conv : Conversion} {k : Kernel α ρ}

theorem Poised.feedSafe (h : Poised conv k) {xs : List α} (hn : xs.length < 2 ^ 62) {room : Nat}
    (hfit : k.yield xs.length ≤ room) (hroom : room < 2 ^ 64) : k.FeedSafe xs room := by
  refine ⟨outputLen_eq_ok hn (by omega), hfit,
    ⟨_, h.serves.sound.feed_eq_ok hn, h.serves.length_fed xs, fun c hc => ?_⟩,
    fun c hc => (h.serves.clock_sound hc).waits, fun f hf => ?_, fun m hm => ?_, fun u hu => ?_⟩
  · refine ⟨_, TickClock.advance_eq (h.serves.clock_sound hc) hn, ?_⟩
    rw [h.serves.clock?_fed, hc]
    rfl
  · cases hf
    exact h.serves.sound.inRange xs
  · cases hm
    cases h.serves with
    | mean hs hc => exact TaperedMean.Weighed.divides hc hs (h.weighed m rfl) xs
  · cases hu
    cases h.serves with
    | spline hf => exact hf

theorem GapCall.safe {n room : Nat} {call : Call α ρ} (hcall : GapCall k n room call)
    (h : Poised conv k) (hn : n < 2 ^ 62) (hroom : k.yield n = room) (hlt : room < 2 ^ 64) :
    call.Safe := by
  induction hcall with
  | @block k n room h0 hs =>
    have hsplit := h.serves.yield_block n
    have hlen : (List.replicate (min n blockLen) (0 : α)).length = min n blockLen :=
      List.length_replicate
    exact h.feedSafe (by omega) (by rw [hlen]; omega) hlt
  | @silence k n room h0 hs =>
    cases hroom
    exact h.skipSafe hs hn
  | @later k n room r call h0 hs hr rest ih =>
    have hlen : (List.replicate (min n blockLen) (0 : α)).length = min n blockLen :=
      List.length_replicate
    have hsplit := h.serves.yield_block n
    cases h.serves.sound.eq_of_feed (by omega) hr
    have hgives := h.serves.length_fed (List.replicate (min n blockLen) 0)
    rw [hlen] at hgives
    exact ih (h.fed _) (by omega) (by omega) (by omega)

theorem Serves.exists_give (h : Serves conv k) {b : Buffer α} (hb : b.Proper)
    (hn : b.header.len < 2 ^ 62) :
    ∃ p, k.give b (k.yield b.header.len) = .ok p ∧ p.output.length = k.yield b.header.len := by
  simp only [give]
  by_cases hg : b.header.gap = true
  · rw [if_pos hg]
    exact h.exists_feedGap hn
  · rw [if_neg hg]
    have hlen := hb.resolve_left hg
    rw [h.sound.feed_eq_ok (by omega)]
    exact ⟨_, rfl, hlen ▸ h.length_fed b.samples⟩

end Kernel

namespace Converter

variable {α ρ : Type} [Zero α] [Scalar ρ]

def books (c : Converter α ρ) (h : Header) : Segment :=
  if c.segment.continues h then c.segment else c.pending.opened h

theorem exists_enter {c : Converter α ρ} {h : Header}
    (hout : (c.books h).nextOut < 0x10000000000000000) :
    ∃ d, c.enter h = .ok d ∧ d.segment = c.books h := by
  simp only [books] at hout ⊢
  by_cases hd : c.Discontinuous h
  · rw [continues_eq_false_iff.mpr hd, if_neg Bool.false_ne_true] at hout ⊢
    exact ⟨_, (enter_of_discontinuous hd).mpr ⟨hout, rfl⟩, rfl⟩
  · have hcont := continues_eq_false_iff.not.mpr hd
    rw [Bool.not_eq_false] at hcont
    rw [if_pos hcont]
    exact ⟨c, enter_of_continuous hd, rfl⟩

variable [Add α] [Sub α] [Add ρ] [Mul ρ] [Sample α ρ] {c : Converter α ρ}

/-- Inside the admitted range nothing faults. A buffer that is not turned away for its own
length is accepted, the times of its stamp are differences of numbers in order, and every
call that it makes of the kernel is safe. -/
theorem transform_without_fault [Element α] (hc : c.Reachable) {b : Buffer α} {slice : List α}
    {n : Nat} (hlen : b.header.len < 2 ^ 62)
    (hin : b.header.offset + b.header.len < 2 ^ 64)
    (hn : c.predict b.header = .ok n) (hfit : n ≤ slice.length)
    (hout : (c.books b.header).nextOut + n < 2 ^ 64)
    (htime : ∀ start, (c.books b.header).start? = some start →
      start + Scale.round ((c.books b.header).nextOut + n - (c.books b.header).origin)
        nanosPerSecond c.setup.rateOut < 2 ^ 64) :
    (∃ r, c.transform b slice = .ok r) ∧
      (b.Proper → ∃ d t, c.enter b.header = .ok d ∧ c.transform b slice = .ok (.ok t) ∧
        d.kernel.outputLen b.header.len = .ok n ∧
        (d.segment.start?.isSome → d.segment.origin ≤ d.segment.nextOut) ∧
        ∀ call, d.kernel.Calls b n call → call.Safe) := by
  have hv := hc.valid Kernel.poised_stable
  have hserves := hc.valid Kernel.serves_stable
  suffices hproper : b.Proper → ∃ d t, c.enter b.header = .ok d ∧
      c.transform b slice = .ok (.ok t) ∧ d.kernel.outputLen b.header.len = .ok n ∧
      (d.segment.start?.isSome → d.segment.origin ≤ d.segment.nextOut) ∧
      ∀ call, d.kernel.Calls b n call → call.Safe by
    refine ⟨?_, hproper⟩
    by_cases hb : b.Proper
    · obtain ⟨_, t, -, ht, -⟩ := hproper hb
      exact ⟨_, ht⟩
    · simp only [Buffer.Proper, not_or, Bool.not_eq_true] at hb
      exact ⟨_, if_pos hb⟩
  intro hb
  obtain ⟨d, hd, hbooks⟩ := exists_enter (c := c) (h := b.header) (by omega)
  have hvd := hv.enter Kernel.poised_stable hd
  have hsd := hserves.enter Kernel.serves_stable hd
  have htold := (predict_eq hserves hd).symm.trans hn
  have hyield := Kernel.eq_yield_of_outputLen htold
  obtain ⟨p, hp, hgives⟩ := hsd.kernel.exists_give hb hlen
  rw [← hyield] at hp hgives
  rw [← hbooks] at hout htime
  have htimed : d.segment.Timed d.setup.rateOut (d.segment.nextOut + n) := by
    intro start hs
    refine ⟨(hsd.ordered (hs ▸ rfl)).trans (Nat.le_add_right _ _), ?_⟩
    rw [(hserves.rates_of_enter hd).2]
    exact htime start hs
  have hproceed := proceed_of_give hsd.ordered htold hp hgives hin hout htimed
  refine ⟨d, ⟨d.moved b n p.kernel, p.output ++ slice.drop n,
    d.segment.stampOf d.setup.rateOut n b.header.gap p.loud⟩, hd, ?_, htold, hsd.ordered,
    fun call hcall => ?_⟩
  · rw [transform_of_predict hb hn hfit, absorb_eq, hd, Checked.ok_bind, hproceed]
    rfl
  · simp only [Kernel.Calls] at hcall
    by_cases hg : b.header.gap = true
    · rw [if_pos hg] at hcall
      exact hcall.safe hvd.kernel hlen hyield.symm (by omega)
    · rw [if_neg hg] at hcall
      cases hcall
      have hsamples := hb.resolve_left hg
      exact hvd.kernel.feedSafe (by omega) (by rw [hsamples, hyield]) (by omega)

open Rational in
theorem transform_without_fault_of_gap :
    ∃ (c : Converter ℚ ℚ) (reply : Reply (List ℚ)) (t : Transformed ℚ ℚ),
      (ofSetup halving).respond (piece 0 [1, 2, 3] 2) = .ok (c, reply) ∧
      c.transform ⟨⟨4, 3, some 0, true, false⟩, []⟩ [0, 0] = .ok (.ok t) ∧
      c.kernel.FeedSafe (List.replicate 4 0) 2 := by
  have hmade : (ofSetup halving : Converter ℚ ℚ).Reachable :=
    .made (show ofConfig halving.config = .ok (ofSetup halving) from rfl)
  obtain ⟨c, reply, hc, hn, henter, hbooks, hrate, hloud⟩ :
      ∃ (c : Converter ℚ ℚ) (reply : Reply (List ℚ)),
        (ofSetup halving).respond (piece 0 [1, 2, 3] 2) = .ok (c, reply) ∧
        c.predict ⟨4, 3, some 0, true, false⟩ = .ok 2 ∧
        c.enter ⟨4, 3, some 0, true, false⟩ = .ok c ∧
        c.books ⟨4, 3, some 0, true, false⟩ =
          ⟨some (Grid.align 2 1 .downsampling 0), 0, some 3, 1, false⟩ ∧
        c.setup.rateOut = 1 ∧ c.kernel.isSilent = false :=
    ⟨_, _, rfl, rfl, rfl, rfl, rfl, by decide +kernel⟩
  obtain ⟨-, hsafe⟩ := transform_without_fault (hmade.step hc)
    (b := ⟨⟨4, 3, some 0, true, false⟩, []⟩) (by decide) (by decide) hn
    (show 2 ≤ [0, 0].length from le_rfl)
    (by rw [hbooks]; decide) (by
      intro start hs
      rw [hbooks] at hs ⊢
      cases hs
      rw [hrate]
      decide)
  obtain ⟨d, t, hd, ht, -, -, hcalls⟩ := hsafe (.inl rfl)
  cases henter.symm.trans hd
  have hcall : c.kernel.GapCall 4 2 (.feed c.kernel (List.replicate 4 0) 2) :=
    .block (by decide) hloud
  exact ⟨c, reply, t, hc, ht, hcalls _ hcall⟩

end Converter

end RateConversion
