import RateConversion.Proofs.SegmentStart
import RateConversion.Proofs.Serving
import RateConversion.Proofs.Stamping
import RateConversion.Proofs.Steps

/-! What holds of every state that a converter can reach: its settings are coherent, its
kernel is in a state that the conversion can bring it to, and its segment puts out nothing
from before its start. A condition on kernels that is kept by every operation on kernels
is kept by every request. -/

namespace RateConversion

namespace Kernel

variable {α ρ : Type} [Zero α] [Add ρ] [Scalar ρ]

theorem Serves.skip {conv : Conversion} {k k' : Kernel α ρ} {n : Nat} (h : Serves conv k)
    (hn : n < 2 ^ 64) (hk : k.skip n = .ok k') : Serves conv k' := by
  cases h with
  | copy =>
    cases hk
    exact .copy
  | @pick z c h hl =>
    obtain ⟨c', hc, hk⟩ := Checked.bind_eq_ok_iff.mp hk
    cases hk
    cases TickClock.eq_after_of_advance h hn hc
    exact .pick (c := c.after n) (TickClock.after_sound h n) hl
  | @mean z m h hl =>
    obtain ⟨m', hm, hk⟩ := Checked.bind_eq_ok_iff.mp hk
    cases hk
    obtain ⟨c', hc, hm⟩ := Checked.bind_eq_ok_iff.mp hm
    cases TickClock.eq_after_of_advance h hn hc
    cases hm
    exact .mean (m := ⟨m.clock.after n, _, _⟩) (TickClock.after_sound h n) hl
  | @sinc d z span f hd h ht =>
    obtain ⟨f', hf, hk⟩ := Checked.bind_eq_ok_iff.mp hk
    cases hk
    cases SincFilter.eq_after_of_skip h hn hf
    exact .sinc (f := f.after (List.replicate n 0)) hd (SincFilter.after_sound h _) ht
  | @spline u h =>
    cases hk
    exact .spline (u := u.skip n) h

variable [Add α] [Sub α] [Mul ρ] [Sample α ρ]

/-- A condition on the kernels of a conversion that every operation keeps. -/
structure Stable (P : Conversion → Kernel α ρ → Prop) : Prop where
  serves {conv : Conversion} {k : Kernel α ρ} : P conv k → Serves conv k
  start {conv : Conversion} : conv.Fits → P conv (ofConversion conv)
  reset {conv : Conversion} {k : Kernel α ρ} {leading : Nat} :
    P conv k → conv.Fits → conv.Admits leading → P conv (k.reset leading)
  fed {conv : Conversion} {k : Kernel α ρ} (xs : List α) : P conv k → P conv (k.fed xs).1
  skip {conv : Conversion} {k k' : Kernel α ρ} {n : Nat} :
    P conv k → n < 2 ^ 64 → k.skip n = .ok k' → P conv k'

theorem serves_stable : Stable (Serves (α := α) (ρ := ρ)) where
  serves h := h
  start hf := serves_ofConversion hf
  reset h hf hl := h.reset hf hl
  fed xs h := h.fed xs
  skip h hn hk := h.skip hn hk

structure Kept (P : Nat → Kernel α ρ → Prop) : Prop where
  serves {n : Nat} {k : Kernel α ρ} : P n k → ∃ conv, Serves conv k
  fed {n : Nat} {k : Kernel α ρ} (xs : List α) : P n k → P (n + xs.length) (k.fed xs).1
  skip {n m : Nat} {k k' : Kernel α ρ} : P n k → m < 2 ^ 64 → k.skip m = .ok k' → P (n + m) k'

theorem Stable.kept {P : Conversion → Kernel α ρ → Prop} (hP : Stable P) (conv : Conversion) :
    Kept fun _ => P conv where
  serves h := ⟨conv, hP.serves h⟩
  fed xs h := hP.fed xs h
  skip h hn hk := hP.skip h hn hk

section Give

variable {P : Nat → Kernel α ρ → Prop} {k : Kernel α ρ} {m room : Nat} {p : Produced α ρ}

theorem Kept.feedGap (hP : Kept P) (h : P m k) {n : Nat} (hn : n < 2 ^ 64)
    (hp : k.feedGap n room = .ok p) : P (m + n) p.kernel := by
  induction n using Nat.strong_induction_on generalizing k m room p with
  | _ n ih =>
    rw [Kernel.feedGap] at hp
    split_ifs at hp with h0 hsilent
    · cases hp
      subst h0
      exact h
    · obtain ⟨k', hk, hp⟩ := Checked.bind_eq_ok_iff.mp hp
      cases hp
      exact hP.skip h hn hk
    · -- One block is fed, and the induction hypothesis takes what is left of the gap.
      obtain ⟨r, hr, hp⟩ := Checked.bind_eq_ok_iff.mp hp
      obtain ⟨conv, hserves⟩ := hP.serves h
      cases hserves.sound.eq_of_feed (by rw [List.length_replicate]; omega) hr
      dsimp only at hp
      split_ifs at hp
      obtain ⟨q, hq, hp⟩ := Checked.bind_eq_ok_iff.mp hp
      cases hp
      have hlt : n - min n blockLen < n := by
        simp only [blockLen]
        omega
      have hrest := ih _ hlt (hP.fed _ h) (by omega) hq
      rw [List.length_replicate, Nat.add_assoc, Nat.add_sub_cancel' (Nat.min_le_left _ _)] at hrest
      exact hrest

theorem Kept.give (hP : Kept P) (h : P m k) {b : Buffer α} (hb : b.Proper)
    (hn : b.header.len < 2 ^ 64) (hp : k.give b room = .ok p) :
    P (m + b.header.len) p.kernel := by
  simp only [Kernel.give] at hp
  split_ifs at hp with hg
  · exact hP.feedGap h hn hp
  · obtain ⟨r, hr, hp⟩ := Checked.bind_eq_ok_iff.mp hp
    cases hp
    have hlen := hb.resolve_left hg
    obtain ⟨conv, hserves⟩ := hP.serves h
    cases hserves.sound.eq_of_feed (by omega) hr
    exact hlen ▸ hP.fed _ h

end Give

end Kernel

namespace Setup

theorem Coherent.withQuality {s s' : Setup} {q : Nat} (h : s.withQuality q = .ok s') :
    s'.Coherent ∧ s'.rateIn = s.rateIn ∧ s'.rateOut = s.rateOut := by
  obtain ⟨hc, hs⟩ := ofConfig_eq_ok_iff.mp h
  simp only [rateIn, rateOut]
  rw [hc]
  exact ⟨hs, rfl, rfl⟩

theorem conversion_withZeroLatency (c : Config) (b : Bool) :
    { c with zeroLatency := b }.conversion =
      c.conversion.map (Conversion.withZeroLatency b) := by
  have hresolve (num den : Nat) : { c with zeroLatency := b }.resolve num den =
      (c.resolve num den).map (Conversion.withZeroLatency b) := by
    have hdir : { c with zeroLatency := b }.direction = c.direction := rfl
    simp only [Config.resolve]
    rw [hdir]
    cases c.direction with
    | passthrough =>
      dsimp only
      split_ifs <;> rfl
    | upsampling => cases Interpolation.ofQuality? c.quality <;> rfl
    | downsampling => cases Decimation.ofQuality? c.quality <;> rfl
  have hunit : { c with zeroLatency := b }.checkUnitSize = c.checkUnitSize := rfl
  simp only [Config.conversion]
  rw [hunit]
  cases c.checkUnitSize with
  | error e => rfl
  | ok u =>
    change (if c.ratio.1 ≠ 1 ∧ c.ratio.2 ≠ 1 then _ else _) =
      (if c.ratio.1 ≠ 1 ∧ c.ratio.2 ≠ 1 then _ else _ : Except ConfigError Conversion).map _
    split_ifs
    · rfl
    · exact hresolve _ _

theorem Coherent.withZeroLatency {s : Setup} (h : s.Coherent) (b : Bool) :
    (s.withZeroLatency b).Coherent := by
  simp only [Coherent, Setup.withZeroLatency]
  rw [conversion_withZeroLatency, h]
  rfl

theorem leading_admits {s : Setup} (hf : s.conversion.Fits) (h : Header) :
    s.conversion.Admits (s.leading h) := by
  simp only [leading]
  cases hc : s.conversion with
  | down factor d z =>
    rw [hc] at hf
    exact Grid.leading_lt hf.1 s.rateIn h
  | _ => trivial

end Setup

namespace Converter

section Valid

variable {α ρ : Type} [Zero α] [Scalar ρ]

structure Valid (P : Conversion → Kernel α ρ → Prop) (c : Converter α ρ) : Prop where
  setup : c.setup.Coherent
  staged (s : Setup) : c.staged? = some s →
    s.Coherent ∧ s.rateIn = c.setup.rateIn ∧ s.rateOut = c.setup.rateOut
  kernel : P c.setup.conversion c.kernel
  ordered : c.segment.Ordered

variable {P : Conversion → Kernel α ρ → Prop} {c c' : Converter α ρ}

theorem Valid.pending (hc : c.Valid P) :
    c.pending.Coherent ∧ c.pending.rateIn = c.setup.rateIn ∧
      c.pending.rateOut = c.setup.rateOut := by
  simp only [Converter.pending]
  cases hs : c.staged? with
  | none => exact ⟨hc.setup, rfl, rfl⟩
  | some s => exact hc.staged s hs

theorem Valid.stage (hc : c.Valid P) {s : Setup} (hs : s.Coherent)
    (hin : s.rateIn = c.pending.rateIn) (hout : s.rateOut = c.pending.rateOut) :
    { c with staged? := some s }.Valid P := by
  obtain ⟨-, h1, h2⟩ := hc.pending
  refine ⟨hc.setup, fun _ h => ?_, hc.kernel, hc.ordered⟩
  cases h
  exact ⟨hs, hin.trans h1, hout.trans h2⟩

end Valid

variable {α ρ : Type} {P : Conversion → Kernel α ρ → Prop}

theorem check_eq_ok [Element α] {config : Config} {s : Setup} (h : check α config = .ok s) :
    s.config = config ∧ s.Coherent := by
  simp only [check] at h
  split_ifs at h
  exact Setup.ofConfig_eq_ok_iff.mp h

theorem ofConfig_eq_ok [Zero α] [Scalar ρ] [Element α] {c : Converter α ρ} {config : Config}
    (h : ofConfig config = .ok c) :
    ∃ s : Setup, s.config = config ∧ s.Coherent ∧ c = ofSetup s := by
  simp only [ofConfig] at h
  cases hs : check α config with
  | error e =>
    rw [hs] at h
    cases h
  | ok s =>
    rw [hs] at h
    cases h
    exact ⟨s, (check_eq_ok hs).1, (check_eq_ok hs).2, rfl⟩

variable [Zero α] [Add α] [Sub α] [Add ρ] [Mul ρ] [Scalar ρ] [Sample α ρ] {c c' : Converter α ρ}

def moved (d : Converter α ρ) (b : Buffer α) (n : Nat) (k : Kernel α ρ) : Converter α ρ :=
  { d with
    kernel := k
    zeros := d.restocked b
    segment := { d.segment with nextIn? := some (b.header.offset + b.header.len) }.emit n }

theorem exists_of_proceed {d : Converter α ρ} {b : Buffer α} (ho : d.segment.Ordered) {n : Nat}
    {r : Converter α ρ × List α × Stamp} (hr : d.proceed b n = .ok r) :
    ∃ p, d.kernel.give b n = .ok p ∧ d.kernel.outputLen b.header.len = .ok n ∧
      b.header.offset + b.header.len < 0x10000000000000000 ∧
      d.segment.nextOut + n < 0x10000000000000000 ∧
      d.segment.Timed d.setup.rateOut (d.segment.nextOut + n) ∧
      r = (d.moved b n p.kernel, p.output,
        d.segment.stampOf d.setup.rateOut n b.header.gap p.loud) := by
  obtain ⟨nextIn, hin, hr⟩ := Checked.bind_eq_ok_iff.mp hr
  obtain ⟨len, hlen, hr⟩ := Checked.bind_eq_ok_iff.mp hr
  obtain ⟨_, hn, hr⟩ := Checked.bind_eq_ok_iff.mp hr
  obtain ⟨p, hp, hr⟩ := Checked.bind_eq_ok_iff.mp hr
  obtain ⟨_, -, hr⟩ := Checked.bind_eq_ok_iff.mp hr
  obtain ⟨q, hq, hr⟩ := Checked.bind_eq_ok_iff.mp hr
  cases hr
  obtain ⟨rfl, hlt⟩ := Checked.add_eq_ok_iff.mp hin
  cases Checked.require_eq_ok_iff.mp hn
  have ho' : ({ d.segment with nextIn? := some (b.header.offset + b.header.len) } :
    Segment).Ordered := ho
  obtain ⟨h1, h2, rfl⟩ := (Segment.stamp_eq_ok_iff ho').mp hq
  exact ⟨p, hp, hlen, hlt, h1, h2, rfl⟩

theorem proceed_of_give {d : Converter α ρ} {b : Buffer α} (ho : d.segment.Ordered) {n : Nat}
    {p : Produced α ρ} (hlen : d.kernel.outputLen b.header.len = .ok n)
    (hp : d.kernel.give b n = .ok p) (hout : p.output.length = n)
    (hin : b.header.offset + b.header.len < 0x10000000000000000)
    (hend : d.segment.nextOut + n < 0x10000000000000000)
    (ht : d.segment.Timed d.setup.rateOut (d.segment.nextOut + n)) :
    d.proceed b n = .ok (d.moved b n p.kernel, p.output,
      d.segment.stampOf d.setup.rateOut n b.header.gap p.loud) := by
  have ho' : ({ d.segment with nextIn? := some (b.header.offset + b.header.len) } :
    Segment).Ordered := ho
  simp only [proceed, Checked.bind_eq_ok_iff]
  exact ⟨_, Checked.add_eq_ok_iff.mpr ⟨rfl, hin⟩, _, hlen, (), Checked.require_eq_ok_iff.mpr rfl,
    p, hp, (), Checked.require_eq_ok_iff.mpr hout, _,
    (Segment.stamp_eq_ok_iff ho').mpr ⟨hend, ht, rfl⟩, rfl⟩

theorem valid_ofSetup (hP : Kernel.Stable P) {s : Setup} (hs : s.Coherent) :
    (ofSetup s : Converter α ρ).Valid P :=
  ⟨hs, fun _ h => (by cases h), ofSetup_kernel (α := α) (ρ := ρ) s ▸ hP.start hs.fits,
    Segment.idle_ordered⟩

namespace Valid

theorem reset (hP : Kernel.Stable P) (hc : c.Valid P) : c.reset.Valid P :=
  ⟨hc.setup, hc.staged, hP.reset hc.kernel hc.setup.fits hc.setup.fits.admits_zero,
    Segment.idle_ordered⟩

theorem adopt (hP : Kernel.Stable P) (hc : c.Valid P) : c.adopt.Valid P := by
  have hcoh := hc.pending.1
  refine ⟨?_, fun s h => ?_, ?_, ?_⟩
  · rwa [adopt_setup]
  · rw [adopt_staged] at h
    cases h
  · rw [adopt_setup, adopt_kernel]
    split_ifs with he
    · exact he ▸ hc.kernel
    · exact hP.start hcoh.fits
  · rw [adopt_segment]
    exact hc.ordered

theorem configured (hP : Kernel.Stable P) {s : Setup} (hs : s.Coherent) :
    (c.configured s).Valid P := by
  refine ⟨hs, fun _ h => (by cases h), ?_, Segment.idle_ordered⟩
  rw [configured_kernel]
  exact hP.start hs.fits

theorem enter (hP : Kernel.Stable P) (hc : c.Valid P) {h : Header} (he : c.enter h = .ok c') :
    c'.Valid P := by
  by_cases hd : c.Discontinuous h
  · obtain ⟨-, rfl⟩ := (enter_of_discontinuous hd).mp he
    have hcoh := hc.pending.1
    have hkernel := (hc.adopt hP).kernel
    rw [adopt_setup] at hkernel
    exact ⟨hcoh, fun _ h' => (by cases h'),
      hP.reset hkernel hcoh.fits (Setup.leading_admits hcoh.fits h),
      fun _ => Nat.le_add_right _ _⟩
  · cases (enter_of_continuous hd).symm.trans he
    exact hc

theorem proceed (hP : Kernel.Stable P) (hc : c.Valid P) {b : Buffer α} (hb : b.Proper)
    {expected : Nat} {r : Converter α ρ × List α × Stamp} (hr : c.proceed b expected = .ok r) :
    r.1.Valid P := by
  obtain ⟨p, hp, -, hlt, -, -, rfl⟩ := exists_of_proceed hc.ordered hr
  have hk := (hP.kept _).give (m := 0) hc.kernel hb (by omega) hp
  exact ⟨hc.setup, hc.staged, hk, Segment.emit_ordered (s := { c.segment with nextIn? := some _ })
    hc.ordered _⟩

theorem transform (hP : Kernel.Stable P) (hc : c.Valid P) {b : Buffer α} {slice : List α}
    {t : Transformed α ρ} (ht : c.transform b slice = .ok (.ok t)) : t.converter.Valid P := by
  obtain ⟨hb, n, d, output, -, -, hd, hr, -⟩ := exists_of_transform ht
  exact (hc.enter hP hd).proceed hP hb hr

variable [Element α]

theorem respond (hP : Kernel.Stable P) (hc : c.Valid P) {r : Request (Job α)}
    {y : Reply (List α)} (h : c.respond r = .ok (c', y)) : c'.Valid P := by
  cases step_of_respond h with
  | kept => exact hc
  | transformed ht => exact hc.transform hP ht
  | quality hq =>
    obtain ⟨h1, h2, h3⟩ := Setup.Coherent.withQuality hq
    exact hc.stage h1 h2 h3
  | latency b => exact hc.stage (hc.pending.1.withZeroLatency b) rfl rfl
  | configured hs => exact configured hP (check_eq_ok hs).2
  | reset => exact hc.reset hP

theorem run (hP : Kernel.Stable P) (hc : c.Valid P) {rs : List (Request (Job α))}
    {ys : List (Reply (List α))} (h : c.run rs = .ok (c', ys)) : c'.Valid P := by
  induction rs generalizing c ys with
  | nil =>
    cases h
    exact hc
  | cons r rs ih =>
    obtain ⟨p, hp, h⟩ := Checked.bind_eq_ok_iff.mp h
    obtain ⟨q, hq, h⟩ := Checked.bind_eq_ok_iff.mp h
    cases h
    exact ih (hc.respond hP hp) hq

end Valid

variable [Element α]

/-- The states that requests lead to from a converter as it is made. -/
inductive Reachable : Converter α ρ → Prop
  | made {config : Config} {c : Converter α ρ} (h : ofConfig config = .ok c) : Reachable c
  | step {c c' : Converter α ρ} {r : Request (Job α)} {y : Reply (List α)} (hc : Reachable c)
    (h : c.respond r = .ok (c', y)) : Reachable c'

theorem Reachable.valid (hP : Kernel.Stable P) (hc : c.Reachable) : c.Valid P := by
  induction hc with
  | made h =>
    obtain ⟨s, -, hs, rfl⟩ := ofConfig_eq_ok h
    exact valid_ofSetup hP hs
  | step _ h ih => exact ih.respond hP h

end Converter

end RateConversion
