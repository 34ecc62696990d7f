import RateConversion.Proofs.Alignment
import RateConversion.Proofs.Bookkeeping
import RateConversion.Proofs.GapZeros

/-! Where the filter stands for an output offset. A consistent stream is one whose segment opens
at the time of its offset; it may come in any buffers, of data or of silence, and anything may
be asked in between. What it gives at an output offset is the sample that the conversion has
there. For a sinc filter that is the filter centred on the tick of the offset, or the filter
that ends there if its latency is told. -/

namespace RateConversion

section Buffers

variable {α ρ : Type} [Zero α]

def Buffer.content (b : Buffer α) : List α :=
  if b.header.gap then List.replicate b.header.len 0 else b.samples

theorem Buffer.Proper.length_content {b : Buffer α} (h : b.Proper) :
    b.content.length = b.header.len := by
  rw [Buffer.content]
  split_ifs with hg
  · exact List.length_replicate
  · exact h.resolve_left hg

variable [Add α] [Sub α] [Scalar ρ] [Sample α ρ]

/-- The buffer holds the samples of a stream at its offset. A gap holds zeros only where zeros
are inert. -/
structure Buffer.Holds (x : Nat → α) (b : Buffer α) : Prop where
  content : b.content = stretch x b.header.offset b.header.len
  inert : b.header.gap = true → InertZeros α ρ

variable [Add ρ] [Mul ρ] {conv : Conversion} {k : Kernel α ρ}

theorem Kernel.Poised.eq_of_give (h : Poised conv k) (hx : conv.Exact ρ) {b : Buffer α}
    (hb : b.Proper) (hn : b.header.len < 2 ^ 64)
    (hz : b.header.gap = true → InertZeros α ρ) {p : Produced α ρ}
    (hp : k.give b (k.yield b.header.len) = .ok p) :
    p.kernel.Alike (k.fed b.content).1 ∧ p.output = (k.fed b.content).2 := by
  by_cases hg : b.header.gap = true
  · rw [Kernel.give, if_pos hg] at hp
    rw [Buffer.content, if_pos hg]
    exact h.eq_of_feedGap (hz hg) hx hn hp
  · have hlen := hb.resolve_left hg
    rw [Kernel.give, if_neg hg] at hp
    obtain ⟨r, hr, hp⟩ := Checked.bind_eq_ok_iff.mp hp
    cases hp
    rw [Buffer.content, if_neg hg, h.serves.sound.eq_of_feed (hlen ▸ hn) hr]
    exact ⟨.same _, rfl⟩

end Buffers

namespace Grid

theorem largest_lt_align_add {rateIn rateOut n : Nat} (hr : 0 < rateOut) (hle : rateOut ≤ rateIn)
    (hrate : rateIn ≤ 500000000) (hn : 0 < n) :
    Scale.largest <
      align rateIn rateOut .downsampling Scale.largest + timeOfTick rateOut n := by
  have hns : nanosPerSecond = 1000000000 := rfl
  have hdouble : 2 * rateOut ≤ nanosPerSecond := by omega
  have htol := tolerance_mul_le rateIn
  have hlow : Scale.largest ≤
      align rateIn rateOut .downsampling Scale.largest + tolerance rateIn := by
    simp only [align]
    split_ifs with hmiss
    · -- The tick that is taken is not before the time, so its time is cut as well.
      have hover : Scale.largest ≤ Scale.nearest
          (Scale.ceil Scale.largest rateOut nanosPerSecond) nanosPerSecond rateOut := by
        obtain ⟨hleast, -⟩ := Scale.least_bounds Scale.largest rateOut Scale.nanosPerSecond_pos
        rw [Scale.ceil_eq_least (least_le_largest le_rfl hdouble)]
        rw [Nat.mul_comm nanosPerSecond] at hleast
        exact le_nearest_of_le_mul hr hleast
      change _ ≤ min (Scale.nearest _ _ _) Scale.largest + _
      rw [Nat.min_eq_right hover]
      exact Nat.le_add_right _ _
    · have hnear := Nat.lt_of_not_le fun h => hmiss ⟨trivial, h⟩
      change _ < tolerance rateIn at hnear
      omega
  have hstep : tolerance rateIn < timeOfTick rateOut n := by
    have hmul := Nat.mul_le_mul_left (tolerance rateIn) hle
    obtain ⟨-, hnear⟩ := Scale.nearest_bounds n nanosPerSecond hr
    have hone := Nat.mul_le_mul_right nanosPerSecond hn
    apply lt_min
    · change tolerance rateIn < Scale.nearest n nanosPerSecond rateOut
      by_contra hge
      have hover := Nat.mul_le_mul_left rateOut (Nat.le_of_not_lt hge)
      rw [Nat.mul_comm rateOut (tolerance rateIn)] at hover
      omega
    · have hhalf := Nat.div_le_self (nanosPerSecond / 2) rateIn
      simp only [tolerance, Scale.largest]
      omega
  omega

end Grid

theorem Decimation.span_eq {kind : Decimation} {span : Nat} (h : kind.span? = some span) :
    span = 32 ∨ span = 192 := by
  cases kind <;> cases h
  · exact .inl rfl
  · exact .inr rfl

section Filters

variable {span : Nat} {kind : Decimation}

theorem Conversion.exact_of_span {ρ : Type} [Add ρ] [Scalar ρ] (factor : Nat) (z : Bool)
    (h : kind.span? = some span) :
    (Conversion.down factor kind z).Exact ρ := by
  cases kind with
  | tukey => cases h
  | _ => trivial

theorem Reference.settling_of_span (factor : Nat) (z : Bool) (h : kind.span? = some span) :
    settling (.down factor kind z) = 0 := by
  cases kind with
  | tukey => cases h
  | _ => rfl

theorem Conversion.delay_of_span (factor : Nat) (z : Bool) (h : kind.span? = some span) :
    (Conversion.down factor kind z).delay = if z then span / 2 else span := by
  cases kind <;> cases h <;> rfl

theorem Conversion.delay_pos (factor : Nat) (z : Bool) (h : kind.span? = some span) :
    0 < (Conversion.down factor kind z).delay := by
  have hspan := Decimation.span_eq h
  rw [delay_of_span factor z h]
  split_ifs <;> omega

theorem Conversion.add_delay_mul (factor tick : Nat) (z : Bool) (h : kind.span? = some span) :
    (tick + (Conversion.down factor kind z).delay) * factor =
      if z then tick * factor + span * factor / 2
      else tick * factor + span * factor / 2 + span * factor / 2 := by
  rw [delay_of_span factor z h, Nat.add_mul]
  rcases Decimation.span_eq h with rfl | rfl
  · split_ifs <;> omega
  · split_ifs <;> omega

end Filters

theorem Setup.Coherent.position_of_timed {s : Setup} (hs : s.Coherent) {factor span : Nat}
    {kind : Decimation} {z : Bool} (hconv : s.conversion = .down factor kind z)
    (hspan : kind.span? = some span) (hrate : s.rateIn ≤ 500000000) {h : Header}
    (htime : h.timestamp? = some (Scale.round h.offset nanosPerSecond s.rateIn))
    (hoffset : h.offset ≤ Scale.largest)
    (htimed : (s.opened h).Timed s.rateOut (s.opened h).nextOut) :
    Grid.position s.rateIn h = h.offset := by
  have hns : nanosPerSecond = 1000000000 := rfl
  apply Grid.position_of_time htime s.rateIn_pos (by omega) hoffset
  by_contra hcut
  have hlargest : Scale.round h.offset nanosPerSecond s.rateIn = Scale.largest :=
    Nat.min_eq_right (Nat.lt_of_not_le hcut).le
  have hrelates := hs.relates
  rw [hconv] at hrelates
  have hle : s.rateOut ≤ s.rateIn := by
    rw [hrelates.2]
    exact Nat.le_mul_of_pos_left _ (Nat.zero_lt_of_lt hrelates.1)
  have hdelay := Conversion.delay_pos factor z hspan
  have hover := Grid.largest_lt_align_add s.rateOut_pos hle hrate hdelay
  obtain ⟨-, hfit⟩ := htimed (Grid.align s.rateIn s.rateOut .downsampling Scale.largest) (by
    rw [Setup.opened, htime, hlargest, hconv]
    rfl)
  have hticks : (s.opened h).nextOut - (s.opened h).origin =
      (Conversion.down factor kind z).delay := by
    rw [Setup.opened, hconv, Nat.add_sub_cancel_left]
  rw [hticks] at hfit
  simp only [Scale.largest] at hover hfit
  omega

namespace Converter

variable {α ρ : Type} [Zero α] [Add α] [Sub α] [Add ρ] [Mul ρ] [Scalar ρ] [Sample α ρ]

/-- After the samples of a stream from `a` up to `a + n` in a segment that `e` has opened: the
kernel is as they leave it, and the parts put out hold what they give. -/
structure Given (x : Nat → α) (e : Converter α ρ) (a n : Nat) (d : Converter α ρ)
    (parts : List (List α × Stamp)) : Prop where
  valid : d.Valid Kernel.Poised
  setup : d.setup = e.setup
  kernel : d.kernel.Alike (e.kernel.fed (stretch x a n)).1
  nextOut : d.segment.nextOut = e.segment.nextOut + (e.kernel.fed (stretch x a n)).2.length
  given (o : Nat) (y : α) : Emits parts o y → e.segment.nextOut ≤ o ∧
    (e.kernel.fed (stretch x a n)).2[o - e.segment.nextOut]? = some y

variable {x : Nat → α} {c d e : Converter α ρ} {a n : Nat} {parts : List (List α × Stamp)}

theorem Given.start (he : e.Valid Kernel.Poised) (x : Nat → α) (a : Nat) :
    Given x e a 0 e [] := by
  obtain ⟨hkernel, hout⟩ := he.kernel.serves.fed_nil
  refine ⟨he, rfl, hkernel, ?_, ?_⟩
  · change _ = _ + (e.kernel.fed []).2.length
    rw [hout]
    rfl
  · rintro o y ⟨p, hp, -⟩
    cases hp

theorem Given.proceed (h : Given x e a n d parts) (he : e.kernel.Sound)
    (hx : d.setup.conversion.Exact ρ) {b : Buffer α} (hb : b.Proper) (hh : b.Holds x)
    (ha : b.header.offset = a + n) {m : Nat} {r : Converter α ρ × List α × Stamp}
    (hr : d.proceed b m = .ok r) (slack : List α) :
    Given x e a (n + b.header.len) r.1 (parts ++ [(r.2.1 ++ slack, r.2.2)]) := by
  have hvalid := h.valid.proceed Kernel.poised_stable hb hr
  obtain ⟨p, hp, hlen, hin, -, -, rfl⟩ := exists_of_proceed h.valid.ordered hr
  cases Kernel.eq_yield_of_outputLen hlen
  obtain ⟨hkernel, hout⟩ := h.valid.kernel.eq_of_give hx hb (by omega) hh.inert hp
  have hlength := h.valid.kernel.serves.length_fed b.content
  rw [hb.length_content] at hlength
  obtain ⟨hnext, hsame⟩ := h.kernel.fed b.content
  obtain ⟨hall, hgives⟩ := he.fed_append (stretch x a n) b.content
  rw [hsame] at hout hlength
  have hstretch : stretch x a (n + b.header.len) = stretch x a n ++ b.content := by
    rw [stretch_add, hh.content, ha]
  refine ⟨hvalid, h.setup, ?_, ?_, ?_⟩
  · rw [hstretch]
    exact (hkernel.trans hnext).trans hall.symm
  · change d.segment.nextOut + d.kernel.yield b.header.len = _
    rw [hstretch, hgives, List.length_append, h.nextOut, hlength, Nat.add_assoc]
  · rintro o y ⟨q, hq, hlow, hhigh, hy⟩
    rw [hstretch, hgives]
    rcases List.mem_append.mp hq with hq | hq
    · obtain ⟨hle, hold⟩ := h.given o y ⟨q, hq, hlow, hhigh, hy⟩
      refine ⟨hle, ?_⟩
      rwa [List.getElem?_append_left (List.getElem?_eq_some_iff.mp hold).1]
    · cases List.mem_singleton.mp hq
      change d.segment.nextOut ≤ o at hlow
      change o < d.segment.nextOut + d.kernel.yield b.header.len at hhigh
      change (p.output ++ slack)[o - d.segment.nextOut]? = some y at hy
      have hnextOut := h.nextOut
      rw [hout, List.getElem?_append_left (by omega)] at hy
      refine ⟨by omega, ?_⟩
      rw [List.getElem?_append_right (by omega), ← hy]
      congr 1
      omega

structure Streams (x : Nat → α) (c : Converter α ρ) (header : Header) (n : Nat)
    (d : Converter α ρ) (parts : List (List α × Stamp)) : Prop where
  time : header.timestamp? =
    some (Scale.round header.offset nanosPerSecond c.pending.rateIn)
  opening : (c.opened header).Valid Kernel.Poised
  begins : (c.pending.opened header).nextOut < 0x10000000000000000
  timed : (c.pending.opened header).Timed c.pending.rateOut (c.pending.opened header).nextOut
  fits : header.offset + n < 0x10000000000000000
  nextIn : d.segment.nextIn? = some (header.offset + n)
  given : Given x (c.opened header) header.offset n d parts

section Streaming

variable {b : Buffer α} {slice : List α} {t : Transformed α ρ} {header : Header}

theorem Streams.opened (hc : c.Valid Kernel.Poised) (hx : c.pending.conversion.Exact ρ)
    (hd : c.Discontinuous b.header)
    (htime : b.header.timestamp? =
      some (Scale.round b.header.offset nanosPerSecond c.pending.rateIn))
    (hh : b.Holds x) (ht : c.transform b slice = .ok (.ok t)) :
    Streams x c b.header b.header.len t.converter [(t.slice, t.stamp)] := by
  obtain ⟨hb, m, e, output, -, -, he, hr, hslice⟩ := exists_of_transform ht
  have hvalid := hc.enter Kernel.poised_stable he
  obtain ⟨hbegins, rfl⟩ := (enter_of_discontinuous hd).mp he
  have hgiven := (Given.start hvalid x b.header.offset).proceed hvalid.kernel.serves.sound hx hb
    hh rfl hr (slice.drop m)
  obtain ⟨p, -, -, hin, -, htimed, heq⟩ := exists_of_proceed hvalid.ordered hr
  rw [Nat.zero_add, List.nil_append, ← hslice] at hgiven
  refine ⟨htime, hvalid, hbegins, ?_, hin, ?_, hgiven⟩
  · exact htimed.mono (fun _ => Nat.le_add_right _ _) (Nat.le_add_right _ _)
  · have hnext : t.converter = _ := congr_arg Prod.fst heq
    rw [hnext]
    rfl

theorem Streams.continued (hx : c.pending.conversion.Exact ρ)
    (h : Streams x c header n d parts) (hd : ¬d.Discontinuous b.header) (hh : b.Holds x)
    (ht : d.transform b slice = .ok (.ok t)) :
    Streams x c header (n + b.header.len) t.converter (parts ++ [(t.slice, t.stamp)]) := by
  obtain ⟨hb, m, e, output, -, -, he, hr, hslice⟩ := exists_of_transform ht
  cases (enter_of_continuous hd).symm.trans he
  have hoffset : d.segment.nextIn? = some b.header.offset := by
    by_contra hne
    exact hd (.inr (.inr (.inr hne)))
  have hnext := h.nextIn
  rw [hoffset, Option.some.injEq] at hnext
  have hmore := h.given.proceed h.opening.kernel.serves.sound (h.given.setup ▸ hx) hb hh hnext hr
    (slice.drop m)
  obtain ⟨p, -, -, hin, -, -, heq⟩ := exists_of_proceed h.given.valid.ordered hr
  rw [← hslice] at hmore
  refine ⟨h.time, h.opening, h.begins, h.timed, by omega, ?_, hmore⟩
  have hmoved : t.converter = _ := congr_arg Prod.fst heq
  rw [hmoved, ← Nat.add_assoc, ← hnext]
  rfl

end Streaming

variable [Element α]

/-- The runs of a consistent stream: the buffer that opens its segment in the state `c`, at the
time of its offset, then buffers that go on with it and other requests. -/
inductive Plays (x : Nat → α) (c : Converter α ρ) :
    Converter α ρ → List (List α × Stamp) → Prop
  | opened {b : Buffer α} {slice : List α} {t : Transformed α ρ} (hd : c.Discontinuous b.header)
    (htime : b.header.timestamp? =
      some (Scale.round b.header.offset nanosPerSecond c.pending.rateIn))
    (hh : b.Holds x) (ht : c.transform b slice = .ok (.ok t)) :
    Plays x c t.converter [(t.slice, t.stamp)]
  | continued {d : Converter α ρ} {parts : List (List α × Stamp)} {b : Buffer α}
    {slice : List α} {t : Transformed α ρ} (h : Plays x c d parts)
    (hd : ¬d.Discontinuous b.header) (hh : b.Holds x) (ht : d.transform b slice = .ok (.ok t)) :
    Plays x c t.converter (parts ++ [(t.slice, t.stamp)])
  | asked {d d' : Converter α ρ} {parts : List (List α × Stamp)} {r : Request (Job α)}
    {y : Reply (List α)} (h : Plays x c d parts) (hr : r.Passive)
    (hd : d.respond r = .ok (d', y)) : Plays x c d' parts

theorem Given.passive (h : Given x e a n d parts) {r : Request (Job α)} (hr : r.Passive)
    {d' : Converter α ρ} {y : Reply (List α)} (hd : d.respond r = .ok (d', y)) :
    Given x e a n d' parts ∧ d'.segment = d.segment := by
  have hvalid := h.valid.respond Kernel.poised_stable hd
  cases step_of_respond hd with
  | kept => exact ⟨h, rfl⟩
  | quality | latency => exact ⟨{ h with valid := hvalid }, rfl⟩
  | transformed | configured | reset => cases hr

theorem Streams.asked {header : Header} (h : Streams x c header n d parts)
    {r : Request (Job α)} (hr : r.Passive) {y : Reply (List α)}
    (hd : d.respond r = .ok (e, y)) : Streams x c header n e parts := by
  obtain ⟨hpassive, hsegment⟩ := h.given.passive hr hd
  exact ⟨h.time, h.opening, h.begins, h.timed, h.fits, hsegment ▸ h.nextIn, hpassive⟩

theorem Plays.exists_streams (hc : c.Valid Kernel.Poised) (hx : c.pending.conversion.Exact ρ)
    (h : Plays x c d parts) : ∃ header n, Streams x c header n d parts := by
  induction h with
  | opened hd htime hh ht => exact ⟨_, _, .opened hc hx hd htime hh ht⟩
  | continued _ hd hh ht ih =>
    obtain ⟨header, n, hstreams⟩ := ih
    exact ⟨header, _, hstreams.continued hx hd hh ht⟩
  | asked _ hr hd ih =>
    obtain ⟨header, n, hstreams⟩ := ih
    exact ⟨header, n, hstreams.asked hr hd⟩

theorem Plays.exists_place (hc : c.Valid Kernel.Poised) (h : Plays x c d parts)
    (hrate : c.pending.rateIn ≤ 500000000) {factor span : Nat} {kind : Decimation} {z : Bool}
    (hconv : c.pending.conversion = .down factor kind z) (hspan : kind.span? = some span)
    {o : Nat} {y : α} (hy : Emits parts o y) :
    ∃ place, (Taps.lowPass factor span : Taps ρ).reach ≤ place ∧
      y = (Taps.lowPass factor span : Taps ρ).apply x place ∧
      o * factor = if z then place else place + (Taps.lowPass factor span : Taps ρ).reach := by
  have hx : c.pending.conversion.Exact ρ := hconv ▸ Conversion.exact_of_span factor z hspan
  obtain ⟨header, n, hstreams⟩ := h.exists_streams hc hx
  obtain ⟨hlow, hfed⟩ := hstreams.given.given o y hy
  have hfits := hstreams.fits
  have hs := hc.pending.1
  have hdelay := Conversion.delay_pos factor z hspan
  have hnextOut : (c.pending.opened header).nextOut =
      c.pending.firstTick header.offset + (Conversion.down factor kind z).delay :=
    congr_arg (_ + Conversion.delay ·) hconv
  have hoffset : header.offset ≤ Scale.largest := by
    simp only [Scale.largest]
    omega
  have hposition := hs.position_of_timed hconv hspan hrate hstreams.time hoffset hstreams.timed
  have hfirst := hstreams.begins
  have hbegins := hs.begins hposition (by simp only [Scale.largest]; omega)
  have hserves := (hc.adopt Kernel.poised_stable).kernel.serves
  rw [adopt_setup] at hserves
  have hsettled : Reference.settling c.pending.conversion ≤
      o - (c.pending.opened header).nextOut := by
    rw [hconv, Reference.settling_of_span factor z hspan]
    exact Nat.zero_le _
  have hvalue := hserves.fed_reset hs.fits (Setup.leading_admits hs.fits header) hbegins x n _
    hsettled hfed
  change (c.pending.opened header).nextOut ≤ o at hlow
  rw [hconv, Nat.add_right_comm, Reference.sampleAt_of_span hspan] at hvalue
  refine ⟨_, (Taps.reach_lowPass factor span).trans_le (Nat.le_add_left _ _), hvalue, ?_⟩
  rw [Taps.reach_lowPass, ← Conversion.add_delay_mul factor _ z hspan]
  congr 1
  omega

end Converter

end RateConversion
