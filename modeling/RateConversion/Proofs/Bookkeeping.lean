import Mathlib.Data.List.Chain
import RateConversion.Proofs.Opening
import RateConversion.Proofs.Progress

/-! The books of a segment. In whatever buffers its samples come, of data, of silence or
empty, the next offsets on both sides are functions of the number of samples taken, and
the stamps follow each other without a hole in offset or in time. -/

namespace RateConversion

theorem Conversion.total_zero (conv : Conversion) (leading : Nat) : conv.total leading 0 = 0 := by
  cases conv <;> simp [total]

def Stamp.Meets (m m' : Stamp) : Prop :=
  m'.offset = m.offsetEnd ∧ ∃ time duration, m.timestamp? = some time ∧
    m.duration? = some duration ∧ m'.timestamp? = some (time + duration)

structure Stamp.OnTicks (rateOut origin start : Nat) (m : Stamp) : Prop where
  origin_le : origin ≤ m.offset
  offset_le : m.offset ≤ m.offsetEnd
  timestamp : m.timestamp? = some (start + Grid.timeOfTick rateOut (m.offset - origin))
  duration : m.duration? = some
    (Grid.timeOfTick rateOut (m.offsetEnd - origin) - Grid.timeOfTick rateOut (m.offset - origin))
  time_lt : start + Grid.timeOfTick rateOut (m.offset - origin) < 0x10000000000000000

theorem Stamp.OnTicks.meets {rateOut origin start : Nat} {m m' : Stamp}
    (h : m.OnTicks rateOut origin start) (h' : m'.OnTicks rateOut origin start)
    (ho : m'.offset = m.offsetEnd) : m.Meets m' := by
  have hle : m.offset - origin ≤ m.offsetEnd - origin := Nat.sub_le_sub_right h.offset_le _
  have hmono := Grid.timeOfTick_mono rateOut hle
  refine ⟨ho, _, _, h.timestamp, h.duration, ?_⟩
  rw [h'.timestamp, ho, Nat.add_assoc, Nat.add_sub_cancel' hmono]

theorem Segment.onTicks_stampOf {s : Segment} {start rateOut len : Nat}
    (hs : s.start? = some start) (ho : s.origin ≤ s.nextOut)
    (ht : s.Timed rateOut (s.nextOut + len)) (gap : Bool) (loud : Nat) :
    (s.stampOf rateOut len gap loud).OnTicks rateOut s.origin start := by
  have htime := ht.mono (fun _ => ho) (Nat.le_add_right _ _)
  refine ⟨ho, Nat.le_add_right _ _, ?_, ?_, (htime start hs).2⟩
  · simp only [stampOf, time?, hs, Option.map_some]
  · simp only [stampOf, duration?, hs, Option.map_some]

def Request.Passive {τ : Type} : Request τ → Prop
  | .transform _ | .configure _ | .reset => False
  | _ => True

namespace Converter

variable {α ρ : Type} [Zero α] [Scalar ρ]

/-- The books of a segment that this header has opened, after `n` samples and the stamps
`ms`. -/
structure Booked (s : Setup) (h : Header) (start : Nat) (d : Converter α ρ) (n : Nat)
    (ms : List Stamp) : Prop where
  setup : d.setup = s
  origin : d.segment.origin = (s.opened h).origin
  startsAt : d.segment.start? = some start
  kernel : d.kernel.Took s.conversion (s.leading h) n
  nextOut : d.segment.nextOut = (s.opened h).nextOut + s.conversion.total (s.leading h) n
  stamps (m : Stamp) : m ∈ ms → m.OnTicks s.rateOut (s.opened h).origin start
  chain : ms.IsChain Stamp.Meets
  first : (ms.head?.map Stamp.offset).getD d.segment.nextOut = (s.opened h).nextOut
  last (m : Stamp) : m ∈ ms.getLast? → m.offsetEnd = d.segment.nextOut

theorem Booked.origin_le {s : Setup} {h : Header} {start n : Nat} {d : Converter α ρ}
    {ms : List Stamp} (hd : d.Booked s h start n ms) : d.segment.origin ≤ d.segment.nextOut := by
  have horigin : (s.opened h).origin ≤ (s.opened h).nextOut := Nat.le_add_right _ _
  rw [hd.origin, hd.nextOut]
  omega

variable [Add α] [Sub α] [Add ρ] [Mul ρ] [Sample α ρ]

section Steps

variable {c d : Converter α ρ} {s : Setup} {h : Header} {start n : Nat} {ms : List Stamp}

theorem booked_opened (hc : c.Valid Kernel.Serves) {time : Nat} (ht : h.timestamp? = some time) :
    (c.opened h).Booked c.pending h
      (Grid.align c.pending.rateIn c.pending.rateOut c.pending.conversion.direction time) 0 [] := by
  have ha := hc.adopt Kernel.serves_stable
  have hfits := hc.pending.1.fits
  have hserves := ha.kernel
  rw [adopt_setup] at hserves
  refine ⟨rfl, rfl, ?_, hserves.took_reset hfits (Setup.leading_admits hfits h), ?_,
    fun m hm => (by cases hm), .nil, rfl, fun m hm => (by cases hm)⟩
  · simp only [opened, Setup.opened, ht, Option.map_some]
  · rw [Conversion.total_zero]
    rfl

theorem Booked.proceed (hd : d.Booked s h start n ms) (hs : s.Coherent) {b : Buffer α}
    (hb : b.Proper) {k : Nat} {r : Converter α ρ × List α × Stamp} (hr : d.proceed b k = .ok r) :
    r.1.Booked s h start (n + b.header.len) (ms ++ [r.2.2]) ∧
      r.1.segment.nextIn? = some (b.header.offset + b.header.len) ∧
      b.header.offset + b.header.len < 0x10000000000000000 := by
  have hadmits := Setup.leading_admits hs.fits h
  obtain ⟨p, hp, hlen, hin, -, htimed, rfl⟩ := exists_of_proceed (fun _ => hd.origin_le) hr
  have hkernel := (Kernel.took_kept hs.fits hadmits).give hd.kernel hb (by omega) hp
  have htotal := hd.kernel.total_add hs.fits hadmits b.header.len
  rw [← Kernel.eq_yield_of_outputLen hlen] at htotal
  have hstamp := Segment.onTicks_stampOf hd.startsAt hd.origin_le htimed b.header.gap p.loud
  rw [hd.origin, hd.setup] at hstamp
  rw [hd.setup]
  refine ⟨⟨hd.setup, hd.origin, hd.startsAt, hkernel, ?_, ?_, ?_, ?_, ?_⟩, rfl, hin⟩
  · change d.segment.nextOut + k = _
    rw [hd.nextOut, ← htotal, Nat.add_assoc]
  · intro m hm
    rcases List.mem_append.mp hm with hm | hm
    · exact hd.stamps m hm
    · exact List.mem_singleton.mp hm ▸ hstamp
  · apply hd.chain.append (List.isChain_singleton _)
    intro m hm m' hm'
    cases hm'
    exact (hd.stamps m (List.mem_of_mem_getLast? hm)).meets hstamp (hd.last m hm).symm
  · have hfirst := hd.first
    cases ms with
    | nil => exact hfirst
    | cons m ms => exact hfirst
  · intro m hm
    rw [List.getLast?_concat] at hm
    cases hm
    rfl

theorem booked_of_passive [Element α] (hd : d.Booked s h start n ms) {r : Request (Job α)}
    (hr : r.Passive) {d' : Converter α ρ} {y : Reply (List α)} (h' : d.respond r = .ok (d', y)) :
    d'.Booked s h start n ms ∧ d'.segment.nextIn? = d.segment.nextIn? := by
  cases step_of_respond h' with
  | kept => exact ⟨hd, rfl⟩
  | quality | latency => exact ⟨{ hd with }, rfl⟩
  | transformed | configured | reset => cases hr

end Steps

variable [Element α]

/-- The runs of a segment: the buffer that opens it in the state `c`, then buffers that go on
with it and other requests. `n` samples have been taken and the stamps `ms` given. -/
inductive Underway (c : Converter α ρ) (b : Buffer α) :
    Converter α ρ → Nat → List Stamp → Prop
  | opened {slice : List α} {t : Transformed α ρ} (hd : c.Discontinuous b.header)
    (ht : c.transform b slice = .ok (.ok t)) : Underway c b t.converter b.header.len [t.stamp]
  | continued {d : Converter α ρ} {n : Nat} {ms : List Stamp} {b' : Buffer α} {slice : List α}
    {t : Transformed α ρ} (h : Underway c b d n ms) (hd : ¬d.Discontinuous b'.header)
    (ht : d.transform b' slice = .ok (.ok t)) :
    Underway c b t.converter (n + b'.header.len) (ms ++ [t.stamp])
  | asked {d d' : Converter α ρ} {n : Nat} {ms : List Stamp} {r : Request (Job α)}
    {y : Reply (List α)} (h : Underway c b d n ms) (hr : r.Passive)
    (hd : d.respond r = .ok (d', y)) : Underway c b d' n ms

variable {c d : Converter α ρ} {b : Buffer α} {n : Nat} {ms : List Stamp}

theorem Underway.booked (hc : c.Valid Kernel.Serves) {time : Nat}
    (ht : b.header.timestamp? = some time) (h : Underway c b d n ms) :
    d.Booked c.pending b.header
        (Grid.align c.pending.rateIn c.pending.rateOut c.pending.conversion.direction time) n ms ∧
      d.segment.nextIn? = some (b.header.offset + n) ∧
      b.header.offset + n < 0x10000000000000000 := by
  have hs := hc.pending.1
  induction h with
  | opened hd h =>
    obtain ⟨hb, k, d, output, -, -, he, hr, -⟩ := exists_of_transform h
    obtain ⟨-, rfl⟩ := (enter_of_discontinuous hd).mp he
    obtain ⟨hbooked, hnext⟩ := (booked_opened hc ht).proceed hs hb hr
    rw [Nat.zero_add] at hbooked
    exact ⟨hbooked, hnext⟩
  | @continued d n ms b' slice t _ hd h ih =>
    obtain ⟨hb, k, d', output, -, -, he, hr, -⟩ := exists_of_transform h
    cases (enter_of_continuous hd).symm.trans he
    obtain ⟨hbooked, hnext⟩ := ih.1.proceed hs hb hr
    -- The buffer goes on, so it starts where the samples before it end.
    have hoffset : d.segment.nextIn? = some b'.header.offset := by
      by_contra hne
      exact hd (.inr (.inr (.inr hne)))
    rw [ih.2.1, Option.some.injEq] at hoffset
    rw [← hoffset, Nat.add_assoc] at hnext
    exact ⟨hbooked, hnext⟩
  | asked _ hr h ih =>
    obtain ⟨hbooked, hnext⟩ := booked_of_passive ih.1 hr h
    exact ⟨hbooked, hnext.trans ih.2.1, ih.2.2⟩

/-- The books of a segment in closed form, after any number of buffers that meet no fault. -/
theorem segment_books (hc : c.Reachable) (ht : b.header.timestamp?.isSome)
    (h : Underway c b d n ms) :
    d.setup = c.pending ∧
    d.segment.nextIn? = some (b.header.offset + n) ∧
    d.segment.nextOut = d.segment.origin + d.setup.conversion.delay +
      d.setup.conversion.total (d.setup.leading b.header) n ∧
    ms.IsChain Stamp.Meets ∧
    (∀ m ∈ ms.head?, m.offset = d.segment.origin + d.setup.conversion.delay) ∧
    (∀ m ∈ ms.getLast?, m.offsetEnd = d.segment.nextOut) ∧
    ∃ start, d.segment.start? = some start ∧ ∀ m ∈ ms, d.segment.origin ≤ m.offset ∧
      m.timestamp? = some
        (start + Scale.round (m.offset - d.segment.origin) nanosPerSecond d.setup.rateOut) := by
  obtain ⟨time, ht⟩ := Option.isSome_iff_exists.mp ht
  obtain ⟨hd, hnext, -⟩ := h.booked (hc.valid Kernel.serves_stable) ht
  have hfirst := hd.first
  rw [hd.setup, hd.origin]
  refine ⟨rfl, hnext, hd.nextOut, hd.chain, fun m hm => ?_, hd.last, _, hd.startsAt, fun m hm => ?_⟩
  · rw [hm] at hfirst
    exact hfirst
  · have hm := hd.stamps m hm
    exact ⟨hm.origin_le, hm.timestamp⟩

def picking : Setup where
  config :=
    { rateIn := .four, rateOut := .two, type := .f64 }
  conversion := .down 2 .pick false

def picked : Converter Float Float :=
  ⟨picking, none, .pick ⟨2, 0, 0⟩, none, .empty, ⟨some 1500000000, 3, some 8, 4, false⟩⟩

def threeSamples : Buffer Float :=
  ⟨{ len := 3, offset := 5, timestamp? := some 1250000000 }, [1, 2, 3]⟩

def twoMissing : Buffer Float :=
  ⟨{ len := 2, offset := 8, timestamp? := some 0, gap := true }, []⟩

theorem picked_give : picked.kernel.give twoMissing 1 = .ok ⟨picked.kernel, [0], 0⟩ := by
  have hskip : TickClock.skip ⟨2, 0, 0⟩ 2 = .ok ⟨2, 0, 0⟩ := by decide
  change Kernel.feedGap _ _ _ = _
  rw [Kernel.feedGap, if_neg (by decide), if_pos (show picked.kernel.isSilent from rfl)]
  change (TickClock.skip ⟨2, 0, 0⟩ 2 >>= fun c => .ok (Kernel.pick c)) >>= _ = _
  rw [hskip]
  rfl

theorem segment_books_with_empty_and_gap :
    ∃ d ms, Underway (ofSetup picking) threeSamples d 5 ms ∧
      d.segment.nextIn? = some 10 ∧ d.segment.nextOut = 5 ∧ ms.length = 3 ∧
      ms.IsChain Stamp.Meets := by
  have hc : (ofSetup picking : Converter Float Float).Reachable :=
    .made (show ofConfig picking.config = .ok (ofSetup picking) from rfl)
  obtain ⟨t₁, h₁, hpicked⟩ : ∃ t, (ofSetup picking).transform threeSamples [0] = .ok (.ok t) ∧
      t.converter = picked := ⟨_, rfl, congr_arg (Converter.mk _ _ _ _ _) (by decide +kernel)⟩
  obtain ⟨t₂, h₂, hpicked'⟩ : ∃ t, picked.transform
      ⟨{ len := 0, offset := 8, timestamp? := some 0 }, []⟩ [] = .ok (.ok t) ∧
      t.converter = picked := ⟨_, rfl, rfl⟩
  obtain ⟨t₃, h₃, horigin, hsetup⟩ : ∃ t, picked.transform twoMissing [0] = .ok (.ok t) ∧
      t.converter.segment.origin = 3 ∧ t.converter.setup = picking := by
    have henter : picked.enter twoMissing.header = .ok picked := rfl
    rw [transform_of_predict (n := 1) (.inl rfl) rfl (by decide), absorb_eq, henter,
      Checked.ok_bind, proceed, picked_give]
    exact ⟨_, rfl, rfl, rfl⟩
  have hthree := Underway.opened (.inr (.inr (.inl rfl))) h₁
  rw [hpicked] at hthree
  have hempty := hthree.continued (by rw [← continues_eq_false_iff]; decide) h₂
  rw [hpicked'] at hempty
  have hgap := hempty.continued (by rw [← continues_eq_false_iff]; decide) h₃
  have hasked := hgap.asked (r := .setZeroLatency true) trivial rfl
  obtain ⟨-, h1, h2, h3, -⟩ := segment_books hc rfl hasked
  change t₃.converter.segment.nextOut = t₃.converter.segment.origin +
    t₃.converter.setup.conversion.delay + t₃.converter.setup.conversion.total
      (t₃.converter.setup.leading threeSamples.header) 5 at h2
  rw [horigin, hsetup] at h2
  exact ⟨_, _, hasked, h1, h2, rfl, h3⟩

end Converter

end RateConversion
