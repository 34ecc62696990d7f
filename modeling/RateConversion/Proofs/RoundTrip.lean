import RateConversion.Proofs.Alignment
import RateConversion.Proofs.Raising
import RateConversion.Proofs.Staging

/-! Raising a rate and lowering it again. A converter of the lowest quality that is fed a
raised stream, part by part with what is stamped on it, picks the samples that lead the blocks.
The parts before the first output are empty, and the first one that is not is marked, so
the converter may open its segment twice, each time at the same offset and time. -/

namespace RateConversion

/-- Settings that raise a rate, and settings of the lowest quality that lower it again. -/
structure Config.UndoneBy (config config' : Config) (factor : Nat) (i : Interpolation) :
    Prop where
  factor_le : 2 ≤ factor
  rate : config.rateOut.hz = factor * config.rateIn.hz
  rate_le : config.rateOut.hz ≤ 500000000
  quality : Interpolation.ofQuality? config.quality = some i
  unitSize : config.checkUnitSize = .ok ()
  rateIn : config'.rateIn = config.rateOut
  rateOut : config'.rateOut = config.rateIn
  type : config'.type = config.type
  quality' : config'.quality = 0
  unitSize' : config'.checkUnitSize = .ok ()

namespace Config

theorem conversion_eq_resolve {c : Config} {num den : Nat} (hunit : c.checkUnitSize = .ok ())
    (hratio : c.ratio = (num, den)) (hone : num = 1 ∨ den = 1) :
    c.conversion = c.resolve num den := by
  simp only [conversion]
  rw [hunit, hratio]
  exact if_neg (by tauto)

namespace UndoneBy

variable {config config' : Config} {factor : Nat} {i : Interpolation}

theorem rateIn_lt (h : config.UndoneBy config' factor i) :
    config.rateIn.hz < config.rateOut.hz := by
  have hpos := config.rateIn.pos
  have hf := h.factor_le
  rw [h.rate]
  nlinarith

theorem conversion (h : config.UndoneBy config' factor i) :
    config.conversion = .ok (.up factor i) := by
  have hpos := config.rateIn.pos
  have hratio : config.ratio = (factor, 1) := by
    simp only [ratio]
    rw [h.rate, Nat.gcd_mul_left_left, Nat.mul_div_cancel _ hpos, Nat.div_self hpos]
  have hdir : config.direction = .upsampling := by
    simp only [direction]
    rw [Nat.compare_eq_gt.mpr h.rateIn_lt]
  rw [conversion_eq_resolve h.unitSize hratio (.inr rfl), resolve, hdir]
  dsimp only
  rw [h.quality]

theorem conversion' (h : config.UndoneBy config' factor i) :
    config'.conversion = .ok (.down factor .pick config'.zeroLatency) := by
  have hpos := config.rateIn.pos
  have hratio : config'.ratio = (1, factor) := by
    simp only [ratio]
    rw [h.rateIn, h.rateOut, h.rate, Nat.gcd_mul_left_right, Nat.mul_div_cancel _ hpos,
      Nat.div_self hpos]
  have hdir : config'.direction = .downsampling := by
    simp only [direction]
    rw [h.rateIn, h.rateOut, Nat.compare_eq_lt.mpr h.rateIn_lt]
  rw [conversion_eq_resolve h.unitSize' hratio (.inl rfl), resolve, hdir]
  dsimp only
  rw [h.quality']
  rfl

end UndoneBy

end Config

def piped {α : Type} (p : List α × Stamp) : Buffer α where
  header :=
    { len := p.2.offsetEnd - p.2.offset, offset := p.2.offset, timestamp? := p.2.timestamp?
      discont := p.2.discont }
  samples := p.1

theorem RaisedPart.filled {α : Type} {factor rate offset m : Nat} {ks : List α}
    {p : List α × Stamp} (h : RaisedPart factor rate offset m ks p) : (piped p).Filled := by
  refine ⟨rfl, ?_⟩
  change p.1.length = p.2.offsetEnd - p.2.offset
  rw [h.blocks.length_eq, h.ends, h.begins, ← Nat.sub_mul, ← Nat.add_assoc,
    Nat.add_sub_cancel_left]

theorem RaisedPart.piped_end {α : Type} {factor rate offset m : Nat} {ks : List α}
    {p : List α × Stamp} (h : RaisedPart factor rate offset m ks p) :
    (piped p).header.offset + (piped p).header.len = (offset + (m + ks.length)) * factor := by
  have hle : p.2.offset ≤ p.2.offsetEnd := by
    rw [h.begins, h.ends]
    exact Nat.mul_le_mul_right _ (Nat.add_le_add_left (Nat.le_add_right _ _) _)
  exact (Nat.add_sub_cancel' hle).trans h.ends

theorem RaisedPart.onTime {α : Type} {s : Setup} {factor offset : Nat} {ks : List α}
    {p : List α × Stamp} (h : RaisedPart factor s.rateOut offset 0 ks p) (hf : 0 < factor)
    (hrel : s.rateIn = factor * s.rateOut) (hrate : s.rateIn ≤ 500000000)
    (hfit : Scale.nearest offset nanosPerSecond s.rateOut ≤ Scale.largest) :
    s.OnTime (piped p).header := by
  have hoff : (piped p).header.offset = offset * factor := h.begins
  refine ⟨hrate, ?_, ?_, ?_⟩
  · refine h.timestamp.trans (congr_arg some ?_)
    rw [hoff, hrel, Grid.timeOfTick_zero s.rateOut_pos, Nat.add_zero]
    exact (Grid.timeOfTick_mul_mul hf s.rateOut_pos offset).symm
  · rw [hoff, hrel, Scale.nearest_mul_mul hf s.rateOut_pos]
    exact hfit
  · rw [hoff]
    exact Nat.le_of_lt_succ (h.reaches.mono (Nat.zero_le _)).offset_lt

structure Segment.Anchored (rate offset m : Nat) (g : Segment) : Prop where
  start : g.start? = some (Grid.timeOfTick rate offset)
  origin : g.origin = offset
  nextOut : g.nextOut = offset + m

namespace TickClock

theorem ofDecimation_pick {factor : Nat} (h0 : 0 < factor) (h : factor < 2 ^ 32) :
    (ofDecimation factor .pick 0).Sound ∧ (ofDecimation factor .pick 0).wait = 0 :=
  ⟨ofDecimation_sound h0 h .pick h0,
    wait_start h0 (by omega) (Nat.two_pow_pos 62) (Nat.two_pow_pos 63)⟩

end TickClock

namespace Setup

variable {s : Setup} {factor : Nat} {z : Bool} {h : Header} {offset : Nat}

theorem Coherent.opened_on_tick (hs : s.Coherent) (hconv : s.conversion = .down factor .pick z)
    (ht : s.OnTime h) (htick : h.offset = offset * factor) :
    s.leading h = 0 ∧ (s.opened h).Anchored s.rateOut offset 0 := by
  have hr := hs.relates
  have hstart := hs.startsAt ht
  have hlead := leading_admits hs.fits h
  rw [hconv] at hr hstart hlead
  have hstart : h.offset + s.leading h = (s.opened h).origin * factor := hstart
  have hlead : s.leading h < factor := hlead
  have hle : offset ≤ (s.opened h).origin :=
    Nat.le_of_mul_le_mul_right (by omega) (show 0 < factor by omega)
  have hlt : (s.opened h).origin < offset + 1 := by
    apply Nat.lt_of_mul_lt_mul_right (a := factor)
    rw [Nat.succ_mul]
    omega
  have horigin : (s.opened h).origin = offset := by omega
  rw [horigin] at hstart
  refine ⟨by omega, ?_, horigin, ?_⟩
  · have halign := hs.align_onTime ht
    change h.timestamp?.map (Grid.align s.rateIn s.rateOut s.conversion.direction) = _
    rw [ht.time, Option.map_some, halign, horigin]
  · have hdelay : s.conversion.delay = 0 := by rw [hconv]; rfl
    exact congr_arg₂ _ horigin hdelay

end Setup

namespace Converter

theorem accepted_injective {α : Type} : Function.Injective (accepted (α := α)) := by
  rintro ⟨ys, m⟩ ⟨ys', m'⟩ h
  cases h
  rfl

variable {α ρ : Type} [Zero α] [Scalar ρ] {d e : Converter α ρ} {s : Setup} {factor offset m : Nat}
  {z : Bool}

structure Picks (s : Setup) (factor : Nat) (e : Converter α ρ) : Prop where
  valid : e.Valid Kernel.Serves
  setup : e.setup = s
  staged : e.staged? = none
  kernel : e.kernel = .pick (.ofDecimation factor .pick 0)

structure Ready (s : Setup) (factor offset m : Nat) (e : Converter α ρ) : Prop where
  picks : e.Picks s factor
  segment : e.segment = .idle ∧ m = 0 ∨
    e.segment.Anchored s.rateOut offset m ∧ e.segment.nextIn? = some ((offset + m) * factor)

variable {ks : List α} {p : List α × Stamp}

theorem Ready.eq_zero (he : e.Ready s factor offset m)
    (hp : RaisedPart factor s.rateOut offset m ks p) (hd : e.Discontinuous (piped p).header) :
    m = 0 := by
  rcases he.segment with ⟨-, hm⟩ | ⟨hanchored, hnext⟩
  · exact hm
  · rcases hd with hmark | htime | hstart | hoff
    · exact hp.discont hmark
    · cases hp.timestamp.symm.trans htime
    · cases hanchored.start.symm.trans hstart
    · exact absurd (hnext.trans (congr_arg some hp.begins.symm)) hoff

theorem Picks.takes (hd : d.Picks s factor) (hanchored : d.segment.Anchored s.rateOut offset m)
    (hf : 0 < factor) (hp : RaisedPart factor s.rateOut offset m ks p)
    (hyield : d.kernel.yield (piped p).header.len = ks.length) : d.Takes (piped p) := by
  have hend : d.segment.nextOut + d.kernel.yield (piped p).header.len =
      offset + (m + ks.length) := by
    rw [hyield, hanchored.nextOut, Nat.add_assoc]
  refine ⟨hp.piped_end ▸ hp.reaches.offset_lt, ?_, fun start hstart => ?_⟩
  · rw [hend]
    exact (Nat.le_mul_of_pos_right _ hf).trans_lt hp.reaches.offset_lt
  · cases hanchored.start.symm.trans hstart
    rw [hend, hanchored.origin, hd.setup, Nat.add_sub_cancel_left]
    exact ⟨Nat.le_add_right _ _, hp.reaches.time_lt⟩

variable [Add α] [Sub α] [Add ρ] [Mul ρ] [Sample α ρ]

theorem ready_ofSetup (hs : s.Coherent) (hconv : s.conversion = .down factor .pick z) :
    (ofSetup s : Converter α ρ).Ready s factor offset 0 := by
  have hkernel : (ofSetup s : Converter α ρ).kernel = .pick (.ofDecimation factor .pick 0) := by
    rw [ofSetup_kernel, hconv]
    rfl
  exact ⟨⟨valid_ofSetup Kernel.serves_stable hs, rfl, rfl, hkernel⟩, .inl ⟨rfl, rfl⟩⟩

theorem Ready.exists_enter (he : e.Ready s factor offset m)
    (hconv : s.conversion = .down factor .pick z) (hrate : s.rateIn ≤ 500000000)
    (hfit : Scale.nearest offset nanosPerSecond s.rateOut ≤ Scale.largest)
    (hp : RaisedPart factor s.rateOut offset m ks p) :
    ∃ d, e.enter (piped p).header = .ok d ∧ d.Picks s factor ∧
      d.segment.Anchored s.rateOut offset m := by
  by_cases hd : e.Discontinuous (piped p).header
  · cases he.eq_zero hp hd
    have hsetup := he.picks.setup
    have hpending : e.pending = s := by rw [pending, he.picks.staged, Option.getD_none, hsetup]
    have hadopt : e.adopt = e := by rw [adopt, he.picks.staged]
    have hs : s.Coherent := hsetup ▸ he.picks.valid.setup
    have hr := hs.relates
    rw [hconv] at hr
    have hpos : 0 < factor := Nat.lt_of_lt_of_le Nat.zero_lt_two hr.1
    obtain ⟨hlead, hopened⟩ := hs.opened_on_tick hconv (hp.onTime hpos hr.2 hrate hfit) hp.begins
    have henter : e.enter (piped p).header = .ok (e.opened (piped p).header) := by
      refine (enter_of_discontinuous hd).mpr ⟨?_, rfl⟩
      have hle : offset ≤ offset * factor := Nat.le_mul_of_pos_right _ hpos
      rw [hpending, hopened.nextOut]
      exact hle.trans_lt (hp.reaches.mono (Nat.zero_le _)).offset_lt
    refine ⟨_, henter, ⟨he.picks.valid.enter Kernel.serves_stable henter, hpending, rfl, ?_⟩, ?_⟩
    · change e.adopt.kernel.reset (e.pending.leading _) = _
      rw [hadopt, hpending, hlead, he.picks.kernel]
      rfl
    · change (e.pending.opened _).Anchored _ _ _
      rw [hpending]
      exact hopened
  · refine ⟨e, enter_of_continuous hd, he.picks, ?_⟩
    rcases he.segment with ⟨hidle, -⟩ | ⟨hanchored, -⟩
    · have hstart : e.segment.start? = none := by rw [hidle]; rfl
      exact absurd (.inr (.inr (.inl hstart))) hd
    · exact hanchored

theorem Picks.fed (hd : d.Picks s factor) (hconv : s.conversion = .down factor .pick z)
    {ys : List α} (hb : Blocks factor ks ys) : d.kernel.fed ys = (d.kernel, ks) := by
  have hs : s.Coherent := hd.setup ▸ hd.valid.setup
  have hf := hs.fits
  rw [hconv] at hf
  obtain ⟨hsound, hwait⟩ := TickClock.ofDecimation_pick hf.1 hf.2
  have hfeed := TickClock.feed_pick_blocks hsound hwait hb
  rw [hd.kernel, Kernel.fed, hfeed]

theorem Ready.transform (he : e.Ready s factor offset m)
    (hconv : s.conversion = .down factor .pick z) (hrate : s.rateIn ≤ 500000000)
    (hfit : Scale.nearest offset nanosPerSecond s.rateOut ≤ Scale.largest)
    (hp : RaisedPart factor s.rateOut offset m ks p) {slice : List α}
    (hslice : e.FitsNext ⟨piped p, slice⟩) :
    ∃ e' stamp, e.transform (piped p) slice = .ok (.ok ⟨e', ks, stamp⟩) ∧
      e'.Ready s factor offset (m + ks.length) ∧ stamp.offset = offset + m ∧
      stamp.offsetEnd = offset + m + ks.length ∧
      stamp.timestamp? = some (Grid.timeOfTick s.rateOut offset + Grid.timeOfTick s.rateOut m) := by
  obtain ⟨d, henter, hd, hanchored⟩ := he.exists_enter hconv hrate hfit hp
  have hf : s.conversion.Fits := (hd.setup ▸ hd.valid.setup : s.Coherent).fits
  rw [hconv] at hf
  have hfed : d.kernel.fed (piped p).samples = (d.kernel, ks) := hd.fed hconv hp.blocks
  have hyield : d.kernel.yield (piped p).header.len = ks.length := by
    have hlen := hd.valid.kernel.length_fed (piped p).samples
    rw [hfed, hp.filled.length] at hlen
    exact hlen.symm
  have hlen : d.kernel.outputLen (piped p).header.len =
      .ok (d.kernel.yield (piped p).header.len) := by
    rw [hd.kernel]
    rfl
  have hfeed : d.kernel.feed (piped p).samples = .ok (d.kernel.fed (piped p).samples) := by
    rw [hd.kernel]
    rfl
  have htrans := transform_of_fits he.picks.valid hp.filled hslice henter hlen hfeed
    (hd.takes hanchored hf.1 hp hyield)
  rw [hfed] at htrans
  refine ⟨_, _, htrans, ⟨⟨taken_valid hd.valid _, hd.setup, hd.staged, ?_⟩,
    .inr ⟨⟨hanchored.start, hanchored.origin, ?_⟩, congr_arg some hp.piped_end⟩⟩, ?_, ?_, ?_⟩
  · change (d.kernel.fed (piped p).samples).1 = _
    rw [hfed]
    exact hd.kernel
  · change d.segment.nextOut + d.kernel.yield (piped p).header.len = _
    rw [hyield, hanchored.nextOut, Nat.add_assoc]
  · exact hanchored.nextOut
  · change d.segment.nextOut + d.kernel.yield (piped p).header.len = _
    rw [hyield, hanchored.nextOut]
  · change d.segment.time? d.setup.rateOut d.segment.nextOut = _
    rw [Segment.time?, hanchored.start, Option.map_some, hanchored.nextOut, hanchored.origin,
      Nat.add_sub_cancel_left, hd.setup]

variable [Element α]

theorem Ready.run {parts : List (List α × Stamp)} {js : List (Job α)}
    (he : e.Ready s factor offset m) (hconv : s.conversion = .down factor .pick z)
    (hrate : s.rateIn ≤ 500000000)
    (hfit : Scale.nearest offset nanosPerSecond s.rateOut ≤ Scale.largest)
    (hparts : RaisedParts factor s.rateOut offset m ks parts)
    (hjs : js.map Job.buffer = parts.map piped) (hfits : e.Fits js) :
    ∃ e' outs, e.run (js.map .transform) = .ok (e', outs.map accepted) ∧
      outs.flatMap Prod.fst = ks ∧ Abut (offset + m) outs (offset + m + ks.length) ∧
      ∀ q ∈ outs.find? fun q => !q.1.isEmpty, q.2.timestamp? =
        some (Grid.timeOfTick s.rateOut offset + Grid.timeOfTick s.rateOut m) := by
  -- Between parts the converter is ready for the next sample that leads a block.
  induction hparts generalizing e js with
  | nil =>
    cases List.map_eq_nil_iff.mp hjs
    exact ⟨e, [], rfl, rfl, rfl, nofun⟩
  | @cons m ks ls p ps hp hps ih =>
    obtain ⟨⟨buffer, slice⟩, js, rfl, hbuffer, hrest⟩ := List.map_eq_cons_iff.mp hjs
    cases hbuffer
    obtain ⟨e₁, stamp, htrans, he₁, hbegins, hends, htime⟩ :=
      he.transform hconv hrate hfit hp hfits.1
    obtain ⟨e', outs, hrun, hout, habut, hfirst⟩ := ih he₁ hrest (hfits.2 _ htrans)
    refine ⟨e', (ks, stamp) :: outs, ?_, ?_, ⟨hbegins, hends, ?_⟩, fun q hq => ?_⟩
    · rw [List.map_cons, run_transform htrans, hrun]
      rfl
    · rw [List.flatMap_cons, hout]
    · have hsum : offset + m + (ks ++ ls).length = offset + (m + ks.length) + ls.length := by
        rw [List.length_append]
        omega
      rwa [hends, hsum, Nat.add_assoc offset m ks.length]
    · cases ks with
      | nil => exact hfirst q hq
      | cons k ks =>
        cases hq
        exact htime

/-- Raising a rate and picking is the identity. A stream whose rate is raised overflows exactly
when the end of its last block has no place on the finer grid. If it goes through, and its
parts are fed to a converter that lowers the rate again, then that one gives back the samples
of the stream, but for those that have led no block, at their own offsets and bit for bit. -/
theorem raised_then_picked {config config' : Config} {i : Interpolation}
    (h : config.UndoneBy config' factor i) (htype : config.type = Element.type α) :
    ∃ up down : Converter α ρ, ofConfig config = .ok up ∧ ofConfig config' = .ok down ∧
      ∀ {x : Nat → α} {o : Nat} {first : Job α} {rest : List (Job α)},
        Feeds config.rateIn.hz x o first rest → up.Fits (first :: rest) →
        let xs := (first :: rest).flatMap fun j => j.buffer.samples
        let n := xs.length - i.lead
        (¬Grid.Reaches factor config.rateIn.hz o n →
          up.run ((first :: rest).map .transform) = .error .overflow) ∧
        (Grid.Reaches factor config.rateIn.hz o n → ∃ d, ∃ parts : List (List α × Stamp),
          up.run ((first :: rest).map .transform) = .ok (d, parts.map accepted)) ∧
        ∀ d (parts : List (List α × Stamp)),
          up.run ((first :: rest).map .transform) = .ok (d, parts.map accepted) →
          ∀ js : List (Job α), js.map Job.buffer = parts.map piped → down.Fits js →
            ∃ e, ∃ outs : List (List α × Stamp),
              down.run (js.map .transform) = .ok (e, outs.map accepted) ∧
              outs.flatMap Prod.fst = xs.take n ∧ Abut o outs (o + n) ∧
              ∀ q ∈ outs.find? fun q => !q.1.isEmpty,
                q.2.timestamp? = some (Scale.round o nanosPerSecond config.rateIn.hz) := by
  let s : Setup := ⟨config, .up factor i⟩
  let s' : Setup := ⟨config', .down factor .pick config'.zeroLatency⟩
  have hs : s.Coherent := h.conversion
  have hs' : s'.Coherent := h.conversion'
  refine ⟨ofSetup s, ofSetup s', ofConfig_of_coherent hs htype,
    ofConfig_of_coherent hs' (h.type.trans htype), fun {x o first rest} hfeed hfits => ?_⟩
  intro xs n
  obtain ⟨hfirst, rfl, hstamp, hfit, hrest, -⟩ := hfeed
  have hf := h.factor_le
  have hword : first.buffer.header.offset * factor ≤ Scale.largest :=
    Scale.mul_le_largest config.rateIn.pos (h.rate ▸ h.rate_le) hfit
  have htime : s.OnTime first.buffer.header :=
    ⟨h.rateIn_lt.le.trans h.rate_le, hstamp, hfit,
      (Nat.le_mul_of_pos_right _ (by omega)).trans hword⟩
  obtain ⟨hover, hraise⟩ := raises hs rfl h.rate_le htime hfirst hrest hfits rfl
  refine ⟨hover, fun hreach => ?_, fun d parts hrun js hjs hfits' => ?_⟩
  · obtain ⟨d, parts, hrun, -⟩ := hraise hreach
    exact ⟨d, parts, hrun⟩
  · have hreach : Grid.Reaches factor s.rateIn first.buffer.header.offset n := by
      by_contra hnot
      cases hrun.symm.trans (hover hnot)
    obtain ⟨_, parts', hrun', hparts⟩ := hraise hreach
    obtain ⟨-, hreply⟩ := Prod.mk.inj (Except.ok.inj (hrun.symm.trans hrun'))
    cases List.map_injective_iff.mpr accepted_injective hreply
    have hout : s.rateIn = s'.rateOut := congr_arg Rate.hz h.rateOut.symm
    have hin : s'.rateIn ≤ 500000000 := (congr_arg Rate.hz h.rateIn).trans_le h.rate_le
    obtain ⟨e, outs, hpicked, hflat, habut, hfound⟩ :=
      (ready_ofSetup hs' rfl).run rfl hin (hout ▸ hfit) (hout ▸ hparts) hjs hfits'
    refine ⟨e, outs, hpicked, hflat, ?_, fun q hq => ?_⟩
    · rwa [List.length_take, Nat.min_eq_left (Nat.sub_le _ _)] at habut
    · rw [hfound q hq, Grid.timeOfTick_zero s'.rateOut_pos, Nat.add_zero, ← hout]
      rfl

def firstPiece : Job Float := timed 7 7000000000 0 (stretch Float.ofNat 7 1)

def laterPieces : List (Job Float) := [timed 8 0 0 [], timed 8 1 4 (stretch Float.ofNat 8 2)]

/-- Three samples of the stream of all numbers, in three pieces of which the second is empty. The
first output comes from the third piece, and it is marked, so that the segment of the second
converter is opened by the first part and again by the third. -/
theorem raised_then_picked_of_three_pieces :
    ∃ d e, ∃ parts outs : List (List Float × Stamp), ∃ js : List (Job Float),
      (ofSetup doubling).run ((firstPiece :: laterPieces).map .transform) =
        .ok (d, parts.map accepted) ∧
      js.map Job.buffer = parts.map piped ∧
      (ofSetup halvingRate).run (js.map .transform) = .ok (e, outs.map accepted) ∧
      outs.flatMap Prod.fst = stretch Float.ofNat 7 2 ∧ Abut 7 outs 9 ∧
      ∀ q ∈ outs.find? fun q => !q.1.isEmpty, q.2.timestamp? = some 7000000000 := by
  have hundo : doubling.config.UndoneBy halvingRate.config 2 .linear :=
    ⟨le_rfl, rfl, by decide, rfl, rfl, rfl, rfl, rfl, rfl, rfl⟩
  obtain ⟨up, down, hup, hdown, hall⟩ := raised_then_picked (α := Float) (ρ := Float) hundo rfl
  cases hup.symm.trans (show ofConfig doubling.config = .ok (ofSetup doubling) from rfl)
  cases hdown.symm.trans (show ofConfig halvingRate.config = .ok (ofSetup halvingRate) from rfl)
  have hfeed : Feeds 1 Float.ofNat 7 firstPiece laterPieces :=
    ⟨⟨rfl, rfl⟩, rfl, rfl, by decide,
      ⟨⟨rfl, rfl⟩, rfl, rfl, rfl, ⟨rfl, rfl⟩, rfl, rfl, rfl, trivial⟩,
      by simp [firstPiece, laterPieces, timed, stretch]⟩
  have hfits : (ofSetup doubling : Converter Float Float).Fits (firstPiece :: laterPieces) := by
    refine ⟨fun n hn => by cases hn; rfl, fun t ht => ?_⟩
    cases ht
    refine ⟨fun n hn => by cases hn; rfl, fun t ht => ?_⟩
    cases ht
    exact ⟨fun n hn => by cases hn; rfl, fun _ _ => trivial⟩
  obtain ⟨-, -, hpick⟩ := hall hfeed hfits
  obtain ⟨d, parts, js, hrun, hjs, hfits'⟩ : ∃ d, ∃ parts : List (List Float × Stamp),
      ∃ js : List (Job Float), (ofSetup doubling).run ((firstPiece :: laterPieces).map .transform) =
        .ok (d, parts.map accepted) ∧ js.map Job.buffer = parts.map piped ∧
      (ofSetup halvingRate : Converter Float Float).Fits js := by
    refine ⟨_, [(_, _), (_, _), (_, _)], [⟨piped (_, _), []⟩, ⟨piped (_, _), []⟩,
      ⟨piped (_, _), [0, 0]⟩], rfl, rfl, fun n hn => by cases hn; rfl, fun t ht => ?_⟩
    cases ht
    refine ⟨fun n hn => by cases hn; rfl, fun t ht => ?_⟩
    cases ht
    exact ⟨fun n hn => by cases hn; rfl, fun _ _ => trivial⟩
  obtain ⟨e, outs, hrun', hout, habut, htime⟩ := hpick d parts hrun js hjs hfits'
  exact ⟨d, e, parts, outs, js, hrun, hjs, hrun', hout, habut, htime⟩

def repeating : Setup where
  config :=
    { rateIn := .one, rateOut := .two, type := .f64 }
  conversion := .up 2 .hold

def lastSecond : Job Float := timed 18446744073 18446744073000000000 2 (stretch Float.ofNat 0 1)

/-- At the largest words nothing comes back. The time of the last whole second fits in a word, but
the sample there lasts beyond the words, and so the first converter overflows on it. -/
theorem raising_overflows_at_last_second :
    repeating.config.UndoneBy halvingRate.config 2 .hold ∧
      ofConfig repeating.config = .ok (ofSetup repeating : Converter Float Float) ∧
      Feeds 1 (fun _ => Float.ofNat 0) 18446744073 lastSecond [] ∧
      (ofSetup repeating : Converter Float Float).Fits [lastSecond] ∧
      (ofSetup repeating : Converter Float Float).run ([lastSecond].map .transform) =
        .error .overflow := by
  refine ⟨⟨le_rfl, rfl, by decide, rfl, rfl, rfl, rfl, rfl, rfl, rfl⟩, rfl,
    ⟨⟨rfl, rfl⟩, rfl, rfl, by decide, trivial, List.forall_mem_singleton.mpr rfl⟩, ?_, rfl⟩
  exact ⟨fun n hn => by cases hn; rfl, fun _ _ => trivial⟩

end Converter

end RateConversion
