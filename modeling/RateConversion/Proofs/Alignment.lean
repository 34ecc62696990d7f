import RateConversion.Proofs.Chunking
import RateConversion.Proofs.Reference

/-! The output grid does not depend on where a stream is joined. A stream that is fed to a
new converter from some offset on, in whatever buffers, gives at each output offset the
sample that the stream has there. Two runs that join it at different offsets agree, but
for what the later one puts out before it has settled. -/

namespace RateConversion

/-- A stream from an offset on, in consecutive buffers. The first has the time of its
offset, which fits in a word. -/
structure Feeds {α : Type} (rateIn : Nat) (x : Nat → α) (a : Nat) (first : Job α)
    (rest : List (Job α)) : Prop where
  filled : first.buffer.Filled
  offset : first.buffer.header.offset = a
  time : first.buffer.header.timestamp? = some (Scale.round a nanosPerSecond rateIn)
  unsaturated : Scale.nearest a nanosPerSecond rateIn ≤ Scale.largest
  carries : Buffer.CarryOn (a + first.buffer.header.len) (rest.map Job.buffer)
  samples : ∀ j ∈ first :: rest,
    j.buffer.samples = stretch x j.buffer.header.offset j.buffer.header.len

def Emits {α : Type} (parts : List (List α × Stamp)) (o : Nat) (y : α) : Prop :=
  ∃ p ∈ parts, p.2.offset ≤ o ∧ o < p.2.offsetEnd ∧ p.1[o - p.2.offset]? = some y

theorem stretch_of_carryOn {α : Type} {x : Nat → α} {offset : Nat} {js : List (Job α)}
    (hjs : Buffer.CarryOn offset (js.map Job.buffer))
    (hx : ∀ j ∈ js, j.buffer.samples = stretch x j.buffer.header.offset j.buffer.header.len) :
    ∃ n, js.flatMap (fun j => j.buffer.samples) = stretch x offset n := by
  induction js generalizing offset with
  | nil => exact ⟨0, rfl⟩
  | cons j js ih =>
    obtain ⟨-, hoff, -, -, hrest⟩ := hjs
    obtain ⟨n, hn⟩ := ih hrest fun j' hj' => hx j' (List.mem_cons_of_mem j hj')
    refine ⟨j.buffer.header.len + n, ?_⟩
    rw [List.flatMap_cons, hn, hx j List.mem_cons_self, hoff, stretch_add]

theorem Feeds.exists_stretch {α : Type} {rateIn a : Nat} {x : Nat → α} {first : Job α}
    {rest : List (Job α)} (h : Feeds rateIn x a first rest) :
    ∃ n, first.buffer.samples ++ rest.flatMap (fun j => j.buffer.samples) = stretch x a n := by
  obtain ⟨n, hn⟩ := stretch_of_carryOn h.carries fun j hj => h.samples j (List.mem_cons_of_mem _ hj)
  refine ⟨first.buffer.header.len + n, ?_⟩
  rw [hn, h.samples first List.mem_cons_self, h.offset, stretch_add]

theorem Feeds.position_eq {α : Type} {rateIn a : Nat} {x : Nat → α} {first : Job α}
    {rest : List (Job α)} (h : Feeds rateIn x a first rest) (hpos : 0 < rateIn)
    (hrate : rateIn ≤ nanosPerSecond) (ha : a ≤ Scale.largest) :
    Grid.position rateIn first.buffer.header = a :=
  Grid.position_of_time h.time hpos hrate ha h.unsaturated

namespace Setup

/-- The output offset of a segment that is opened at an input offset, before the delay. -/
def firstTick (s : Setup) (a : Nat) : Nat := Scale.ceil a s.rateOut s.rateIn

theorem firstTick_mono (s : Setup) {a b : Nat} (h : a ≤ b) : s.firstTick a ≤ s.firstTick b :=
  Scale.ceil_mono _ _ h

theorem Coherent.begins {s : Setup} (hs : s.Coherent) {h : Header}
    (hp : Grid.position s.rateIn h = h.offset) (hfit : s.firstTick h.offset < Scale.largest) :
    s.conversion.Begins h.offset (s.leading h) (s.firstTick h.offset) := by
  rw [firstTick, Scale.ceil_eq_least_of_lt hfit]
  exact hs.begins_least hp

end Setup

namespace Converter

variable {α ρ : Type} [Zero α] [Scalar ρ]

theorem enter_ofSetup {s : Setup} {d : Converter α ρ} {h : Header}
    (he : (ofSetup s).enter h = .ok d) :
    d.setup = s ∧ d.kernel = (Kernel.ofConversion s.conversion : Kernel α ρ).reset (s.leading h) ∧
      d.segment.nextOut = s.firstTick h.offset + s.conversion.delay := by
  have hidle : (ofSetup s : Converter α ρ).Discontinuous h := .inr (.inr (.inl rfl))
  obtain ⟨-, rfl⟩ := (enter_of_discontinuous hidle).mp he
  rw [← ofSetup_kernel]
  exact ⟨rfl, rfl, rfl⟩

variable [Add α] [Sub α] [Add ρ] [Mul ρ] [Sample α ρ]
variable {c d e : Converter α ρ} {first : Job α} {rest : List (Job α)}
  {parts : List (List α × Stamp)}

theorem fed_of_head (hd : d.Valid Kernel.Serves) {b : Buffer α} (hb : b.Filled) (ht : d.Takes b)
    {slack : List α} (xs : List α) {o : Nat} {y : α} (hlow : d.segment.nextOut ≤ o)
    (hhigh : o < d.segment.nextOut + d.kernel.yield b.header.len)
    (hy : ((d.kernel.fed b.samples).2 ++ slack)[o - d.segment.nextOut]? = some y) :
    o < Scale.largest ∧ (d.kernel.fed (b.samples ++ xs)).2[o - d.segment.nextOut]? = some y := by
  have hlen := hd.kernel.length_fed b.samples
  have hout := ht.output
  rw [hb.length] at hlen
  have hin : o - d.segment.nextOut < (d.kernel.fed b.samples).2.length := by omega
  rw [List.getElem?_append_left hin] at hy
  refine ⟨by unfold Scale.largest; omega, ?_⟩
  rw [(hd.kernel.sound.fed_append _ _).2, List.getElem?_append_left hin, hy]

variable [Element α]

theorem run_accepted {j : Job α} {rs : List (Request (Job α))}
    (h : c.run (.transform j :: rs) = .ok (d, parts.map accepted)) :
    ∃ t parts', c.transform j.buffer j.slice = .ok (.ok t) ∧
      parts = (t.slice, t.stamp) :: parts' ∧ t.converter.run rs = .ok (d, parts'.map accepted) := by
  obtain ⟨p, hp, h⟩ := Checked.bind_eq_ok_iff.mp h
  obtain ⟨q, hq, h⟩ := Checked.bind_eq_ok_iff.mp h
  obtain ⟨r, hr, hp⟩ := Checked.bind_eq_ok_iff.mp hp
  have hpair : (q.1, p.2 :: q.2) = (d, parts.map accepted) := Except.ok.inj h
  obtain ⟨rfl, hreply⟩ := Prod.mk.inj hpair
  cases parts with
  | nil => cases hreply
  | cons part parts =>
    obtain ⟨slice, stamp⟩ := part
    obtain ⟨hhead, htail⟩ := List.cons.inj hreply
    cases r with
    | error r =>
      cases hp
      cases hhead
    | ok t =>
      cases hp
      cases hhead
      exact ⟨t, parts, hr, rfl, htail ▸ hq⟩

theorem fed_of_emits (hc : c.Valid Kernel.Serves) (he : c.enter first.buffer.header = .ok d)
    (hs : d.segment.start?.isSome) (hfirst : first.buffer.Filled)
    (hrest : Buffer.CarryOn (first.buffer.header.offset + first.buffer.header.len)
      (rest.map Job.buffer))
    (hrun : c.run ((first :: rest).map .transform) = .ok (e, parts.map accepted)) {o : Nat} {y : α}
    (hy : Emits parts o y) :
    d.segment.nextOut ≤ o ∧ o < Scale.largest ∧
      (d.kernel.fed (first.buffer.samples ++ rest.flatMap fun j => j.buffer.samples)).2[
        o - d.segment.nextOut]? = some y := by
  induction rest generalizing c d first parts with
  | nil =>
    obtain ⟨t, parts, ht, rfl, hthen⟩ := run_accepted hrun
    obtain ⟨d', he', htakes, -, rfl⟩ := eq_of_transform hc hfirst ht
    cases he.symm.trans he'
    cases parts with
    | cons p ps => cases hthen
    | nil =>
      obtain ⟨p, hp, hlow, hhigh, hy⟩ := hy
      cases List.mem_singleton.mp hp
      exact ⟨hlow, fed_of_head (hc.enter Kernel.serves_stable he) hfirst htakes _ hlow hhigh hy⟩
  | cons next rest ih =>
    obtain ⟨t, parts, ht, rfl, hthen⟩ := run_accepted hrun
    obtain ⟨d', he', htakes, -, rfl⟩ := eq_of_transform hc hfirst ht
    cases he.symm.trans he'
    have hd := hc.enter Kernel.serves_stable he
    obtain ⟨p, hp, hlow, hhigh, hy⟩ := hy
    -- The sample is in the slice of the first buffer or in one of those that follow.
    rcases List.mem_cons.mp hp with rfl | hp
    · exact ⟨hlow, fed_of_head hd hfirst htakes _ hlow hhigh hy⟩
    · obtain ⟨hnext, hoff, htime, hmark, hcarry⟩ := hrest
      obtain ⟨h1, h2, h3⟩ := ih (taken_valid hd first.buffer) (enter_taken hs hoff htime hmark) hs
        hnext (hoff ▸ hcarry) hthen ⟨p, hp, hlow, hhigh, hy⟩
      have hstart : (d.taken first.buffer).segment.nextOut =
          d.segment.nextOut + d.kernel.yield first.buffer.header.len := rfl
      have hlen := hd.kernel.length_fed first.buffer.samples
      rw [hfirst.length] at hlen
      rw [hstart] at h1 h3
      refine ⟨by omega, h2, ?_⟩
      rw [(hd.kernel.sound.fed_append _ _).2, List.getElem?_append_right (by omega), hlen,
        Nat.sub_sub, List.flatMap_cons]
      exact h3

theorem emits_sampleAt {s : Setup} (hs : s.Coherent) (hrate : s.rateIn ≤ nanosPerSecond)
    {x : Nat → α} {a : Nat} (hfeed : Feeds s.rateIn x a first rest)
    (hrun : (ofSetup s).run ((first :: rest).map .transform) = .ok (e, parts.map accepted))
    {o : Nat} {y : α} (hy : Emits parts o y)
    (hsettled : s.firstTick a + s.conversion.delay + Reference.settling s.conversion ≤ o) :
    y = Reference.sampleAt s.conversion x o := by
  have hc : (ofSetup s : Converter α ρ).Valid Kernel.Serves :=
    valid_ofSetup Kernel.serves_stable hs
  obtain ⟨t, parts, ht, rfl, -⟩ := run_accepted hrun
  obtain ⟨d, he, htakes, -, -⟩ := eq_of_transform hc hfeed.filled ht
  obtain ⟨-, hkernel, hnext⟩ := enter_ofSetup he
  have hstart := start_of_enter (by rw [hfeed.time]; rfl) he
  have hrest := hfeed.carries
  rw [← hfeed.offset] at hrest
  obtain ⟨hlow, hlt, hfed⟩ := fed_of_emits hc he hstart hfeed.filled hrest hrun hy
  obtain ⟨n, hn⟩ := hfeed.exists_stretch
  -- The first buffer ends within the words, so its offset does too.
  have ha : a ≤ Scale.largest := by
    have := htakes.input
    have := hfeed.offset
    simp only [Scale.largest]
    omega
  have hpos := hfeed.position_eq s.rateIn_pos hrate ha
  rw [← hfeed.offset] at hsettled hpos
  have hbegins := hs.begins hpos (by omega)
  rw [hn, hkernel, hnext, hfeed.offset] at hfed
  rw [hfeed.offset] at hbegins hsettled hnext
  have hy := (Kernel.serves_ofConversion (α := α) (ρ := ρ) hs.fits).fed_reset hs.fits
    (Setup.leading_admits hs.fits _) hbegins x n _ (by omega) hfed
  rw [hy]
  congr 1
  omega

/-- Output alignment does not depend on where a stream is joined. Of two runs of a new
converter, what the later one puts out once it has settled is what the earlier one puts
out at the same offsets. -/
theorem outputs_aligned {config : Config} (hc : ofConfig config = .ok c)
    (hrate : config.rateIn.hz ≤ 500000000) {x : Nat → α} {a b : Nat} (hab : a < b)
    {first' : Job α} {rest' : List (Job α)} {e' : Converter α ρ}
    {parts' : List (List α × Stamp)} (hfeed : Feeds config.rateIn.hz x a first rest)
    (hfeed' : Feeds config.rateIn.hz x b first' rest')
    (hrun : c.run ((first :: rest).map .transform) = .ok (e, parts.map accepted))
    (hrun' : c.run ((first' :: rest').map .transform) = .ok (e', parts'.map accepted))
    {o : Nat} {y y' : α} (hy : Emits parts o y) (hy' : Emits parts' o y')
    (hsettled : ∀ p ∈ parts'.head?, p.2.offset + Reference.settling c.setup.conversion ≤ o) :
    y = y' := by
  obtain ⟨s, rfl, hs, rfl⟩ := ofConfig_eq_ok hc
  have hns : s.rateIn ≤ nanosPerSecond := hrate.trans (by decide)
  have hv : (ofSetup s : Converter α ρ).Valid Kernel.Serves :=
    valid_ofSetup Kernel.serves_stable hs
  have hlate : s.firstTick b + s.conversion.delay + Reference.settling s.conversion ≤ o := by
    obtain ⟨t, ps, ht, rfl, -⟩ := run_accepted hrun'
    obtain ⟨d, he, -, -, rfl⟩ := eq_of_transform hv hfeed'.filled ht
    have hnext := (enter_ofSetup he).2.2
    have hhead := hsettled _ rfl
    rw [hfeed'.offset] at hnext
    exact hnext ▸ hhead
  have hmono := s.firstTick_mono hab.le
  rw [emits_sampleAt hs hns hfeed hrun hy (by omega), emits_sampleAt hs hns hfeed' hrun' hy' hlate]

def curving : Setup where
  config :=
    { rateIn := .one, rateOut := .two, type := .f64, quality := 2 }
  conversion := .up 2 .quadratic

/-- A stream of all numbers joined at 3, in two buffers, and at 4, in one. The first parabola
of the later run has a slope of its own, the second is that of the earlier run. -/
theorem outputs_aligned_from_three_and_four :
    ∃ d e parts parts' y,
      (ofSetup curving).run
          ([timed 3 3000000000 4 (stretch Float.ofNat 3 2),
            timed 5 0 4 (stretch Float.ofNat 5 2)].map .transform) =
        .ok (d, parts.map accepted) ∧
      (ofSetup curving).run ([timed 4 4000000000 4 (stretch Float.ofNat 4 3)].map .transform) =
        .ok (e, parts'.map accepted) ∧
      Emits parts 10 y ∧ Emits parts' 10 y := by
  have hc : ofConfig curving.config = .ok (ofSetup curving : Converter Float Float) := rfl
  have hfeed : Feeds 1 Float.ofNat 3 (timed 3 3000000000 4 (stretch Float.ofNat 3 2))
      [timed 5 0 4 (stretch Float.ofNat 5 2)] :=
    ⟨⟨rfl, rfl⟩, rfl, rfl, by decide, ⟨⟨rfl, rfl⟩, rfl, rfl, rfl, trivial⟩,
      by simp [timed, length_stretch]⟩
  have hfeed' : Feeds 1 Float.ofNat 4 (timed 4 4000000000 4 (stretch Float.ofNat 4 3)) [] :=
    ⟨⟨rfl, rfl⟩, rfl, rfl, by decide, trivial, by simp [timed, length_stretch]⟩
  obtain ⟨d, parts, y, hrun, hy⟩ : ∃ d parts y, (ofSetup curving).run
      ([timed 3 3000000000 4 (stretch Float.ofNat 3 2),
        timed 5 0 4 (stretch Float.ofNat 5 2)].map .transform) = .ok (d, parts.map accepted) ∧
      Emits parts 10 y :=
    ⟨_, [(_, _), (_, _)], _, rfl, _, .tail _ (.head _), by decide, by decide, rfl⟩
  obtain ⟨e, parts', y', hrun', hy', hsettled⟩ : ∃ e parts' y', (ofSetup curving).run
      ([timed 4 4000000000 4 (stretch Float.ofNat 4 3)].map .transform) =
        .ok (e, parts'.map accepted) ∧ Emits parts' 10 y' ∧
      ∀ p ∈ parts'.head?, p.2.offset + Reference.settling curving.conversion ≤ 10 :=
    ⟨_, [(_, _)], _, rfl, ⟨_, .head _, by decide, by decide, rfl⟩, fun p hp => by cases hp; decide⟩
  have hsame := outputs_aligned hc (by decide) (by decide) hfeed hfeed' hrun hrun' hy hy' hsettled
  exact ⟨d, e, parts, parts', y, hrun, hrun', hy, hsame ▸ hy'⟩

end Converter

end RateConversion
