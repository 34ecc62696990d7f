import RateConversion.Proofs.Acceptance
import RateConversion.Proofs.Bookkeeping
import RateConversion.Proofs.Overflow

/-! The length that is asked for a wanted number of samples. A kernel that has filled up gives
just as many: each sample that arrives completes a piece of its own, or a decimating clock has
let its first tick go by and waits for less than a stride. The books of the segment tell
both from the number of samples taken, whatever buffers and gaps they came in. -/

namespace RateConversion

namespace TickClock

variable {c : TickClock}

theorem wait_after_lt (h : c.Sound) {n : Nat} (hn : 0 < c.count n) :
    (c.after n).wait < c.stride := by
  have hlast := (lt_count_iff h.stride_pos n (c.count n - 1)).mp (by omega)
  have hwait := wait_after h n
  rw [Nat.sub_one_mul] at hlast
  have hle := Nat.le_mul_of_pos_left c.stride hn
  omega

theorem count_mul_of_wait_lt (h : 0 < c.stride) (hw : c.wait < c.stride) (k : Nat) :
    c.count (k * c.stride) = k := by
  apply le_antisymm
  · rw [count_le_iff h]
    omega
  · by_contra hlt
    have hle := (count_le_iff h (k * c.stride) (k - 1)).mp (by omega)
    rw [Nat.sub_one_mul] at hle
    have := Nat.le_mul_of_pos_left c.stride (show 0 < k by omega)
    omega

end TickClock

namespace Kernel

variable {α ρ : Type} [Scalar ρ] {k : Kernel α ρ}

theorem Serves.exists_clock {factor : Nat} {d : Decimation} {z : Bool}
    (h : Serves (.down factor d z) k) :
    ∃ c, k.clock? = some c ∧ ∀ n, k.yield n = c.count n := by
  cases h with
  | pick | mean | sinc => exact ⟨_, rfl, fun _ => rfl⟩

theorem Serves.exists_spline {factor : Nat} {i : Interpolation} (h : Serves (.up factor i) k) :
    ∃ u, k = .spline u ∧ u.factor = factor ∧ u.interpolation = i := by
  cases h with
  | spline => exact ⟨_, rfl, rfl, rfl⟩

theorem Serves.outputLen_eq_yield {conv : Conversion} (h : Serves conv k) {n : Nat}
    (hup : ∀ factor i, conv = .up factor i → n < 2 ^ 63 ∧ k.yield n < 2 ^ 64) :
    k.outputLen n = .ok (k.yield n) := by
  cases h with
  | @spline u hu =>
    obtain ⟨hn, hy⟩ := hup _ _ rfl
    have hlead := Upsampler.lead_le_two u.interpolation
    exact Upsampler.outputLenFrom_eq_ok_iff.mpr ⟨rfl, by omega, hy⟩
  | _ => rfl

theorem Serves.yield_of_knots {factor : Nat} {i : Interpolation} (h : Serves (.up factor i) k)
    (hk : ∀ u, k = .spline u → u.interpolation.lead ≤ u.knots.size) (n : Nat) :
    k.yield n = n * factor := by
  obtain ⟨u, rfl, rfl, rfl⟩ := h.exists_spline
  simp only [yield, Upsampler.completed]
  rw [Nat.min_eq_right (hk u rfl), Nat.add_sub_cancel]

theorem Took.lead_le {conv : Conversion} {leading n m : Nat} {k' : Kernel α ρ}
    (h : Took conv leading n k) (hk : ∀ u, k = .spline u → u.interpolation.lead ≤ u.knots.size)
    (h' : Took conv leading (n + m) k') (u : Upsampler α) (hu : k' = .spline u) :
    u.interpolation.lead ≤ u.knots.size := by
  have hsize := h'.knots u hu
  have hserves := h'.serves
  rw [hu] at hserves
  cases hserves
  obtain ⟨v, hv, -, hinterpolation⟩ := h.serves.exists_spline
  have hbefore := h.knots v hv
  have hlead := hk v hv
  rw [hinterpolation] at hlead
  omega

theorem Took.yield_of_total_pos {factor leading n : Nat} {d : Decimation} {z : Bool}
    (h : Took (.down factor d z) leading n k) (hf : (Conversion.down factor d z).Fits)
    (hl : leading < factor) (hpos : 0 < (Conversion.down factor d z).total leading n) (m : Nat) :
    k.yield (m * factor) = m := by
  obtain ⟨c, hc, hyield⟩ := h.serves.exists_clock
  obtain ⟨_, _, _, hconv, rfl⟩ := h.clock c hc
  cases hconv
  have hsound := TickClock.ofDecimation_sound hf.1 hf.2 d hl
  have hcount := TickClock.count_ofDecimation hf.1 hf.2 d hl n
  have hwait := TickClock.wait_after_lt hsound (by rw [hcount]; exact hpos)
  rw [hyield]
  exact TickClock.count_mul_of_wait_lt hf.1 hwait m

end Kernel

/-- Of a wanted number of samples, the part that whole pieces give. -/
def Conversion.whole (n : Nat) : Conversion → Nat
  | .up factor _ => n - n % factor
  | _ => n

theorem Conversion.whole_le (n : Nat) (conv : Conversion) : conv.whole n ≤ n := by
  cases conv with
  | up => exact Nat.sub_le _ _
  | _ => exact le_rfl

namespace Converter

variable {α ρ : Type} [Zero α] [Scalar ρ]

theorem exists_requiredLen {c : Converter α ρ} {n : Nat} (h : c.requiredLen n ≠ .error .overflow) :
    ∃ m, c.requiredLen n = .ok m := by
  simp only [requiredLen] at h ⊢
  cases hconv : c.setup.conversion with
  | down factor d z =>
    rw [hconv] at h
    obtain ⟨m, hm, -⟩ := (Checked.mul_unlessOverflow n factor).exists_ok h
    exact ⟨m, hm⟩
  | _ => exact ⟨_, rfl⟩

variable [Add α] [Sub α] [Add ρ] [Mul ρ] [Sample α ρ]

section Buffers

variable {c : Converter α ρ} {b : Buffer α} {slice : List α} {t : Transformed α ρ}

theorem segment_of_transform (hc : c.Valid Kernel.Serves) (ht : c.transform b slice = .ok (.ok t)) :
    ∃ d n, c.enter b.header = .ok d ∧ t.converter.segment.start? = d.segment.start? ∧
      t.converter.segment.origin = d.segment.origin ∧
      t.converter.segment.nextOut = d.segment.nextOut + n := by
  obtain ⟨-, n, d, output, -, -, he, hr, -⟩ := exists_of_transform ht
  obtain ⟨p, -, -, -, -, -, heq⟩ := exists_of_proceed (hc.enter Kernel.serves_stable he).ordered hr
  rw [(Prod.mk.inj heq).1]
  exact ⟨d, n, he, rfl, rfl, rfl⟩

theorem exists_transform_of_continuous (hc : c.Valid Kernel.Serves) (hb : b.Proper)
    (hd : ¬c.Discontinuous b.header) {n : Nat} (hn : c.predict b.header = .ok n)
    (hfit : n ≤ slice.length) (hflow : c.transform b slice ≠ .error .overflow) :
    ∃ t output, c.transform b slice = .ok (.ok t) ∧ output.length = n ∧
      t.slice = output ++ slice.drop n ∧ t.stamp.offsetEnd = t.stamp.offset + n := by
  have henter := enter_of_continuous hd
  rw [transform_of_predict hb hn hfit, absorb_eq, henter, Checked.ok_bind] at hflow ⊢
  have hlen := (predict_eq hc henter).symm.trans hn
  obtain ⟨r, hr, hout⟩ := (hc.proceed_unlessOverflow hb hlen).exists_ok fun he =>
    hflow (by rw [he]; rfl)
  refine ⟨⟨r.1, r.2.1 ++ slice.drop n, r.2.2⟩, r.2.1, by rw [hr]; rfl, hout, rfl, ?_⟩
  obtain ⟨p, -, -, -, -, -, rfl⟩ := exists_of_proceed hc.ordered hr
  rfl

end Buffers

variable [Element α]

/-- A reachable state in a segment with a time, whose kernel has filled up: the knots of the next
piece are there, or the segment has put out a sample. -/
structure Steady (c : Converter α ρ) : Prop where
  reachable : c.Reachable
  timed : c.segment.start?.isSome
  knots (u : Upsampler α) : c.kernel = .spline u → u.interpolation.lead ≤ u.knots.size
  heard : c.setup.conversion.direction = .downsampling →
    c.segment.origin + c.setup.conversion.delay < c.segment.nextOut

variable {c : Converter α ρ}

theorem Reachable.exists_underway (hc : c.Reachable) (ht : c.segment.start?.isSome) :
    ∃ c₀ b n ms, c₀.Reachable ∧ b.header.timestamp?.isSome ∧ Underway c₀ b c n ms := by
  -- By induction on the requests. A buffer opens a segment or goes on with one, and what else
  -- is asked leaves the start of the segment or clears it.
  induction hc with
  | made h =>
    obtain ⟨s, -, -, rfl⟩ := ofConfig_eq_ok h
    cases ht
  | @step c d r y hc h ih =>
    cases step_of_respond h with
    | kept => exact ih ht
    | quality | latency =>
      obtain ⟨c₀, b, n, ms, hc₀, htime, hu⟩ := ih ht
      exact ⟨c₀, b, n, ms, hc₀, htime, hu.asked (by trivial) h⟩
    | @transformed job t htrans =>
      by_cases hd : c.Discontinuous job.buffer.header
      · refine ⟨c, job.buffer, _, _, hc, ?_, .opened hd htrans⟩
        obtain ⟨e, n, he, hstart, -⟩ :=
          segment_of_transform (hc.valid Kernel.serves_stable) htrans
        obtain ⟨-, rfl⟩ := (enter_of_discontinuous hd).mp he
        simpa only [hstart, opened, Setup.opened, Option.isSome_map] using ht
      · have hstart : c.segment.start?.isSome := by
          simp only [Discontinuous, not_or] at hd
          exact Option.isSome_iff_ne_none.mpr hd.2.2.1
        obtain ⟨c₀, b, n, ms, hc₀, htime, hu⟩ := ih hstart
        exact ⟨c₀, b, _, _, hc₀, htime, hu.continued hd htrans⟩
    | configured => cases ht
    | reset => cases ht

theorem Reachable.exists_booked (hc : c.Reachable) (ht : c.segment.start?.isSome) :
    ∃ h start n ms, c.Booked c.setup h start n ms ∧ c.segment.nextIn?.isSome := by
  obtain ⟨c₀, b, n, ms, hc₀, htime, hu⟩ := hc.exists_underway ht
  obtain ⟨time, htime⟩ := Option.isSome_iff_exists.mp htime
  obtain ⟨hbooked, hnext, -⟩ := hu.booked (hc₀.valid Kernel.serves_stable) htime
  rw [← hbooked.setup] at hbooked
  exact ⟨_, _, n, ms, hbooked, by rw [hnext]; rfl⟩

namespace Steady

theorem valid (hc : c.Steady) : c.Valid Kernel.Serves := hc.reachable.valid Kernel.serves_stable

theorem yield_of_copy (hc : c.Steady) (hconv : c.setup.conversion = .copy) (n : Nat) :
    c.kernel.yield n = n := by
  have hserves := hc.valid.kernel
  rw [hconv] at hserves
  generalize c.kernel = k at hserves
  cases hserves
  rfl

theorem yield_of_up (hc : c.Steady) {factor : Nat} {i : Interpolation}
    (hconv : c.setup.conversion = .up factor i) (n : Nat) : c.kernel.yield n = n * factor := by
  have hserves := hc.valid.kernel
  rw [hconv] at hserves
  exact hserves.yield_of_knots hc.knots n

theorem yield_of_down (hc : c.Steady) {factor : Nat} {d : Decimation} {z : Bool}
    (hconv : c.setup.conversion = .down factor d z) (n : Nat) :
    c.kernel.yield (n * factor) = n := by
  obtain ⟨h, start, taken, ms, hbooked, -⟩ := hc.reachable.exists_booked hc.timed
  have hfits := hc.valid.setup.fits
  have hadmits := Setup.leading_admits hfits h
  have hheard := hc.heard (by rw [hconv]; rfl)
  -- The books count what the segment has put out, so the clock has let a tick go by.
  have hpos : 0 < c.setup.conversion.total (c.setup.leading h) taken := by
    have hnext := hbooked.nextOut
    rw [hbooked.origin] at hheard
    simp only [Setup.opened] at hheard hnext
    omega
  have hkernel := hbooked.kernel
  rw [hconv] at hfits hadmits hpos hkernel
  exact hkernel.yield_of_total_pos hfits hadmits hpos n

theorem yield_of_requiredLen (hc : c.Steady) {n m : Nat} (hm : c.requiredLen n = .ok m) :
    c.kernel.yield m = c.setup.conversion.whole n := by
  simp only [requiredLen] at hm
  cases hconv : c.setup.conversion with
  | copy =>
    rw [hconv] at hm
    cases hm
    exact hc.yield_of_copy hconv n
  | up factor i =>
    rw [hconv] at hm
    cases hm
    rw [hc.yield_of_up hconv, Conversion.whole, Nat.div_mul_self_eq_mod_sub_self]
  | down factor d z =>
    rw [hconv] at hm
    obtain ⟨rfl, -⟩ := Checked.mul_eq_ok_iff.mp hm
    exact hc.yield_of_down hconv n

theorem predict_of_requiredLen (hc : c.Steady) {n m : Nat} (hn : n < 2 ^ 64)
    (hm : c.requiredLen n = .ok m) {h : Header} (hd : ¬c.Discontinuous h) (hlen : h.len = m) :
    c.predict h = .ok (c.setup.conversion.whole n) := by
  have hyield := hc.yield_of_requiredLen hm
  rw [predict_eq hc.valid (enter_of_continuous hd), hlen, ← hyield]
  apply hc.valid.kernel.outputLen_eq_yield
  intro factor i hconv
  have htwo := hc.valid.setup.relates
  rw [hconv] at htwo
  simp only [requiredLen, hconv, Except.ok.injEq] at hm
  constructor
  · have hle := Nat.div_le_div_left htwo.1 Nat.zero_lt_two (a := n)
    omega
  · rw [hyield]
    exact (Conversion.whole_le n _).trans_lt hn

theorem requiredLen_of_predict (hc : c.Steady) {h : Header} (hd : ¬c.Discontinuous h)
    (hdir : c.setup.conversion.direction ≠ .downsampling) {n : Nat} (hn : c.predict h = .ok n) :
    c.requiredLen n = .ok h.len := by
  rw [predict_eq hc.valid (enter_of_continuous hd)] at hn
  have hyield := Kernel.eq_yield_of_outputLen hn
  simp only [requiredLen]
  cases hconv : c.setup.conversion with
  | copy =>
    rw [hc.yield_of_copy hconv] at hyield
    rw [hyield]
  | up factor i =>
    have hfits := hc.valid.setup.fits
    rw [hconv] at hfits
    rw [hc.yield_of_up hconv] at hyield
    rw [hyield]
    dsimp only
    rw [Nat.mul_div_cancel _ hfits.1]
  | down factor d z =>
    rw [hconv] at hdir
    exact absurd rfl hdir

theorem transform (hc : c.Steady) {b : Buffer α} (hd : ¬c.Discontinuous b.header)
    {slice : List α} {t : Transformed α ρ} (ht : c.transform b slice = .ok (.ok t)) :
    t.converter.Steady := by
  obtain ⟨d, k, he, hstart, horigin, hnext⟩ := segment_of_transform hc.valid ht
  cases (enter_of_continuous hd).symm.trans he
  have hsetup := (settings_of_continuous hd ht).1
  have hresponse : c.respond (.transform ⟨b, slice⟩) =
      .ok (t.converter, .transformed t.slice t.stamp) := by
    simp only [respond, ht]
    rfl
  refine ⟨hc.reachable.step hresponse, ?_, ?_, ?_⟩
  · rw [hstart]
    exact hc.timed
  · obtain ⟨h, start, taken, ms, hbooked, -⟩ := hc.reachable.exists_booked hc.timed
    obtain ⟨hb, n, d, output, -, -, he, hr, -⟩ := exists_of_transform ht
    cases (enter_of_continuous hd).symm.trans he
    exact hbooked.kernel.lead_le hc.knots (hbooked.proceed hc.valid.setup hb hr).1.kernel
  · intro hdir
    rw [hsetup] at hdir ⊢
    rw [horigin, hnext]
    have := hc.heard hdir
    omega

end Steady

/-- In a steady state the length that is asked for gives the wanted number of samples, or what
whole pieces give of it, and asking for what a length gives leads back to that length. The state
that a buffer leaves is steady again. -/
theorem required_inverts {c : Converter α ρ} (hc : c.Steady) :
    (∃ offset, ∀ h : Header, h.discont = false → h.timestamp?.isSome → h.offset = offset →
      ¬c.Discontinuous h) ∧
    (∀ n < 2 ^ 64, c.requiredLen n ≠ .error .overflow →
      ∃ m, c.requiredLen n = .ok m ∧
        ∀ b : Buffer α, b.Proper → ¬c.Discontinuous b.header → b.header.len = m →
          c.predict b.header = .ok (c.setup.conversion.whole n) ∧
          ∀ slice : List α, c.setup.conversion.whole n ≤ slice.length →
            c.transform b slice ≠ .error .overflow →
            ∃ t output, c.transform b slice = .ok (.ok t) ∧
              output.length = c.setup.conversion.whole n ∧
              t.slice = output ++ slice.drop (c.setup.conversion.whole n) ∧
              t.stamp.offsetEnd = t.stamp.offset + c.setup.conversion.whole n) ∧
    (c.setup.conversion.direction ≠ .downsampling →
      ∀ (h : Header) (n : Nat), ¬c.Discontinuous h → c.predict h = .ok n →
        c.requiredLen n = .ok h.len) ∧
    ∀ (b : Buffer α) (slice : List α) (t : Transformed α ρ), ¬c.Discontinuous b.header →
      c.transform b slice = .ok (.ok t) → t.converter.Steady := by
  refine ⟨?_, fun n hn hflow => ?_, fun hdir h n hd => hc.requiredLen_of_predict hd hdir,
    fun b slice t hd ht => hc.transform hd ht⟩
  · obtain ⟨_, _, _, _, -, hnext⟩ := hc.reachable.exists_booked hc.timed
    obtain ⟨offset, hnext⟩ := Option.isSome_iff_exists.mp hnext
    refine ⟨offset, fun h hmark htime hoffset => ?_⟩
    rw [← continues_eq_false_iff, Segment.continues, hmark, htime, hc.timed, hnext, hoffset]
    simp
  · obtain ⟨m, hm⟩ := exists_requiredLen hflow
    refine ⟨m, hm, fun b hb hd hlen => ?_⟩
    have hpredict := hc.predict_of_requiredLen hn hm hd hlen
    exact ⟨hpredict, fun slice hfit =>
      exists_transform_of_continuous hc.valid hb hd hpredict hfit⟩

/-- After three samples, of which the first was passed over, one sample asks for two, and a gap of
two gives it. -/
theorem required_inverts_of_picked :
    ∃ m t output, picked.requiredLen 1 = .ok m ∧ m = 2 ∧
      picked.transform twoMissing [0] = .ok (.ok t) ∧ output.length = 1 ∧
      t.slice = output ++ ([0] : List Float).drop 1 ∧ t.converter.Steady := by
  have hmade : (ofSetup picking : Converter Float Float).Reachable :=
    .made (show ofConfig picking.config = .ok (ofSetup picking) from rfl)
  obtain ⟨c, y, hy, hpicked⟩ : ∃ c y,
      (ofSetup picking).respond (.transform ⟨threeSamples, [0]⟩) = .ok (c, y) ∧ c = picked :=
    ⟨_, _, rfl, congr_arg (Converter.mk _ _ _ _ _) (by decide +kernel)⟩
  have hsteady : picked.Steady :=
    { reachable := hpicked ▸ hmade.step hy
      timed := rfl
      knots := fun u hu => (by cases hu)
      heard := fun _ => (by decide : 3 + 0 < 4) }
  have hgap : ∃ t, picked.transform twoMissing [0] = .ok (.ok t) := by
    have henter : picked.enter twoMissing.header = .ok picked := rfl
    rw [transform_of_predict (n := 1) (.inl rfl) rfl (by decide), absorb_eq, henter,
      Checked.ok_bind, proceed, picked_give]
    exact ⟨_, rfl⟩
  have hcontinues : ¬picked.Discontinuous twoMissing.header := by
    rw [← continues_eq_false_iff]
    decide
  obtain ⟨-, hrequired, -, hagain⟩ := required_inverts hsteady
  obtain ⟨m, hm, hgives⟩ := hrequired 1 (by decide) fun h => (by cases h)
  obtain rfl : 2 = m := Except.ok.inj hm
  obtain ⟨-, hgives⟩ := hgives twoMissing (.inl rfl) hcontinues rfl
  have hflow : picked.transform twoMissing [0] ≠ .error .overflow := by
    obtain ⟨t, ht⟩ := hgap
    rw [ht]
    exact fun h => (by cases h)
  obtain ⟨t, output, ht, hlen, hslice, -⟩ := hgives [0] (by decide) hflow
  exact ⟨2, t, output, rfl, rfl, ht, hlen, hslice, hagain _ _ _ hcontinues ht⟩

end Converter

end RateConversion
