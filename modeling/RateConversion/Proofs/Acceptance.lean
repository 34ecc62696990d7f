import RateConversion.Proofs.Reachability

/-! What becomes of a buffer of samples: it is run in the segment that it continues or
opens, it gives as many samples as were predicted, and it meets no fault exactly when
the ends of both sides and the time of the output end fit in a word. -/

namespace RateConversion

namespace Buffer

variable {α : Type}

structure Filled (b : Buffer α) : Prop where
  data : b.header.gap = false
  length : b.samples.length = b.header.len

theorem Filled.proper {b : Buffer α} (h : b.Filled) : b.Proper := .inr h.length

/-- No sequence in memory takes more than the largest signed word of bytes. -/
def Addressable [Element α] (b : Buffer α) : Prop :=
  b.samples.length * (Element.type α).unitSize < 0x8000000000000000

theorem Addressable.length_lt [Element α] {b : Buffer α} (h : b.Addressable) :
    b.samples.length < 2 ^ 62 := by
  simp only [Addressable] at h
  have : 4 ≤ (Element.type α).unitSize := by cases Element.type α <;> decide
  have := Nat.mul_le_mul_left b.samples.length this
  omega

end Buffer

namespace Converter

variable {α ρ : Type} [Zero α] [Scalar ρ]

structure Takes (d : Converter α ρ) (b : Buffer α) : Prop where
  input : b.header.offset + b.header.len < 0x10000000000000000
  output : d.segment.nextOut + d.kernel.yield b.header.len < 0x10000000000000000
  time : d.segment.Timed d.setup.rateOut (d.segment.nextOut + d.kernel.yield b.header.len)

def stampFor (d : Converter α ρ) (b : Buffer α) : Stamp :=
  d.segment.stampOf d.setup.rateOut (d.kernel.yield b.header.len) false
    (d.kernel.yield b.header.len)

theorem start_of_enter {c d : Converter α ρ} {h : Header}
    (ht : h.timestamp?.isSome) (he : c.enter h = .ok d) :
    d.segment.start?.isSome := by
  by_cases hd : c.Discontinuous h
  · obtain ⟨-, rfl⟩ := (enter_of_discontinuous hd).mp he
    simpa only [opened, Setup.opened, Option.isSome_map] using ht
  · cases (enter_of_continuous hd).symm.trans he
    simp only [Discontinuous, not_or] at hd
    exact Option.isSome_iff_ne_none.mpr hd.2.2.1

variable [Add α] [Sub α] [Add ρ] [Mul ρ] [Sample α ρ]

def taken (d : Converter α ρ) (b : Buffer α) : Converter α ρ :=
  { d with
    kernel := (d.kernel.fed b.samples).1
    segment := { d.segment with nextIn? := some (b.header.offset + b.header.len) }.emit
      (d.kernel.yield b.header.len) }

variable {c d : Converter α ρ} {b : Buffer α}

theorem predict_eq (hc : c.Valid Kernel.Serves) {h : Header} (he : c.enter h = .ok d) :
    c.predict h = d.kernel.outputLen h.len := by
  by_cases hd : c.Discontinuous h
  · obtain ⟨-, rfl⟩ := (enter_of_discontinuous hd).mp he
    have ha := hc.adopt Kernel.serves_stable
    have hlead (factor : Nat) : Grid.leading c.pending.rateIn factor h =
        Grid.leading c.setup.rateIn factor h := by rw [hc.pending.2.1]
    rw [predict, continues_eq_false_iff.mpr hd, if_neg Bool.false_ne_true]
    simp only [opened]
    rw [ha.kernel.outputLen_reset, adopt_setup]
    simp only [Conversion.opening, Setup.leading]
    cases c.pending.conversion with
    | down factor d z => simp only [hlead]
    | _ => rfl
  · cases (enter_of_continuous hd).symm.trans he
    rw [← continues_eq_false_iff, Bool.not_eq_false] at hd
    exact if_pos hd

theorem moved_of_filled (hb : b.Filled) :
    d.moved b (d.kernel.yield b.header.len) (d.kernel.fed b.samples).1 = d.taken b := by
  have hzeros : d.restocked b = d.zeros := by
    rw [restocked, hb.data, if_neg Bool.false_ne_true]
  rw [moved, hzeros, taken]

theorem eq_of_proceed (hd : d.Valid Kernel.Serves) (hb : b.Filled) {n : Nat}
    {r : Converter α ρ × List α × Stamp}
    (hr : d.proceed b n = .ok r) :
    d.Takes b ∧ n = d.kernel.yield b.header.len ∧
      r = (d.taken b, (d.kernel.fed b.samples).2, d.stampFor b) := by
  obtain ⟨p, hp, hlen, hlt, h1, h2, rfl⟩ := exists_of_proceed hd.ordered hr
  cases Kernel.eq_yield_of_outputLen hlen
  simp only [Kernel.give] at hp
  rw [hb.data, if_neg Bool.false_ne_true] at hp
  obtain ⟨f, hf, hp⟩ := Checked.bind_eq_ok_iff.mp hp
  cases hp
  have hlen := hb.length
  cases hd.kernel.sound.eq_of_feed (by omega) hf
  refine ⟨⟨hlt, h1, h2⟩, rfl, ?_⟩
  rw [moved_of_filled hb, hb.data]
  rfl

theorem proceed_of_feed (hd : d.Valid Kernel.Serves) (hb : b.Filled)
    (hlen : d.kernel.outputLen b.header.len = .ok (d.kernel.yield b.header.len))
    (hfeed : d.kernel.feed b.samples = .ok (d.kernel.fed b.samples)) (ht : d.Takes b) :
    d.proceed b (d.kernel.yield b.header.len) =
      .ok (d.taken b, (d.kernel.fed b.samples).2, d.stampFor b) := by
  have hfed := hd.kernel.length_fed b.samples
  rw [hb.length] at hfed
  have hgive : d.kernel.give b (d.kernel.yield b.header.len) =
      .ok ⟨(d.kernel.fed b.samples).1, (d.kernel.fed b.samples).2,
        d.kernel.yield b.header.len⟩ := by
    rw [Kernel.give, hb.data, if_neg Bool.false_ne_true, hfeed]
    rfl
  rw [proceed_of_give hd.ordered hlen hgive hfed ht.input ht.output ht.time,
    moved_of_filled hb, hb.data]
  rfl

theorem eq_of_transform (hc : c.Valid Kernel.Serves) (hb : b.Filled) {slice : List α}
    {t : Transformed α ρ} (ht : c.transform b slice = .ok (.ok t)) :
    ∃ d, c.enter b.header = .ok d ∧ d.Takes b ∧ d.kernel.yield b.header.len ≤ slice.length ∧
      t = ⟨d.taken b, (d.kernel.fed b.samples).2 ++ slice.drop (d.kernel.yield b.header.len),
        d.stampFor b⟩ := by
  obtain ⟨-, n, d, output, -, hfit, hd, hr, hslice⟩ := exists_of_transform ht
  obtain ⟨h1, rfl, he⟩ := eq_of_proceed (hc.enter Kernel.serves_stable hd) hb hr
  obtain ⟨hconverter, he⟩ := Prod.mk.inj he
  obtain ⟨rfl, hstamp⟩ := Prod.mk.inj he
  obtain ⟨converter, slice', stamp⟩ := t
  cases hconverter
  cases hstamp
  cases hslice
  exact ⟨d, hd, h1, hfit, rfl⟩

theorem transform_of_feed (hc : c.Valid Kernel.Serves) (hb : b.Filled) {slice : List α}
    (he : c.enter b.header = .ok d)
    (hlen : d.kernel.outputLen b.header.len = .ok (d.kernel.yield b.header.len))
    (hfeed : d.kernel.feed b.samples = .ok (d.kernel.fed b.samples)) (ht : d.Takes b)
    (hslice : d.kernel.yield b.header.len ≤ slice.length) :
    c.transform b slice = .ok (.ok ⟨d.taken b,
      (d.kernel.fed b.samples).2 ++ slice.drop (d.kernel.yield b.header.len), d.stampFor b⟩) := by
  rw [transform_of_predict hb.proper ((predict_eq hc he).trans hlen) hslice, absorb_eq, he,
    Checked.ok_bind, proceed_of_feed (hc.enter Kernel.serves_stable he) hb hlen hfeed ht]
  rfl

theorem transform_eq_ok_iff (hc : c.Valid Kernel.Serves) (hb : b.Filled)
    (hn : b.header.len < 2 ^ 62) {slice : List α} {t : Transformed α ρ} :
    c.transform b slice = .ok (.ok t) ↔
      ∃ d, c.enter b.header = .ok d ∧ d.Takes b ∧ d.kernel.yield b.header.len ≤ slice.length ∧
        t = ⟨d.taken b, (d.kernel.fed b.samples).2 ++ slice.drop (d.kernel.yield b.header.len),
          d.stampFor b⟩ := by
  refine ⟨eq_of_transform hc hb, ?_⟩
  rintro ⟨d, hd, ht, hslice, rfl⟩
  have hlen := Kernel.outputLen_eq_ok (k := d.kernel) hn
    (Nat.lt_of_le_of_lt (Nat.le_add_left _ _) ht.output)
  have hfeed : d.kernel.feed b.samples = .ok (d.kernel.fed b.samples) :=
    (hc.enter Kernel.serves_stable hd).kernel.sound.feed_eq_ok (by rw [hb.length]; exact hn)
  exact transform_of_feed hc hb hd hlen hfeed ht hslice

theorem exists_enter_of_transform {slice : List α} {t : Transformed α ρ}
    (ht : c.transform b slice = .ok (.ok t)) :
    ∃ d, c.enter b.header = .ok d ∧ t.converter.setup = d.setup := by
  obtain ⟨-, n, d, output, -, -, hd, hr, -⟩ := exists_of_transform ht
  exact ⟨d, hd, (settings_of_proceed hr).1⟩

end Converter

end RateConversion
