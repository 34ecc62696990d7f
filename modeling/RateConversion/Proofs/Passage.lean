import RateConversion.Proofs.Reuse

/-! The stages that a buffer goes through: the segment that it continues or opens, the
kernel, and the stamp. -/

namespace RateConversion

/-- A buffer that is not turned away for its own length. -/
def Buffer.Proper {α : Type} (b : Buffer α) : Prop :=
  b.header.gap = true ∨ b.samples.length = b.header.len

variable {α ρ : Type} [Zero α] [Add α] [Sub α] [Add ρ] [Mul ρ] [Scalar ρ] [Sample α ρ]

def Kernel.give (k : Kernel α ρ) (b : Buffer α) (room : Nat) : Checked (Produced α ρ) :=
  if b.header.gap then k.feedGap b.header.len room
  else do
    let r ← k.feed b.samples
    .ok ⟨r.1, r.2, room⟩

namespace Converter

def enter (c : Converter α ρ) (h : Header) : Checked (Converter α ρ) :=
  if c.segment.continues h then .ok c else c.openSegment h

def restocked (c : Converter α ρ) (b : Buffer α) : Zeros α :=
  if b.header.gap then c.kernel.restock c.zeros b.header.len else c.zeros

def proceed (c : Converter α ρ) (b : Buffer α) (expected : Nat) :
    Checked (Converter α ρ × List α × Stamp) := do
  let nextIn ← b.header.offsetEnd
  let len ← c.kernel.outputLen b.header.len
  Checked.require (len = expected) .miscount
  let p ← c.kernel.give b expected
  Checked.require (p.output.length = expected) .miscount
  let r ←
    { c.segment with nextIn? := some nextIn }.stamp c.setup.rateOut expected b.header.gap p.loud
  .ok ({ c with kernel := p.kernel, zeros := c.restocked b, segment := r.1 }, p.output, r.2)

theorem absorb_eq (c : Converter α ρ) (b : Buffer α) (expected : Nat) :
    c.absorb b expected = c.enter b.header >>= fun d => d.proceed b expected := by
  simp only [absorb, proceed, enter, restocked, Kernel.give, Kernel.fillGap_eq]
  cases c.segment.continues b.header <;> cases b.header.gap <;>
    simp only [Bool.false_eq_true, if_true, if_false, Checked.ok_bind, Checked.map_bind, bind_assoc]

variable {c : Converter α ρ} {b : Buffer α} {slice : List α}

theorem transform_of_predict (hb : b.Proper) {n : Nat}
    (hn : c.predict b.header = .ok n) (hfit : n ≤ slice.length) :
    c.transform b slice = c.absorb b n >>= fun r =>
      .ok (.ok ⟨r.1, r.2.1 ++ slice.drop n, r.2.2⟩) := by
  have hlen : ¬(b.header.gap = false ∧ b.samples.length ≠ b.header.len) := by
    rintro ⟨hg, hne⟩
    rcases hb with h | h
    · rw [hg] at h
      cases h
    · exact hne h
  simp only [transform]
  rw [if_neg hlen, hn, Checked.ok_bind, if_neg hfit.not_gt]

theorem exists_of_transform {t : Transformed α ρ}
    (ht : c.transform b slice = .ok (.ok t)) :
    b.Proper ∧ ∃ n d output, c.predict b.header = .ok n ∧ n ≤ slice.length ∧
      c.enter b.header = .ok d ∧ d.proceed b n = .ok (t.converter, output, t.stamp) ∧
      t.slice = output ++ slice.drop n := by
  simp only [transform] at ht
  split_ifs at ht with hlen
  · cases ht
  · obtain ⟨n, hn, ht⟩ := Checked.bind_eq_ok_iff.mp ht
    split_ifs at ht with hfit
    · cases ht
    · rw [absorb_eq] at ht
      obtain ⟨r, hr, ht⟩ := Checked.bind_eq_ok_iff.mp ht
      obtain ⟨d, hd, hr⟩ := Checked.bind_eq_ok_iff.mp hr
      cases ht
      refine ⟨?_, n, d, r.2.1, hn, Nat.le_of_not_lt hfit, hd, hr, rfl⟩
      cases hg : b.header.gap with
      | true => exact .inl hg
      | false => exact .inr (by_contra fun hne => hlen ⟨hg, hne⟩)

theorem exists_of_rejected {r : Rejected (Converter α ρ) (List α)}
    (ht : c.transform b slice = .ok (.error r)) : ∃ why, r = ⟨c, slice, why⟩ := by
  simp only [transform] at ht
  split_ifs at ht with hlen
  · cases ht
    exact ⟨_, rfl⟩
  · obtain ⟨n, -, ht⟩ := Checked.bind_eq_ok_iff.mp ht
    split_ifs at ht with hfit
    · cases ht
      exact ⟨_, rfl⟩
    · obtain ⟨_, -, ht⟩ := Checked.bind_eq_ok_iff.mp ht
      cases ht

theorem settings_of_proceed {d : Converter α ρ} {n : Nat}
    {r : Converter α ρ × List α × Stamp} (hr : d.proceed b n = .ok r) :
    r.1.setup = d.setup ∧ r.1.staged? = d.staged? := by
  obtain ⟨_, -, hr⟩ := Checked.bind_eq_ok_iff.mp hr
  obtain ⟨_, -, hr⟩ := Checked.bind_eq_ok_iff.mp hr
  obtain ⟨_, -, hr⟩ := Checked.bind_eq_ok_iff.mp hr
  obtain ⟨_, -, hr⟩ := Checked.bind_eq_ok_iff.mp hr
  obtain ⟨_, -, hr⟩ := Checked.bind_eq_ok_iff.mp hr
  obtain ⟨_, -, hr⟩ := Checked.bind_eq_ok_iff.mp hr
  cases hr
  exact ⟨rfl, rfl⟩

end Converter

end RateConversion
