import RateConversion.Proofs.Passage

/-! How a segment is opened. A buffer that is marked, has no time or does not start where
the last one ended is run in a state in which the staged settings are in effect, the
kernel has started over and the books are those of a new segment. -/

namespace RateConversion

namespace Setup

def opened (s : Setup) (h : Header) : Segment where
  start? := h.timestamp?.map (Grid.align s.rateIn s.rateOut s.conversion.direction)
  origin := Scale.ceil h.offset s.rateOut s.rateIn
  nextIn? := none
  nextOut := Scale.ceil h.offset s.rateOut s.rateIn + s.conversion.delay
  armed := true

theorem openSegment_eq_ok_iff {s : Setup} {h : Header} {g : Segment} :
    s.openSegment h = .ok g ↔ (s.opened h).nextOut < 0x10000000000000000 ∧ g = s.opened h := by
  simp only [openSegment, Checked.bind_eq_ok_iff, Checked.add_eq_ok_iff]
  constructor
  · rintro ⟨_, ⟨rfl, hlt⟩, hg⟩
    exact ⟨hlt, (Except.ok.inj hg).symm⟩
  · rintro ⟨hlt, rfl⟩
    exact ⟨_, ⟨rfl, hlt⟩, rfl⟩

end Setup

namespace Converter

variable {α ρ : Type} [Zero α] [Scalar ρ]

/-- A buffer with this header does not go on with the segment. -/
def Discontinuous (c : Converter α ρ) (h : Header) : Prop :=
  h.discont = true ∨ h.timestamp? = none ∨ c.segment.start? = none ∨
    c.segment.nextIn? ≠ some h.offset

theorem continues_eq_false_iff {c : Converter α ρ} {h : Header} :
    c.segment.continues h = false ↔ c.Discontinuous h := by
  simp only [Segment.continues, Discontinuous, Bool.and_eq_false_iff, Bool.not_eq_false',
    Option.isSome_eq_false_iff, Option.isNone_iff_eq_none, beq_eq_false_iff_ne, or_assoc]

variable {c d : Converter α ρ} {h : Header}

def opened (c : Converter α ρ) (h : Header) : Converter α ρ where
  setup := c.pending
  staged? := none
  kernel := c.adopt.kernel.reset (c.pending.leading h)
  table? := c.adopt.table?
  zeros := c.adopt.zeros
  segment := c.pending.opened h

theorem enter_of_discontinuous (hd : c.Discontinuous h) :
    c.enter h = .ok d ↔ (c.pending.opened h).nextOut < 0x10000000000000000 ∧ d = c.opened h := by
  simp only [enter, openSegment, opened]
  rw [continues_eq_false_iff.mpr hd, if_neg Bool.false_ne_true, adopt_setup, adopt_staged]
  simp only [Checked.bind_eq_ok_iff, Setup.openSegment_eq_ok_iff]
  constructor
  · rintro ⟨_, ⟨hlt, rfl⟩, hd⟩
    exact ⟨hlt, (Except.ok.inj hd).symm⟩
  · rintro ⟨hlt, rfl⟩
    exact ⟨_, ⟨hlt, rfl⟩, rfl⟩

theorem enter_of_continuous (hd : ¬c.Discontinuous h) : c.enter h = .ok c := by
  rw [← continues_eq_false_iff, Bool.not_eq_false] at hd
  exact if_pos hd

end Converter

end RateConversion
