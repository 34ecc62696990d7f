import Mathlib.Algebra.Order.Ring.Nat
import RateConversion.Session

/-! What is kept from one kernel to the next. A table at hand is used only where it is the one
that would be made, and the zeros at hand are brought up to what a block takes. So the kernel
that is built and what it makes of a gap are as if both were made each time. -/

namespace RateConversion

namespace SincTable

variable {ρ : Type} [Scalar ρ] {factor span : Nat}

theorem taps_of_fits {t : SincTable ρ} (h : t.fits factor span = true) :
    t.taps = .lowPass factor span := by
  simp only [fits, Bool.and_eq_true, beq_iff_eq] at h
  rw [t.made, h.1, h.2]

theorem taps_reuse (table? : Option (SincTable ρ)) (factor span : Nat) :
    (reuse table? factor span).taps = .lowPass factor span := by
  cases table? with
  | none => rfl
  | some t =>
    simp only [reuse]
    split
    · exact taps_of_fits ‹_›
    · rfl

end SincTable

namespace Zeros

variable {α : Type} [Zero α]

theorem length_upTo (z : Zeros α) (n : Nat) :
    (z.upTo n).samples.length = max z.samples.length n := by
  simp only [upTo, List.length_append, List.length_replicate]
  omega

theorem take_upTo (z : Zeros α) (n : Nat) : (z.upTo n).samples.take n = List.replicate n 0 := by
  have hlength : ((z.upTo n).samples.take n).length = n := by
    rw [List.length_take, length_upTo]
    omega
  have hzero : ∀ x ∈ (z.upTo n).samples.take n, x = 0 :=
    fun x hx => (z.upTo n).zero x (List.mem_of_mem_take hx)
  rw [List.eq_replicate_of_mem hzero, hlength]

theorem upTo_of_le {z : Zeros α} {n : Nat} (h : n ≤ z.samples.length) : z.upTo n = z := by
  obtain ⟨samples, _⟩ := z
  simp only [upTo, Nat.sub_eq_zero_of_le h, List.replicate_zero, List.append_nil]

theorem upTo_upTo {m n : Nat} (h : m ≤ n) (z : Zeros α) : (z.upTo n).upTo m = z.upTo n := by
  apply upTo_of_le
  rw [length_upTo]
  omega

end Zeros

namespace Kernel

variable {α ρ : Type} [Zero α]

section Build

variable [Scalar ρ]

def ofDecimation (factor : Nat) (d : Decimation) : Kernel α ρ :=
  match d, d.span? with
  | _, some span => .sinc (.start (.lowPass factor span) factor 0)
  | .tukey, none => .mean (.start factor 0)
  | d, none => .pick (.ofDecimation factor d 0)

def ofConversion : Conversion → Kernel α ρ
  | .copy => .copy
  | .up factor i => .spline (.start factor i)
  | .down factor d _ => ofDecimation factor d

/-- Whatever table is at hand, the same kernel is built. -/
theorem build_fst (table? : Option (SincTable ρ)) (conv : Conversion) :
    (build table? conv : Kernel α ρ × _).1 = ofConversion conv := by
  cases conv with
  | down factor d z =>
    cases d <;>
      simp only [build, buildDecimation, Decimation.span?, SincTable.taps_reuse, ofConversion,
        ofDecimation]
  | _ => rfl

end Build

section Restock

variable [Sample α ρ]

def restock (k : Kernel α ρ) (zeros : Zeros α) (n : Nat) : Zeros α :=
  if k.isSilent then zeros else zeros.upTo (min n blockLen)

theorem restock_upTo {m n : Nat} (h : min m blockLen ≤ n) (k : Kernel α ρ) (zeros : Zeros α) :
    k.restock (zeros.upTo n) m = zeros.upTo n := by
  simp only [restock]
  split
  · rfl
  · exact Zeros.upTo_upTo h zeros

end Restock

variable [Scalar ρ] [Add α] [Sub α] [Add ρ] [Mul ρ] [Sample α ρ]

/-- The same as `fillGap` with zeros that are made for each block. -/
def feedGap (k : Kernel α ρ) (n room : Nat) : Checked (Produced α ρ) :=
  if n = 0 then .ok ⟨k, [], 0⟩
  else if k.isSilent then do
    let k ← k.skip n
    .ok ⟨k, List.replicate room 0, 0⟩
  else do
    let block := min n blockLen
    let (k, ys) ← k.feed (List.replicate block 0)
    if room < ys.length then .error .outOfRange
    else
      let p ← feedGap k (n - block) (room - ys.length)
      .ok ⟨p.kernel, ys ++ p.output, if p.loud = 0 then loudLen ys else ys.length + p.loud⟩
  termination_by n
  decreasing_by simp only [blockLen]; omega

/-- Whatever zeros are at hand, the same comes of a gap. -/
theorem fillGap_eq (zeros : Zeros α) (k : Kernel α ρ) (n room : Nat) :
    k.fillGap zeros n room = (k.feedGap n room).map fun p => (p, k.restock zeros n) := by
  induction n using Nat.strong_induction_on generalizing zeros k room with
  | _ n ih =>
    rw [fillGap, feedGap]
    split_ifs with h0 hsilent
    · subst h0
      have hnone : k.restock zeros 0 = zeros := by
        simp only [restock, Nat.zero_min, Zeros.upTo_of_le (Nat.zero_le _), ite_self]
      rw [Except.map, hnone]
    · simp only [restock, if_pos hsilent]
      cases k.skip n <;> rfl
    · -- What the first block needs serves the blocks after it.
      have hlt : n - min n blockLen < n := by
        simp only [blockLen]
        omega
      have hrest (k' : Kernel α ρ) : k'.restock (zeros.upTo (min n blockLen))
          (n - min n blockLen) = k.restock zeros n := by
        rw [restock_upTo (by omega), restock, if_neg hsilent]
      dsimp only
      rw [Zeros.take_upTo]
      cases k.feed (List.replicate (min n blockLen) 0) with
      | error f => rfl
      | ok r =>
        simp only [Checked.ok_bind]
        split_ifs
        · rfl
        · rw [ih _ hlt]
          simp only [hrest]
          cases r.1.feedGap (n - min n blockLen) (room - r.2.length) <;> rfl

end Kernel

namespace Converter

variable {α ρ : Type} [Zero α] [Scalar ρ]

@[simp]
theorem rebuild_kernel (c : Converter α ρ) : c.rebuild.kernel = .ofConversion c.setup.conversion :=
  Kernel.build_fst _ _

@[simp]
theorem ofSetup_kernel (s : Setup) :
    (ofSetup s : Converter α ρ).kernel = .ofConversion s.conversion :=
  Kernel.build_fst _ _

theorem adopt_setup (c : Converter α ρ) : c.adopt.setup = c.pending := by
  simp only [adopt, pending]
  cases c.staged? with
  | none => rfl
  | some s => dsimp only; split <;> rfl

theorem adopt_staged (c : Converter α ρ) : c.adopt.staged? = none := by
  simp only [adopt]
  cases hs : c.staged? with
  | none => exact hs
  | some s => dsimp only; split <;> rfl

theorem adopt_segment (c : Converter α ρ) : c.adopt.segment = c.segment := by
  simp only [adopt]
  cases c.staged? with
  | none => rfl
  | some s => dsimp only; split <;> rfl

theorem adopt_kernel (c : Converter α ρ) :
    c.adopt.kernel = if c.pending.conversion = c.setup.conversion then c.kernel
      else .ofConversion c.pending.conversion := by
  obtain ⟨setup, staged?, kernel, table?, zeros, segment⟩ := c
  cases staged? with
  | none => exact (if_pos rfl).symm
  | some s =>
    change (if s.conversion = setup.conversion then _ else _ : Converter α ρ).kernel =
      if s.conversion = setup.conversion then kernel else .ofConversion s.conversion
    split_ifs
    · rfl
    · exact Kernel.build_fst _ _

end Converter

end RateConversion
