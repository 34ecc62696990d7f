import RateConversion.Proofs.Calls

/-! Decimation by a symmetric filter is a convolution. Its value at a tick is the centre sample
by the first tap, to which the pair at each distance, by the tap for it, is added from the
centre outwards. It is given when the last sample of its window arrives, and where the window
lies over the ends of the calls does not change it. -/

namespace RateConversion

namespace Taps

variable {α ρ : Type}

def tap (t : Taps ρ) : Nat → ρ
  | 0 => t.center
  | m + 1 => t.sides.getD m t.center

variable [Add α] [Sample α ρ]

/-- The sum over the window that reaches from `c` to a distance, in the order in which its
terms are added. -/
def convolve (t : Taps ρ) (x : Nat → α) (c : Nat) : Nat → α
  | 0 => scale (x c) (t.tap 0)
  | m + 1 => t.convolve x c m + scale (x (c - (m + 1)) + x (c + (m + 1))) (t.tap (m + 1))

theorem addPairs_convolve (t : Taps ρ) (x : Nat → α) (c : Nat) {taps : List ρ} {m : Nat}
    (hm : m ≤ t.reach) (htaps : t.sides.drop m = taps) :
    addPairs x c (m + 1) taps (t.convolve x c m) = t.convolve x c t.reach := by
  induction taps generalizing m with
  | nil =>
    have hle : t.reach ≤ m := List.drop_eq_nil_iff.mp htaps
    rw [addPairs, Nat.le_antisymm hm hle]
  | cons tap taps ih =>
    have hlt : m < t.sides.length := by
      by_contra hge
      rw [List.drop_eq_nil_of_le (Nat.le_of_not_lt hge)] at htaps
      cases htaps
    rw [List.drop_eq_getElem_cons hlt] at htaps
    obtain ⟨hhead, htail⟩ := List.cons.inj htaps
    have htap : t.tap (m + 1) = tap := by
      rw [Taps.tap, List.getD_eq_getElem _ _ hlt, hhead]
    have hrest := ih hlt htail
    rw [convolve, htap] at hrest
    exact hrest

theorem apply_eq_convolve (t : Taps ρ) (x : Nat → α) (c : Nat) :
    t.apply x c = t.convolve x c t.reach :=
  t.addPairs_convolve x c (Nat.zero_le _) List.drop_zero

end Taps

variable {α ρ : Type} [Zero α] [Add α] [Sub α] [Add ρ] [Mul ρ] [Scalar ρ] [Sample α ρ]

/-- From a reset on, a filter delivers the convolution of all that it is given with its taps,
whichever way a window is read. -/
theorem Kernel.delivers_convolution {f : SincFilter α ρ} {leading : Nat}
    (hpos : 0 < f.clock.stride) (hstride : f.clock.stride < 2 ^ 62)
    (hwindow : f.taps.reach + leading + f.taps.reach < 2 ^ 63)
    (hring : f.history.capacity = 2 * f.taps.reach) {xss : List (List α)}
    (hparts : ∀ xs ∈ xss, xs.length < 2 ^ 62) :
    ((Kernel.sinc f).reset leading).Delivers xss
        (fun k => leading + 2 * f.taps.reach + k * f.clock.stride)
        (fun k => f.taps.convolve (xss.flatten.getD · 0)
          (leading + f.taps.reach + k * f.clock.stride) f.taps.reach) ∧
      ∀ (h : History α) (block : Array α) (newest : Nat), h.size + 2 * f.taps.reach ≤ newest →
        f.taps.output (block.getD · 0) block.size (newest - h.size) =
          f.taps.output (SincFilter.read h block) (h.size + block.size) newest := by
  obtain ⟨hsound, hwait⟩ := SincFilter.sound_reset hpos hstride hwindow hring
  have hgrid : (f.reset leading).clock.stride = f.clock.stride := rfl
  have htakes : ((Kernel.sinc f).reset leading).TakesAll xss := ⟨hsound, hparts⟩
  refine ⟨htakes.delivers ?_ ?_, fun h block newest hin => SincFilter.output_of_within _ h _ hin⟩
  · intro xs i
    change i < ((f.reset leading).outputs xs).length ↔ _
    rw [SincFilter.length_outputs, TickClock.lt_count_iff hsound.clock.stride_pos, hwait, hgrid]
    omega
  · intro i y hy
    change ((f.reset leading).outputs xss.flatten)[i]? = some y at hy
    rw [← stretch_getD xss.flatten 0] at hy
    have hvalue := Reference.sinc_eq hsound (History.toList_clear _) _ 0 _ i hy
    have hcenter : 0 + ((f.reset leading).clock.wait + i * (f.reset leading).clock.stride -
        (f.reset leading).taps.reach) = leading + f.taps.reach + i * f.clock.stride := by
      have hreach : (f.reset leading).taps.reach = f.taps.reach := rfl
      rw [hwait, hgrid, hreach]
      omega
    rw [hvalue, hcenter]
    exact f.taps.apply_eq_convolve _ _

def smoothing : SincFilter Float Float := .start ⟨0.5, [0.25]⟩ 2 0

theorem Kernel.delivers_convolution_over_call_end :
    ((Kernel.sinc smoothing).reset 1).Delivers [[1, 2, 3], [4, 5]] (fun k => 3 + k * 2)
      (fun k => smoothing.taps.convolve ([1, 2, 3, 4, 5].getD · 0) (2 + k * 2) 1) := by
  have hparts : ∀ xs ∈ ([[1, 2, 3], [4, 5]] : List (List Float)), xs.length < 2 ^ 62 := by
    intro xs hxs
    have hshort : xs.length ≤ 3 := by
      rcases List.mem_cons.mp hxs with rfl | hxs
      · exact le_rfl
      · rw [List.mem_singleton.mp hxs]
        decide
    omega
  exact (delivers_convolution (f := smoothing) (show 0 < 2 by decide) (show 2 < 2 ^ 62 by decide)
    (show 1 + 1 + 1 < 2 ^ 63 by decide) (History.capacity_blank 2) hparts).1

end RateConversion
