import RateConversion.Proofs.Reference

/-! A kernel over the calls of a segment. Each call takes the next part of the input, of any
length. However the input is parted, an output comes in the call in which the sample that it
waits for arrives, and the outputs are those of the whole input. -/

namespace RateConversion.Kernel

variable {α ρ : Type}

/-- Only a filter counts in words, which bounds the parts that it can take. -/
def TakesAll (xss : List (List α)) : Kernel α ρ → Prop
  | .sinc f => f.Sound ∧ ∀ xs ∈ xss, xs.length < 2 ^ 62
  | _ => True

theorem TakesAll.sound {k : Kernel α ρ} {xss : List (List α)} (h : k.TakesAll xss) :
    k.Sound := by
  cases k with
  | sinc f => exact h.1
  | _ => trivial

variable [Zero α] [Add α] [Sub α] [Add ρ] [Mul ρ] [Scalar ρ] [Sample α ρ]

def feedAll : Kernel α ρ → List (List α) → Checked (Kernel α ρ × List (List α))
  | k, [] => .ok (k, [])
  | k, xs :: xss => do
    let r ← k.feed xs
    let rest ← r.1.feedAll xss
    .ok (rest.1, r.2 :: rest.2)

/-- No call with one of the parts `xss` meets a fault. Output number `i` is given in the call
in which input number `due i` arrives, and it is `value i`. -/
def Delivers (k : Kernel α ρ) (xss : List (List α)) (due : Nat → Nat) (value : Nat → α) : Prop :=
  ∃ l yss, k.feedAll xss = .ok (l, yss) ∧ yss.length = xss.length ∧
    (∀ j i, i < (yss.take j).flatten.length ↔ due i < (xss.take j).flatten.length) ∧
    ∀ i y, yss.flatten[i]? = some y → y = value i

variable {k : Kernel α ρ} {xs : List α} {xss : List (List α)}

theorem TakesAll.feed_eq_ok (h : k.TakesAll (xs :: xss)) : k.feed xs = .ok (k.fed xs) := by
  cases k with
  | sinc f =>
    apply h.sound.feed_eq_ok
    exact h.2 xs List.mem_cons_self
  | _ => rfl

theorem TakesAll.fed (h : k.TakesAll (xs :: xss)) : (k.fed xs).1.TakesAll xss := by
  cases k with
  | sinc f =>
    refine ⟨SincFilter.after_sound h.1 xs, ?_⟩
    intro ys hys
    exact h.2 ys (List.mem_cons_of_mem xs hys)
  | _ => trivial

theorem output_fed_nil (k : Kernel α ρ) : (k.fed []).2 = [] := by
  cases k <;> rfl

theorem TakesAll.feedAll (h : k.TakesAll xss) :
    ∃ l yss, k.feedAll xss = .ok (l, yss) ∧ yss.length = xss.length ∧
      ∀ j, (yss.take j).flatten = (k.fed (xss.take j).flatten).2 := by
  induction xss generalizing k with
  | nil =>
    refine ⟨k, [], rfl, rfl, ?_⟩
    intro j
    rw [List.take_nil]
    exact (output_fed_nil k).symm
  | cons xs xss ih =>
    obtain ⟨l, yss, hrest, hlen, hout⟩ := ih h.fed
    refine ⟨l, (k.fed xs).2 :: yss, ?_, congr_arg (· + 1) hlen, ?_⟩
    · rw [Kernel.feedAll, h.feed_eq_ok, Checked.ok_bind, hrest]
      rfl
    · intro j
      cases j with
      | zero => exact (output_fed_nil k).symm
      | succ j =>
        rw [List.take_succ_cons, List.take_succ_cons, List.flatten_cons, List.flatten_cons,
          (h.sound.fed_append _ _).2, hout]

theorem TakesAll.delivers (h : k.TakesAll xss) {due : Nat → Nat} {value : Nat → α}
    (hdue : ∀ xs i, i < (k.fed xs).2.length ↔ due i < xs.length)
    (hvalue : ∀ i y, (k.fed xss.flatten).2[i]? = some y → y = value i) :
    k.Delivers xss due value := by
  obtain ⟨l, yss, hrun, hlen, hout⟩ := h.feedAll
  refine ⟨l, yss, hrun, hlen, ?_, ?_⟩
  · intro j i
    rw [hout]
    exact hdue _ i
  · intro i y hy
    have hall := hout xss.length
    rw [List.take_of_length_le hlen.le, List.take_length] at hall
    rw [hall] at hy
    exact hvalue i y hy

end RateConversion.Kernel
