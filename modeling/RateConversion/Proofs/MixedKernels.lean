import RateConversion.Proofs.ExactArithmetic
import RateConversion.Proofs.GapImages

/-! Sums of samples through a kernel, where arithmetic is exact. Two streams of samples are
one stream of pairs, and the sum of one sample taken `a` times and of another taken `b` times is
a map of pairs that keeps the arithmetic, as are the two parts. So three kernels, of which the
third takes the sums of what the other two take, hold the images of one kernel of pairs. The
kernel of pairs need not be run through a gap: a gap leaves in each of the three what its zeros
would, whichever of them are silent. -/

namespace RateConversion

namespace Checked

variable {α β γ δ ε ζ κ : Type} {granted : Prop} {x : Checked α} {y : Checked β} {z : Checked γ}
  {R : α → β → γ → Prop}

theorem Both.jointly {w : Checked κ} {P : κ → α → Prop} {Q : κ → β → Prop} {S : κ → γ → Prop}
    (hx : Both P w x) (hy : Both Q w y) (hz : Both S w z)
    (hR : ∀ d a b c, P d a → Q d b → S d c → R a b c) : Jointly granted R x y z := by
  cases hx with
  | ok hp =>
    cases hy with
    | ok hq =>
      cases hz with
      | ok hs => exact .ok (hR _ _ _ _ hp hq hs)
  | fault f =>
    cases hy with
    | fault =>
      cases hz with
      | fault => exact .fault f

theorem Jointly.mono {S : α → β → γ → Prop} (h : Jointly granted R x y z)
    (hS : ∀ a b c, x = .ok a → y = .ok b → z = .ok c → R a b c → S a b c) :
    Jointly granted S x y z := by
  cases h with
  | ok h => exact .ok (hS _ _ _ rfl rfl rfl h)
  | fault f => exact .fault f
  | overflow h hflow => exact .overflow h hflow

theorem Jointly.bind_same {w : Checked κ} {f : κ → Checked δ} {g : κ → Checked ε}
    {k : κ → Checked ζ} {S : δ → ε → ζ → Prop}
    (h : ∀ a, w = .ok a → Jointly granted S (f a) (g a) (k a)) :
    Jointly granted S (w >>= f) (w >>= g) (w >>= k) := by
  cases w with
  | ok a => exact h a rfl
  | error e => exact .fault e

end Checked

instance {α ρ : Type} [Sample α ρ] : Sample (α × α) ρ where
  isZero p := isZero p.1 && isZero p.2
  scale p t := (scale p.1 t, scale p.2 t)
  divide p w := (divide p.1 w, divide p.2 w)

section Pairs

variable {α ρ : Type} [Zero α] [Add α] [Sub α] [Sample α ρ]

theorem linear_fst : Linear (Prod.fst : α × α → α) :=
  ⟨rfl, fun _ _ => rfl, fun _ _ => rfl, fun _ _ => rfl, fun _ _ => rfl⟩

theorem linear_snd : Linear (Prod.snd : α × α → α) :=
  ⟨rfl, fun _ _ => rfl, fun _ _ => rfl, fun _ _ => rfl, fun _ _ => rfl⟩

variable {β : Type} [Zero β] [Add β] [Sub β] [Sample β ρ] [Scalar ρ] [Add ρ] [Mul ρ]

theorem Kernel.Alike.feed_image {f : β → α} (hf : Linear f) {w : Kernel β ρ} {k : Kernel α ρ}
    (h : (w.map f).Alike k) (ws : List β) :
    Checked.Both (fun p q => (p.1.map f).Alike q.1 ∧ q.2 = p.2.map f) (w.feed ws)
      (k.feed (ws.map f)) := by
  have hfeed := h.feed (ws.map f)
  rw [feed_map hf] at hfeed
  exact hfeed.of_map.mono fun p q hpq => ⟨hpq.1, hpq.2.symm⟩

end Pairs

variable {α ρ : Type} [Field ρ] [AddCommGroup α] [Module ρ α] {a b : ρ}

def mix (a b : ρ) (p : α × α) : α := a • p.1 + b • p.2

theorem linear_mix [Scalar ρ] [Sample α ρ] (e : Exact α ρ) (a b : ρ) :
    Linear (mix a b : α × α → α) where
  zero := by rw [mix, Prod.fst_zero, Prod.snd_zero, smul_zero, smul_zero, add_zero]
  add p q := by
    simp only [mix, Prod.fst_add, Prod.snd_add, smul_add]
    exact add_add_add_comm _ _ _ _
  sub p q := by
    simp only [mix, Prod.fst_sub, Prod.snd_sub, smul_sub]
    exact sub_add_sub_comm _ _ _ _
  scaled p t := by
    change mix a b (scale p.1 t, scale p.2 t) = _
    simp only [mix, e.scale_eq, smul_add, smul_comm t]
  divided p w := by
    change mix a b (divide p.1 w, divide p.2 w) = _
    simp only [mix, e.divide_eq, smul_add, smul_comm w⁻¹]

/-- Two lists of one length, and the list of the sums of their samples, taken `a` and `b`
times. -/
def Mixed (a b : ρ) (xs ys zs : List α) : Prop :=
  ys.length = xs.length ∧ zs = List.zipWith (fun x y => a • x + b • y) xs ys

theorem mixed_pairs (a b : ρ) (ws : List (α × α)) :
    Mixed a b (ws.map Prod.fst) (ws.map Prod.snd) (ws.map (mix a b)) := by
  refine ⟨by rw [List.length_map, List.length_map], ?_⟩
  rw [List.zipWith_map, List.zipWith_self]
  rfl

namespace Mixed

variable {xs ys zs : List α}

theorem exists_pairs (h : Mixed a b xs ys zs) :
    ∃ ws : List (α × α), ws.map Prod.fst = xs ∧ ws.map Prod.snd = ys ∧ ws.map (mix a b) = zs := by
  obtain ⟨hlen, rfl⟩ := h
  refine ⟨xs.zip ys, List.map_fst_zip hlen.ge, List.map_snd_zip hlen.le, ?_⟩
  rw [List.zip, List.map_zipWith]
  rfl

theorem length (h : Mixed a b xs ys zs) : ys.length = xs.length ∧ zs.length = xs.length := by
  obtain ⟨ws, rfl, rfl, rfl⟩ := h.exists_pairs
  simp only [List.length_map, and_self]

end Mixed

namespace Kernel

/-- Three kernels that hold the parts and the sums of what a kernel of pairs holds. -/
def Mixed (a b : ρ) (k l m : Kernel α ρ) : Prop :=
  ∃ w : Kernel (α × α) ρ,
    (w.map Prod.fst).Alike k ∧ (w.map Prod.snd).Alike l ∧ (w.map (mix a b)).Alike m

variable {k l m : Kernel α ρ}

theorem Mixed.outputLen (h : k.Mixed a b l m) (n : Nat) :
    l.outputLen n = k.outputLen n ∧ m.outputLen n = k.outputLen n := by
  obtain ⟨w, hk, hl, hm⟩ := h
  rw [← hk.outputLen, ← hl.outputLen, ← hm.outputLen, outputLen_map, outputLen_map, outputLen_map]
  exact ⟨rfl, rfl⟩

theorem Mixed.alike {k' l' m' : Kernel α ρ} (h : k.Mixed a b l m) (hk : k.Alike k')
    (hl : l.Alike l') (hm : m.Alike m') : k'.Mixed a b l' m' := by
  obtain ⟨w, h₁, h₂, h₃⟩ := h
  exact ⟨w, h₁.trans hk, h₂.trans hl, h₃.trans hm⟩

variable [Scalar ρ] [Sample α ρ]

theorem mixed_ofConversion (e : Exact α ρ) (a b : ρ) (conv : Conversion) :
    (ofConversion conv : Kernel α ρ).Mixed a b (ofConversion conv) (ofConversion conv) := by
  refine ⟨ofConversion conv, ?_, ?_, ?_⟩
  · rw [map_ofConversion linear_fst]
    exact .same _
  · rw [map_ofConversion linear_snd]
    exact .same _
  · rw [map_ofConversion (linear_mix e a b)]
    exact .same _

namespace Mixed

theorem reset (e : Exact α ρ) (h : k.Mixed a b l m) (leading : Nat) :
    (k.reset leading).Mixed a b (l.reset leading) (m.reset leading) := by
  obtain ⟨w, hk, hl, hm⟩ := h
  refine ⟨w.reset leading, ?_, ?_, ?_⟩
  · rw [← reset_map linear_fst]
    exact hk.reset leading
  · rw [← reset_map linear_snd]
    exact hl.reset leading
  · rw [← reset_map (linear_mix e a b)]
    exact hm.reset leading

theorem fed_zeros (e : Exact α ρ) (h : k.Mixed a b l m) (n : Nat) :
    (k.fed (List.replicate n 0)).1.Mixed a b (l.fed (List.replicate n 0)).1
        (m.fed (List.replicate n 0)).1 ∧
      RateConversion.Mixed a b (k.fed (List.replicate n 0)).2 (l.fed (List.replicate n 0)).2
        (m.fed (List.replicate n 0)).2 := by
  obtain ⟨w, hk, hl, hm⟩ := h
  obtain ⟨hk, hout₁⟩ := hk.fed_zeros linear_fst n
  obtain ⟨hl, hout₂⟩ := hl.fed_zeros linear_snd n
  obtain ⟨hm, hout₃⟩ := hm.fed_zeros (linear_mix e a b) n
  refine ⟨⟨_, hk, hl, hm⟩, ?_⟩
  rw [hout₁, hout₂, hout₃]
  exact mixed_pairs a b _

theorem feed_jointly (e : Exact α ρ) (h : k.Mixed a b l m) {xs ys zs : List α}
    (hs : RateConversion.Mixed a b xs ys zs) (granted : Prop) :
    Checked.Jointly granted
      (fun p q r => p.1.Mixed a b q.1 r.1 ∧ RateConversion.Mixed a b p.2 q.2 r.2)
      (k.feed xs) (l.feed ys) (m.feed zs) := by
  obtain ⟨w, hk, hl, hm⟩ := h
  obtain ⟨ws, rfl, rfl, rfl⟩ := hs.exists_pairs
  refine (hk.feed_image linear_fst ws).jointly (hl.feed_image linear_snd ws)
    (hm.feed_image (linear_mix e a b) ws) fun d p q r hp hq hr => ?_
  refine ⟨⟨d.1, hp.1, hq.1, hr.1⟩, ?_⟩
  rw [hp.2, hq.2, hr.2]
  exact mixed_pairs a b d.2

variable {conv : Conversion}

theorem yield_eq (e : Exact α ρ) (h : k.Mixed a b l m) (hk : Serves conv k) (hl : Serves conv l)
    (hm : Serves conv m) (n : Nat) : l.yield n = k.yield n ∧ m.yield n = k.yield n := by
  obtain ⟨hlen₁, hlen₂⟩ := (h.fed_zeros e n).2.length
  rw [hk.length_fed, hl.length_fed, List.length_replicate] at hlen₁
  rw [hk.length_fed, hm.length_fed, List.length_replicate] at hlen₂
  exact ⟨hlen₁, hlen₂⟩

theorem feedGap_jointly (e : Exact α ρ) (hz : InertZeros α ρ) (h : k.Mixed a b l m)
    (hk : Poised conv k) (hl : Poised conv l) (hm : Poised conv m) (hx : conv.Exact ρ)
    {n : Nat} (hn : n < 2 ^ 64) :
    Checked.Jointly (2 ^ 62 ≤ n)
      (fun p q r => p.kernel.Mixed a b q.kernel r.kernel ∧
        RateConversion.Mixed a b p.output q.output r.output)
      (k.feedGap n (k.yield n)) (l.feedGap n (k.yield n)) (m.feedGap n (k.yield n)) := by
  obtain ⟨hkernel, hout⟩ := h.fed_zeros e n
  obtain ⟨hyield₁, hyield₂⟩ := h.yield_eq e hk.serves hl.serves hm.serves n
  have hkl := hk.serves.feedGap_within hl.serves hyield₁ hn (R := fun _ _ => True)
    fun _ _ _ _ => trivial
  have hkm := hk.serves.feedGap_within hm.serves hyield₂ hn (R := fun _ _ => True)
    fun _ _ _ _ => trivial
  refine hkl.jointly hkm fun p q r hp hq hr _ _ => ?_
  rw [← hyield₁] at hq
  rw [← hyield₂] at hr
  obtain ⟨hp, hout₁⟩ := hk.eq_of_feedGap hz hx hn hp
  obtain ⟨hq, hout₂⟩ := hl.eq_of_feedGap hz hx hn hq
  obtain ⟨hr, hout₃⟩ := hm.eq_of_feedGap hz hx hn hr
  refine ⟨hkernel.alike hp.symm hq.symm hr.symm, ?_⟩
  rw [hout₁, hout₂, hout₃]
  exact hout

theorem give_jointly (e : Exact α ρ) (hz : InertZeros α ρ) (h : k.Mixed a b l m)
    (hk : Poised conv k) (hl : Poised conv l) (hm : Poised conv m) (hx : conv.Exact ρ)
    {header : Header} (hn : header.len < 2 ^ 64) {xs ys zs : List α}
    (hs : header.gap = false → RateConversion.Mixed a b xs ys zs) :
    Checked.Jointly (header.gap = true ∧ 2 ^ 62 ≤ header.len)
      (fun p q r => p.kernel.Mixed a b q.kernel r.kernel ∧
        RateConversion.Mixed a b p.output q.output r.output)
      (k.give ⟨header, xs⟩ (k.yield header.len)) (l.give ⟨header, ys⟩ (k.yield header.len))
      (m.give ⟨header, zs⟩ (k.yield header.len)) := by
  simp only [give]
  by_cases hg : header.gap = true
  · rw [if_pos hg, if_pos hg, if_pos hg]
    exact (h.feedGap_jointly e hz hk hl hm hx hn).imp fun hlong => ⟨hg, hlong⟩
  · rw [if_neg hg, if_neg hg, if_neg hg]
    have hfeed := h.feed_jointly e (hs (Bool.eq_false_iff.mpr hg))
      (header.gap = true ∧ 2 ^ 62 ≤ header.len)
    exact hfeed.bind fun p q r _ _ _ hpqr => .ok hpqr

end Mixed

end Kernel

end RateConversion
