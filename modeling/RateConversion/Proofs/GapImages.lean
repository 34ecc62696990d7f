import RateConversion.Proofs.GapZeros
import RateConversion.Proofs.Images

/-! Gaps under a map of samples. A kernel that holds the image of what another one holds may take
a gap by another way, for it can be silent where the other is not. Where zeros are inert this
makes no difference but for the marks of the gap, and overflow in a span too long to be fed. -/

namespace RateConversion

/-- Two computations that give related results or meet the same fault, or one of which
overflows where that is granted. -/
inductive Checked.Within {α β : Type} (granted : Prop) (R : α → β → Prop) :
    Checked α → Checked β → Prop
  | ok {a : α} {b : β} (h : R a b) : Within granted R (.ok a) (.ok b)
  | fault (f : Fault) : Within granted R (.error f) (.error f)
  | left (h : granted) (y : Checked β) : Within granted R (.error .overflow) y
  | right (h : granted) (x : Checked α) : Within granted R x (.error .overflow)

namespace Checked

variable {α β γ δ : Type} {granted : Prop} {R : α → β → Prop} {S : γ → δ → Prop}
  {x : Checked α} {y : Checked β}

theorem Both.within (h : Both R x y) : Within granted R x y := by
  cases h with
  | ok h => exact .ok h
  | fault f => exact .fault f

theorem Within.imp {granted' : Prop} (h : Within granted R x y) (hg : granted → granted') :
    Within granted' R x y := by
  cases h with
  | ok h => exact .ok h
  | fault f => exact .fault f
  | left h y => exact .left (hg h) y
  | right h x => exact .right (hg h) x

theorem Within.bind {f : α → Checked γ} {g : β → Checked δ} (h : Within granted R x y)
    (hfg : ∀ a b, x = .ok a → y = .ok b → R a b → Within granted S (f a) (g b)) :
    Within granted S (x >>= f) (y >>= g) := by
  cases h with
  | ok h => exact hfg _ _ rfl rfl h
  | fault f => exact .fault f
  | left h y => exact .left h _
  | right h x => exact .right h _

theorem Within.bind_same {x : Checked α} {f : α → Checked γ} {g : α → Checked δ}
    (hfg : ∀ a, x = .ok a → Within granted S (f a) (g a)) :
    Within granted S (x >>= f) (x >>= g) := by
  cases x with
  | ok a => exact hfg a rfl
  | error e => exact .fault e

theorem within_of_unlessOverflow {P : α → Prop} {Q : β → Prop} (hx : UnlessOverflow P x)
    (hy : UnlessOverflow Q y) (hflow : ¬granted → (∃ a, x = .ok a) ∧ ∃ b, y = .ok b)
    (h : ∀ a b, x = .ok a → y = .ok b → R a b) : Within granted R x y := by
  by_cases hg : granted
  · cases hx with
    | overflow => exact .left hg y
    | ok _ =>
      cases hy with
      | overflow => exact .right hg _
      | ok _ => exact .ok (h _ _ rfl rfl)
  · obtain ⟨⟨a, rfl⟩, ⟨b, rfl⟩⟩ := hflow hg
    exact .ok (h a b rfl rfl)

theorem Both.of_map {g : α → γ} {R : γ → β → Prop} (h : Both R (x.map g) y) :
    Both (fun a b => R (g a) b) x y := by
  cases x with
  | error e =>
    cases h
    exact .fault e
  | ok a =>
    obtain ⟨b, rfl, hab⟩ := h.exists_right
    exact .ok hab

end Checked

inductive Checked.Jointly {α β γ : Type} (granted : Prop) (R : α → β → γ → Prop) :
    Checked α → Checked β → Checked γ → Prop
  | ok {a : α} {b : β} {c : γ} (h : R a b c) : Jointly granted R (.ok a) (.ok b) (.ok c)
  | fault (f : Fault) : Jointly granted R (.error f) (.error f) (.error f)
  | overflow {x : Checked α} {y : Checked β} {z : Checked γ} (h : granted)
    (hflow : x = .error .overflow ∨ y = .error .overflow ∨ z = .error .overflow) :
    Jointly granted R x y z

namespace Checked

variable {α β γ δ ε ζ : Type} {granted : Prop} {x : Checked α} {y : Checked β} {z : Checked γ}
  {R : α → β → γ → Prop} {S : δ → ε → ζ → Prop}

theorem Jointly.imp {granted' : Prop} (h : Jointly granted R x y z)
    (hg : granted → granted') : Jointly granted' R x y z := by
  cases h with
  | ok h => exact .ok h
  | fault f => exact .fault f
  | overflow h hflow => exact .overflow (hg h) hflow

theorem Jointly.exists_of_ok {a : α} (h : Jointly granted R (.ok a) y z) (hg : ¬granted) :
    ∃ b c, y = .ok b ∧ z = .ok c ∧ R a b c := by
  cases h with
  | ok h => exact ⟨_, _, rfl, rfl, h⟩
  | overflow h => exact absurd h hg

theorem Within.jointly {P : α → β → Prop} {Q : α → γ → Prop} (h : Within granted P x y)
    (h' : Within granted Q x z)
    (hR : ∀ a b c, x = .ok a → y = .ok b → z = .ok c → P a b → Q a c → R a b c) :
    Jointly granted R x y z := by
  cases h with
  | ok hp =>
    cases h' with
    | ok hq => exact .ok (hR _ _ _ rfl rfl rfl hp hq)
    | right hg => exact .overflow hg (.inr (.inr rfl))
  | fault f =>
    cases h' with
    | fault => exact .fault f
    | left hg => exact .overflow hg (.inl rfl)
    | right hg => exact .overflow hg (.inr (.inr rfl))
  | left hg => exact .overflow hg (.inl rfl)
  | right hg => exact .overflow hg (.inr (.inl rfl))

theorem Jointly.bind {f : α → Checked δ} {g : β → Checked ε} {k : γ → Checked ζ}
    (h : Jointly granted R x y z)
    (hfgk : ∀ a b c, x = .ok a → y = .ok b → z = .ok c → R a b c →
      Jointly granted S (f a) (g b) (k c)) :
    Jointly granted S (x >>= f) (y >>= g) (z >>= k) := by
  cases h with
  | ok h => exact hfgk _ _ _ rfl rfl rfl h
  | fault e => exact .fault e
  | overflow h hflow =>
    refine .overflow h ?_
    rcases hflow with rfl | rfl | rfl
    · exact .inl rfl
    · exact .inr (.inl rfl)
    · exact .inr (.inr rfl)

end Checked

variable {α β ρ : Type} [Zero α] [Add α] [Sub α] [Sample α ρ] [Zero β] [Add β] [Sub β]
  [Sample β ρ] {f : α → β}

namespace Kernel

variable [Add ρ] [Mul ρ] [Scalar ρ] {conv : Conversion} {k : Kernel α ρ} {l : Kernel β ρ}

theorem Alike.fed_zeros (hf : Linear f) (a : (k.map f).Alike l) (n : Nat) :
    ((k.fed (List.replicate n 0)).1.map f).Alike (l.fed (List.replicate n 0)).1 ∧
      (l.fed (List.replicate n 0)).2 = (k.fed (List.replicate n 0)).2.map f := by
  obtain ⟨hkernel, hout⟩ := a.fed (List.replicate n 0)
  have hmap := k.fed_map hf (List.replicate n 0)
  rw [List.map_replicate, hf.zero] at hmap
  rw [hmap] at hkernel hout
  exact ⟨hkernel, hout.symm⟩

theorem Alike.yield_eq (hf : Linear f) (a : (k.map f).Alike l) (hk : Serves conv k)
    (hl : Serves conv l) (n : Nat) : l.yield n = k.yield n := by
  have hout := congr_arg List.length (a.fed_zeros hf n).2
  rwa [List.length_map, hk.length_fed, hl.length_fed, List.length_replicate,
    List.length_replicate] at hout

theorem Serves.feedGap_within (hk : Serves conv k) (hl : Serves conv l) {n : Nat}
    (hyield : l.yield n = k.yield n) (hn : n < 2 ^ 64)
    {R : Produced α ρ → Produced β ρ → Prop}
    (hR : ∀ p q, k.feedGap n (k.yield n) = .ok p → l.feedGap n (l.yield n) = .ok q → R p q) :
    Checked.Within (2 ^ 62 ≤ n) R (k.feedGap n (k.yield n)) (l.feedGap n (k.yield n)) := by
  rw [← hyield]
  refine Checked.within_of_unlessOverflow (hyield.symm ▸ hk.feedGap_unlessOverflow hn)
    (hl.feedGap_unlessOverflow hn) (fun hshort => ?_) fun p q hp hq => hR p q (hyield ▸ hp) hq
  obtain ⟨p, hp, -⟩ := hk.exists_feedGap (n := n) (by omega)
  obtain ⟨q, hq, -⟩ := hl.exists_feedGap (n := n) (by omega)
  exact ⟨⟨p, hyield.symm ▸ hp⟩, ⟨q, hq⟩⟩

theorem Alike.feedGap_within (hf : Linear f) (hα : InertZeros α ρ) (hβ : InertZeros β ρ)
    (a : (k.map f).Alike l) (hk : Poised conv k) (hl : Poised conv l) (hx : conv.Exact ρ)
    {n : Nat} (hn : n < 2 ^ 64) :
    Checked.Within (2 ^ 62 ≤ n)
      (fun p q => (p.kernel.map f).Alike q.kernel ∧ q.output = p.output.map f)
      (k.feedGap n (k.yield n)) (l.feedGap n (k.yield n)) := by
  have hyield := a.yield_eq hf hk.serves hl.serves n
  obtain ⟨hkernel, hout⟩ := a.fed_zeros hf n
  refine hk.serves.feedGap_within hl.serves hyield hn fun p q hp hq => ?_
  obtain ⟨hp1, hp2⟩ := hk.eq_of_feedGap hα hx hn hp
  obtain ⟨hq1, hq2⟩ := hl.eq_of_feedGap hβ hx hn hq
  exact ⟨((hp1.map hf).trans hkernel).trans hq1.symm, by rw [hp2, hq2, hout]⟩

end Kernel

namespace Converter

variable [Element α] [Element β]

section Enter

variable [Scalar ρ] {c : Converter α ρ} {r : Converter β ρ}

theorem Alike.enter_image (hf : Linear f) (a : (c.image f).Alike r) (h : Header) :
    Checked.Both (fun d e => (d.image f).Alike e) (c.enter h) (r.enter h) := by
  have henter := a.enter h
  rw [Converter.enter_image hf] at henter
  exact henter.of_map

end Enter

variable [Add ρ] [Mul ρ] [Scalar ρ] {c d : Converter α ρ} {r e : Converter β ρ} {b : Buffer α}

theorem Alike.proceed_within (hf : Linear f) (hα : InertZeros α ρ) (hβ : InertZeros β ρ)
    (a : (d.image f).Alike e) (hd : d.Valid Kernel.Poised) (he : e.Valid Kernel.Poised)
    (hx : d.setup.conversion.Exact ρ) (hg : b.header.gap = true) (n : Nat) :
    Checked.Within (2 ^ 62 ≤ b.header.len)
      (fun p q => (p.1.image f).Alike q.1 ∧ q.2.1 = p.2.1.map f ∧ p.2.2.SameSpan q.2.2)
      (d.proceed b n) (e.proceed (b.map f) n) := by
  have hlen : e.kernel.outputLen b.header.len = d.kernel.outputLen b.header.len :=
    (a.kernel.outputLen _).symm.trans (Kernel.outputLen_map d.kernel _)
  have hconv : e.setup.conversion = d.setup.conversion :=
    (congr_arg Setup.conversion a.setup).symm
  have hrate : e.setup.rateOut = d.setup.rateOut := (congr_arg Setup.rateOut a.setup).symm
  have hsegment : e.segment = d.segment := a.segment.symm
  simp only [Converter.proceed]
  refine .bind_same fun nextIn hin => ?_
  have hshort : b.header.len < 2 ^ 64 := by
    have := (Checked.add_eq_ok_iff.mp hin).2
    omega
  rw [show (b.map f).header = b.header from rfl, hlen, hsegment, hrate]
  refine .bind_same fun len hlen => .bind_same fun _ hn => ?_
  cases Checked.require_eq_ok_iff.mp hn
  cases Kernel.eq_yield_of_outputLen hlen
  have hgive : Checked.Within (2 ^ 62 ≤ b.header.len)
      (fun p q => (p.kernel.map f).Alike q.kernel ∧ q.output = p.output.map f)
      (d.kernel.give b (d.kernel.yield b.header.len))
      (e.kernel.give (b.map f) (d.kernel.yield b.header.len)) := by
    rw [Kernel.give, Kernel.give, if_pos hg, if_pos (show (b.map f).header.gap = true from hg)]
    exact a.kernel.feedGap_within hf hα hβ hd.kernel (hconv ▸ he.kernel) hx hshort
  refine hgive.bind fun p q _ _ hpq => ?_
  obtain ⟨hkernel, hout⟩ := hpq
  rw [hout, List.length_map]
  refine .bind_same fun _ _ => ?_
  refine ((Segment.stamp_sameSpan _ _ _ _ _ _ _).within).bind fun x y _ _ hxy => ?_
  obtain ⟨hnext, hspan⟩ := hxy
  exact .ok ⟨⟨a.setup, a.staged, hnext, hkernel⟩, rfl, hspan⟩

inductive OnImage (f : α → β) : Except (Rejected (Converter α ρ) (List α)) (Transformed α ρ) →
    Except (Rejected (Converter β ρ) (List β)) (Transformed β ρ) → Prop
  | accepted {t : Transformed α ρ} {u : Transformed β ρ}
    (h : (t.converter.image f).Alike u.converter) (hs : u.slice = t.slice.map f)
    (hm : t.stamp.SameSpan u.stamp) : OnImage f (.ok t) (.ok u)
  | rejected {c : Converter α ρ} {r : Converter β ρ} (h : (c.image f).Alike r) (slice : List α)
    (why : Rejection) :
    OnImage f (.error ⟨c, slice, why⟩) (.error ⟨r, slice.map f, why⟩)

theorem Alike.transform_within (hf : Linear f) (hα : InertZeros α ρ) (hβ : InertZeros β ρ)
    (a : (c.image f).Alike r) (hc : c.Valid Kernel.Poised) (hr : r.Valid Kernel.Poised)
    (hx : c.setup.config.ExactWeights ρ) (hg : b.header.gap = true) (slice : List α) :
    Checked.Within (2 ^ 62 ≤ b.header.len) (OnImage f) (c.transform b slice)
      (r.transform (b.map f) (slice.map f)) := by
  have hpredict : r.predict b.header = c.predict b.header :=
    (a.predict b.header).symm.trans (predict_image c b.header)
  have hheader : (b.map f).header = b.header := rfl
  have hproper (held : Nat) : ¬(b.header.gap = false ∧ held ≠ b.header.len) := by
    rw [hg]
    exact fun h => Bool.false_ne_true h.1.symm
  simp only [Converter.transform]
  rw [hheader, if_neg (hproper _), if_neg (hproper _), hpredict, List.length_map]
  refine .bind_same fun expected _ => ?_
  split_ifs
  · exact .ok (.rejected a slice _)
  · rw [absorb_eq, absorb_eq]
    refine .bind (R := fun p q => (p.1.image f).Alike q.1 ∧ q.2.1 = p.2.1.map f ∧
      p.2.2.SameSpan q.2.2) ?_ fun p q _ _ hpq => ?_
    · refine (a.enter_image hf b.header).within.bind fun d e hd he halike => ?_
      have hvalid := hc.enter Kernel.poised_stable hd
      exact halike.proceed_within hf hα hβ hvalid (hr.enter Kernel.poised_stable he)
        (hvalid.setup.exact (hc.exactWeights_of_enter hx hd)) hg expected
    · obtain ⟨hnext, hout, hspan⟩ := hpq
      refine .ok (.accepted hnext ?_ hspan)
      rw [hout, List.map_append, List.map_drop]

end Converter

inductive Reply.Follows {α β : Type} [Element α] [Element β] (f : α → β) :
    Reply (List α) → Reply (List β) → Prop
  | transformed (slice : List α) {m p : Stamp} (h : m.SameSpan p) :
    Follows f (.transformed slice m) (.transformed (slice.map f) p)
  | same (y : Reply (List α)) : Follows f y (y.image f)

section Follows

variable {α β : Type} [Element α] [Element β] {f : α → β} {y : Reply (List α)}
  {z : Reply (List β)}

theorem Reply.Follows.exists_of_transformed {slice : List α} {m : Stamp}
    (h : Follows f (.transformed slice m) z) :
    ∃ p, z = .transformed (slice.map f) p ∧ m.SameSpan p := by
  cases h with
  | transformed _ h => exact ⟨_, rfl, h⟩
  | same => exact ⟨m, rfl, rfl⟩

theorem Reply.Follows.eq_image (h : Follows f y z) (hy : ∀ slice m, y ≠ .transformed slice m) :
    z = y.image f := by
  cases h with
  | transformed slice h => exact absurd rfl (hy slice _)
  | same => rfl

end Follows

/-- A gap too long for its zeros to be fed. -/
def Request.IsVast {α : Type} : Request (Job α) → Prop
  | .transform job => job.buffer.header.gap = true ∧ 2 ^ 62 ≤ job.buffer.header.len
  | _ => False

namespace Converter

variable [Element α] [Element β] [Add ρ] [Mul ρ] [Scalar ρ] {c : Converter α ρ}
  {r : Converter β ρ}

theorem Alike.respond_image (hf : Linear f) (a : (c.image f).Alike r) (hc : c.Undeclared)
    {q : Request (Job α)} (hq : q.Undeclared) (hg : q.IsGap → KeepsZeros f) :
    Checked.Both (fun x y => (x.1.image f).Alike y.1 ∧ y.2 = x.2.image f) (c.respond q)
      (r.respond (q.image f)) := by
  have hrespond := a.respond (q.image f)
  rw [Converter.respond_image hf hc hq hg] at hrespond
  exact hrespond.of_map.mono fun x y h => ⟨h.1, h.2.symm⟩

theorem Alike.respond_within (hf : Linear f) (hα : InertZeros α ρ) (hβ : InertZeros β ρ)
    (a : (c.image f).Alike r) (hu : c.Undeclared) (hc : c.Valid Kernel.Poised)
    (hr : r.Valid Kernel.Poised) (hx : c.setup.config.ExactWeights ρ) {q : Request (Job α)}
    (hq : q.Undeclared) :
    Checked.Within q.IsVast
      (fun x y => (x.1.image f).Alike y.1 ∧ x.2.Follows f y.2 ∧ (¬q.IsGap → y.2 = x.2.image f))
      (c.respond q) (r.respond (q.image f)) := by
  by_cases hg : q.IsGap
  · cases q with
    | transform job =>
      have htransform := a.transform_within hf hα hβ hc hr hx hg job.slice
      refine (htransform.imp fun hlong => ⟨hg, hlong⟩).bind fun t u _ _ h => ?_
      cases h with
      | @accepted t u hnext hs hm =>
        have hfollows : Reply.Follows f (.transformed t.slice t.stamp)
            (.transformed u.slice u.stamp) := hs ▸ .transformed t.slice hm
        exact .ok ⟨hnext, hfollows, fun h => absurd hg h⟩
      | rejected h slice why => exact .ok ⟨h, .same (.rejected slice why), fun _ => rfl⟩
    | _ => exact hg.elim
  · refine ((a.respond_image hf hu hq fun h => absurd h hg).mono fun x y h => ?_).within
    obtain ⟨hnext, hreply⟩ := h
    exact ⟨hnext, hreply ▸ .same _, fun _ => hreply⟩

end Converter

end RateConversion
