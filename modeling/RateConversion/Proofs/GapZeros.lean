import Mathlib.Algebra.Order.Field.Rat
import RateConversion.Proofs.Acceptance
import RateConversion.Proofs.Overflow
import RateConversion.Proofs.Silence

/-! A gap is the same as its zeros. However much of a gap is fed in blocks and however much is
passed over, the kernel is left as the zeros would leave it and gives what they would
give, so a run cannot tell a gap from zeros but by the marks of the gap itself. -/

namespace RateConversion

def Conversion.Exact (ρ : Type) [Add ρ] [Scalar ρ] : Conversion → Prop
  | .down factor .tukey _ => TaperedMean.ExactUpTo ρ (2 * factor)
  | _ => True

namespace Kernel

variable {α ρ : Type} [Zero α] [Add ρ] [Scalar ρ]

/-- A serving kernel in which a mean has, where sums are exact, the weight of its places. -/
structure Poised (conv : Conversion) (k : Kernel α ρ) : Prop where
  serves : Serves conv k
  weighed (m : TaperedMean α ρ) : k = .mean m →
    TaperedMean.ExactUpTo ρ (2 * m.clock.stride) → ∃ since, m.Weighed since

variable {conv : Conversion} {k : Kernel α ρ}

theorem poised_start (hf : conv.Fits) : Poised conv (ofConversion conv : Kernel α ρ) := by
  refine ⟨serves_ofConversion hf, fun m hm _ => ?_⟩
  cases conv with
  | copy | up => cases hm
  | down factor d z =>
    cases d with
    | tukey =>
      cases hm
      exact ⟨_, TaperedMean.start_weighed factor 0⟩
    | _ => cases hm

theorem Poised.reset (h : Poised conv k) (hf : conv.Fits) {leading : Nat}
    (hl : conv.Admits leading) : Poised conv (k.reset leading) := by
  refine ⟨h.serves.reset hf hl, fun m hm _ => ?_⟩
  cases k with
  | mean =>
    cases hm
    exact ⟨_, TaperedMean.start_weighed _ leading⟩
  | _ => cases hm

theorem Poised.skip (h : Poised conv k) {k' : Kernel α ρ} {n : Nat} (hn : n < 2 ^ 64)
    (hk : k.skip n = .ok k') : Poised conv k' := by
  refine ⟨h.serves.skip hn hk, fun m hm hx => ?_⟩
  cases h.serves with
  | @mean z m' hs hc =>
    obtain ⟨m'', hskip, hk⟩ := Checked.bind_eq_ok_iff.mp hk
    cases hk
    cases hm
    have hstride : m.clock.stride = m'.clock.stride := by
      rw [TaperedMean.clock_skip hs hn hskip]
      rfl
    rw [hstride] at hx
    obtain ⟨since, hw⟩ := h.weighed m' rfl hx
    exact ⟨_, (TaperedMean.weighed_skip hc hs hx hw hn hskip).2⟩
  | copy | spline =>
    cases hk
    cases hm
  | pick | sinc =>
    obtain ⟨_, -, hk⟩ := Checked.bind_eq_ok_iff.mp hk
    cases hk
    cases hm

variable [Add α] [Sub α] [Mul ρ] [Sample α ρ]

theorem Poised.fed (h : Poised conv k) (xs : List α) : Poised conv (k.fed xs).1 := by
  refine ⟨h.serves.fed xs, fun m hm hx => ?_⟩
  cases h.serves with
  | @mean z m' hs hc =>
    cases hm
    have hstride : (RateConversion.feed TaperedMean.step m' xs).1.clock.stride =
        m'.clock.stride := by
      rw [(TaperedMean.feed_step hs xs).1]
      rfl
    rw [hstride] at hx
    obtain ⟨since, hw⟩ := h.weighed m' rfl hx
    exact ⟨_, TaperedMean.weighed_feed hc hs hx hw xs⟩
  | _ => cases hm

theorem poised_stable : Stable (Poised (α := α) (ρ := ρ)) where
  serves h := h.serves
  start hf := poised_start hf
  reset h hf hl := h.reset hf hl
  fed xs h := h.fed xs
  skip h hn hk := h.skip hn hk

theorem Poised.fed_silence (hz : InertZeros α ρ) (h : Poised conv k) (hx : conv.Exact ρ)
    (hs : k.isSilent = true) (n : Nat) :
    (k.fed (List.replicate n 0)).2 = List.replicate (k.yield n) 0 := by
  have hlen := h.serves.length_fed (List.replicate n (0 : α))
  rw [List.length_replicate] at hlen
  refine List.eq_replicate_iff.mpr ⟨hlen, ?_⟩
  cases h.serves with
  | copy => exact fun z hmem => List.eq_of_mem_replicate hmem
  | pick hc hl =>
    exact (feed_replicate (P := fun _ => True) (fun c _ => ⟨trivial, c.pick_zero⟩) trivial n).2
  | @mean z m hc hl =>
    have hsilent : m.Silent := ⟨hl, hc, hx, h.weighed m rfl hx, hz.eq_zero _ hs⟩
    exact (hsilent.fed_zeros hz n).2
  | sinc hd hf ht => exact SincFilter.outputs_zero hz hs n
  | spline hu => exact ((Upsampler.silent_of_isSilent hz hs).skip hz hu n).2

theorem Poised.eq_of_skip (hz : InertZeros α ρ) (h : Poised conv k) (hx : conv.Exact ρ)
    (hs : k.isSilent = true) {n : Nat} (hn : n < 2 ^ 64) {k' : Kernel α ρ}
    (hk : k.skip n = .ok k') : k' = (k.fed (List.replicate n 0)).1 := by
  cases h.serves with
  | copy =>
    cases hk
    rfl
  | @pick z c hc hl =>
    have hfeed := (TickClock.feed_pick hc (List.replicate n (0 : α))).1
    rw [List.length_replicate] at hfeed
    obtain ⟨c', hskip, hk⟩ := Checked.bind_eq_ok_iff.mp hk
    cases hk
    rw [Kernel.fed, hfeed, TickClock.eq_after_of_advance hc hn hskip]
  | @mean z m hc hl =>
    have hsilent : m.Silent := ⟨hl, hc, hx, h.weighed m rfl hx, hz.eq_zero _ hs⟩
    obtain ⟨m', hskip, hk⟩ := Checked.bind_eq_ok_iff.mp hk
    cases hk
    rw [Kernel.fed, hsilent.eq_of_skip hz hn hskip]
  | @sinc d z span f hd hf ht =>
    obtain ⟨f', hskip, hk⟩ := Checked.bind_eq_ok_iff.mp hk
    cases hk
    rw [Kernel.fed, SincFilter.eq_after_of_skip hf hn hskip]
  | @spline u hu =>
    cases hk
    rw [Kernel.fed, ((Upsampler.silent_of_isSilent hz hs).skip hz hu n).1]

theorem Poised.eq_of_feedGap (hz : InertZeros α ρ) (h : Poised conv k) (hx : conv.Exact ρ)
    {n : Nat} (hn : n < 2 ^ 64) {p : Produced α ρ} (hp : k.feedGap n (k.yield n) = .ok p) :
    p.kernel.Alike (k.fed (List.replicate n 0)).1 ∧ p.output = (k.fed (List.replicate n 0)).2 := by
  induction n using Nat.strong_induction_on generalizing k p with
  | _ n ih =>
    rw [feedGap] at hp
    split_ifs at hp with h0 hsilent
    · cases h0
      cases hp
      exact ⟨h.serves.fed_nil.1, h.serves.fed_nil.2.symm⟩
    · obtain ⟨k', hk, hp⟩ := Checked.bind_eq_ok_iff.mp hp
      cases hp
      cases h.eq_of_skip hz hx hsilent hn hk
      exact ⟨.same _, (h.fed_silence hz hx hsilent n).symm⟩
    · -- One block is fed and the induction hypothesis takes the rest, from the kernel after it.
      have hlt : n - min n blockLen < n := by
        simp only [blockLen]
        omega
      have hsplit : List.replicate n (0 : α) =
          List.replicate (min n blockLen) 0 ++ List.replicate (n - min n blockLen) 0 := by
        rw [List.replicate_append_replicate, Nat.add_sub_cancel' (Nat.min_le_left _ _)]
      obtain ⟨halike, hout⟩ := h.serves.sound.fed_append (List.replicate (min n blockLen) 0)
        (List.replicate (n - min n blockLen) 0)
      have hyield := h.serves.yield_block n
      have hgives := h.serves.length_fed (List.replicate (min n blockLen) 0)
      rw [List.length_replicate] at hgives
      obtain ⟨r, hr, hp⟩ := Checked.bind_eq_ok_iff.mp hp
      cases h.serves.sound.eq_of_feed (by rw [List.length_replicate]; omega) hr
      dsimp only at hp
      rw [hgives, hyield, Nat.add_sub_cancel_left] at hp
      split_ifs at hp
      obtain ⟨q, hq, hp⟩ := Checked.bind_eq_ok_iff.mp hp
      cases hp
      obtain ⟨hkernel, houtput⟩ :=
        ih _ hlt (poised_stable.fed (List.replicate (min n blockLen) 0) h) (by omega) hq
      rw [hsplit, hout]
      exact ⟨hkernel.trans halike.symm, congr_arg _ houtput⟩

theorem Poised.feedGap_eq_ok (hz : InertZeros α ρ) (h : Poised conv k) (hx : conv.Exact ρ)
    {n : Nat} (hn : n < 2 ^ 62) :
    ∃ p, k.feedGap n (k.yield n) = .ok p ∧ p.kernel.Alike (k.fed (List.replicate n 0)).1 ∧
      p.output = (k.fed (List.replicate n 0)).2 := by
  obtain ⟨p, hp, -⟩ := h.serves.exists_feedGap hn
  exact ⟨p, hp, h.eq_of_feedGap hz hx (by omega) hp⟩

end Kernel

def Buffer.zeros {α : Type} [Zero α] (h : Header) : Buffer α :=
  ⟨{ h with gap := false }, List.replicate h.len 0⟩

/-- Sums of half weights are exact as far as the rates of a configuration need them. -/
def Config.ExactWeights (ρ : Type) [Add ρ] [Scalar ρ] (c : Config) : Prop :=
  TaperedMean.ExactUpTo ρ (2 * (c.rateIn.hz / c.rateOut.hz))

def Stamp.SameSpan (s t : Stamp) : Prop := { s with gap := t.gap, gapStart := t.gapStart } = t

theorem Setup.Coherent.exact {ρ : Type} [Add ρ] [Scalar ρ] {s : Setup} (h : s.Coherent)
    (hx : s.config.ExactWeights ρ) : s.conversion.Exact ρ := by
  have hr := h.relates
  cases hc : s.conversion with
  | copy | up => trivial
  | down factor d z =>
    rw [hc] at hr
    cases d with
    | tukey =>
      have hf : s.config.rateIn.hz / s.config.rateOut.hz = factor := by
        have hmul : s.config.rateIn.hz = factor * s.config.rateOut.hz := hr.2
        rw [hmul, Nat.mul_div_cancel _ s.config.rateOut.pos]
      exact hf ▸ hx
    | _ => trivial

theorem Segment.stamp_sameSpan (s : Segment) (rateOut len : Nat) (g g' : Bool) (l l' : Nat) :
    Checked.Both (fun p q => p.1 = q.1 ∧ p.2.SameSpan q.2) (s.stamp rateOut len g l)
      (s.stamp rateOut len g' l') :=
  .bind_same fun _ => .bind_same fun _ => .bind_same fun _ => .ok ⟨rfl, rfl⟩

theorem Setup.exactWeights_of_rates {ρ : Type} [Add ρ] [Scalar ρ] {s t : Setup}
    (h : s.config.ExactWeights ρ) (hin : t.rateIn = s.rateIn) (hout : t.rateOut = s.rateOut) :
    t.config.ExactWeights ρ := by
  change TaperedMean.ExactUpTo ρ (2 * (t.rateIn / t.rateOut))
  rw [hin, hout]
  exact h

namespace Converter

section Enter

variable {α ρ : Type} [Zero α] [Scalar ρ] {c d : Converter α ρ}
variable {P : Conversion → Kernel α ρ → Prop}

theorem Valid.rates_of_enter (hc : c.Valid P) {h : Header} (he : c.enter h = .ok d) :
    d.setup.rateIn = c.setup.rateIn ∧ d.setup.rateOut = c.setup.rateOut := by
  by_cases hd : c.Discontinuous h
  · obtain ⟨-, rfl⟩ := (enter_of_discontinuous hd).mp he
    exact hc.pending.2
  · cases (enter_of_continuous hd).symm.trans he
    exact ⟨rfl, rfl⟩

theorem Valid.exactWeights_of_enter [Add ρ] (hc : c.Valid P) (hx : c.setup.config.ExactWeights ρ)
    {h : Header} (he : c.enter h = .ok d) : d.setup.config.ExactWeights ρ := by
  obtain ⟨hin, hout⟩ := hc.rates_of_enter he
  exact Setup.exactWeights_of_rates hx hin hout

end Enter

variable {α ρ : Type} [Zero α] [Add α] [Sub α] [Add ρ] [Mul ρ] [Scalar ρ] [Sample α ρ]
variable {c d : Converter α ρ}

theorem proceed_zeros (hz : InertZeros α ρ) (hd : d.Valid Kernel.Poised)
    (hx : d.setup.conversion.Exact ρ) {b : Buffer α} (hg : b.header.gap = true)
    (hn : b.header.len < 2 ^ 62) (expected : Nat) :
    Checked.Both (fun p q => p.1.Alike q.1 ∧ p.2.1 = q.2.1 ∧ p.2.2.SameSpan q.2.2)
      (d.proceed b expected) (d.proceed (.zeros b.header) expected) := by
  refine .bind_same fun nextIn => ?_
  refine .bind_of_ok (.same _ fun _ => rfl) fun len _ hlen he => ?_
  cases he
  refine .bind_of_ok (.same _ fun _ => rfl) fun _ _ hreq _ => ?_
  cases Kernel.eq_yield_of_outputLen hlen
  cases Checked.require_eq_ok_iff.mp hreq
  obtain ⟨p, hp, hkernel, hout⟩ := hd.kernel.feedGap_eq_ok hz hx hn
  have hgap : d.kernel.give b (d.kernel.yield b.header.len) = .ok p := by
    rw [Kernel.give, hg, if_pos rfl, hp]
  have hzero : d.kernel.give (.zeros b.header) (d.kernel.yield b.header.len) =
      .ok ⟨(d.kernel.fed (List.replicate b.header.len 0)).1,
        (d.kernel.fed (List.replicate b.header.len 0)).2, d.kernel.yield b.header.len⟩ := by
    have hfeed : d.kernel.feed (List.replicate b.header.len 0) =
        .ok (d.kernel.fed (List.replicate b.header.len 0)) :=
      hd.kernel.serves.sound.feed_eq_ok (by rw [List.length_replicate]; exact hn)
    rw [Kernel.give, Buffer.zeros, hfeed]
    rfl
  rw [hgap, hzero]
  simp only [Checked.ok_bind]
  rw [hout]
  exact .bind_same fun _ => (Segment.stamp_sameSpan _ _ _ _ _ _ _).bind fun p q h =>
    .ok ⟨⟨rfl, rfl, h.1, hkernel⟩, rfl, h.2⟩

inductive SameTransform : Except (Rejected (Converter α ρ) (List α)) (Transformed α ρ) →
    Except (Rejected (Converter α ρ) (List α)) (Transformed α ρ) → Prop
  | accepted {t u : Transformed α ρ} (h : t.converter.Alike u.converter) (hs : t.slice = u.slice)
    (hm : t.stamp.SameSpan u.stamp) : SameTransform (.ok t) (.ok u)
  | rejected {c d : Converter α ρ} (h : c.Alike d) (slice : List α) (why : Rejection) :
    SameTransform (.error ⟨c, slice, why⟩) (.error ⟨d, slice, why⟩)

theorem transform_zeros (hz : InertZeros α ρ) (hc : c.Valid Kernel.Poised)
    (hx : c.setup.config.ExactWeights ρ) {b : Buffer α} (hg : b.header.gap = true)
    (hn : b.header.len < 2 ^ 62) (slice : List α) :
    Checked.Both SameTransform (c.transform b slice) (c.transform (.zeros b.header) slice) := by
  have hlen : ¬((Buffer.zeros b.header : Buffer α).header.gap = false ∧
      (Buffer.zeros b.header : Buffer α).samples.length ≠
        (Buffer.zeros b.header : Buffer α).header.len) := fun h => h.2 List.length_replicate
  simp only [transform]
  rw [if_neg (fun h => by rw [hg] at h; cases h.1), if_neg hlen]
  refine .bind_same fun expected => ?_
  split_ifs
  · exact .ok (.rejected (.refl c) _ _)
  · rw [absorb_eq, absorb_eq]
    refine .bind (R := fun p q => p.1.Alike q.1 ∧ p.2.1 = q.2.1 ∧ p.2.2.SameSpan q.2.2) ?_ ?_
    · refine .bind_of_ok (.same _ fun _ => rfl) fun d _ hd he => ?_
      cases he
      have hv := hc.enter Kernel.poised_stable hd
      exact proceed_zeros hz hv (hv.setup.exact (hc.exactWeights_of_enter hx hd)) hg hn expected
    · rintro ⟨_, _, _⟩ ⟨_, _, _⟩ ⟨h1, h2, h3⟩
      cases h2
      exact .ok (.accepted h1 rfl h3)

variable [Element α]

inductive ZeroFilled : Request (Job α) → Request (Job α) → Prop
  | same (r : Request (Job α)) : ZeroFilled r r
  | zeros (b : Buffer α) (slice : List α) (hgap : b.header.gap = true)
    (hmem : (Buffer.zeros b.header : Buffer α).Addressable) :
    ZeroFilled (.transform ⟨b, slice⟩) (.transform ⟨.zeros b.header, slice⟩)

inductive SameOutput : Reply (List α) → Reply (List α) → Prop
  | same (y : Reply (List α)) : SameOutput y y
  | transformed (slice : List α) {s t : Stamp} (h : s.SameSpan t) :
    SameOutput (.transformed slice s) (.transformed slice t)

theorem respond_zeroFilled (hz : InertZeros α ρ) (hc : c.Valid Kernel.Poised)
    (hx : c.setup.config.ExactWeights ρ) (a : c.Alike d) {r q : Request (Job α)}
    (h : ZeroFilled r q) :
    Checked.Both (fun x y => x.1.Alike y.1 ∧ SameOutput x.2 y.2 ∧ (r = q → x.2 = y.2))
      (c.respond r) (d.respond q) := by
  cases h with
  | same =>
    refine (a.respond r).trans (.same _ fun _ => rfl) (T := Eq) fun x y y' hxy hy => ?_
    cases hy
    exact ⟨hxy.1, hxy.2 ▸ .same _, fun _ => hxy.2⟩
  | zeros b slice hgap hmem =>
    have hn : b.header.len < 2 ^ 62 := by
      have := hmem.length_lt
      rwa [Buffer.zeros, List.length_replicate] at this
    have hboth := (transform_zeros hz hc hx hgap hn slice).trans
      (a.transform (.zeros b.header) slice) (U := SameTransform) fun x y z hxy hyz => by
        cases hxy with
        | accepted h hs hm =>
          cases hyz with
          | accepted h' hs' hm' => exact .accepted (h.trans h') (hs.trans hs') (hm' ▸ hm)
        | rejected h slice why =>
          cases hyz with
          | rejected h' => exact .rejected (h.trans h') _ _
    refine hboth.bind fun x y hxy => ?_
    have hne : ¬(Request.transform (⟨b, slice⟩ : Job α) = .transform ⟨.zeros b.header, slice⟩) := by
      intro he
      have hsame := congr_arg (fun j => j.buffer.header.gap) (Request.transform.inj he)
      exact Bool.false_ne_true (hsame.symm.trans hgap)
    cases hxy with
    | accepted h hs hm =>
      refine .ok ⟨h, ?_, fun he => absurd he hne⟩
      rw [hs]
      exact .transformed _ hm
    | rejected h slice why => exact .ok ⟨h, .same _, fun he => absurd he hne⟩

theorem Valid.rates_of_respond {P : Conversion → Kernel α ρ → Prop} (hc : c.Valid P)
    {r : Request (Job α)} {y : Reply (List α)} (h : c.respond r = .ok (d, y)) :
    (d.setup.rateIn = c.setup.rateIn ∧ d.setup.rateOut = c.setup.rateOut) ∨
      ∃ config, r = .configure config ∧ d.setup.config = config := by
  cases step_of_respond h with
  | kept | quality | latency | reset => exact .inl ⟨rfl, rfl⟩
  | transformed ht =>
    obtain ⟨e, he, hs⟩ := exists_enter_of_transform ht
    rw [hs]
    exact .inl (hc.rates_of_enter he)
  | configured hs => exact .inr ⟨_, rfl, (check_eq_ok hs).1⟩

theorem Valid.exactWeights_of_respond {P : Conversion → Kernel α ρ → Prop} (hc : c.Valid P)
    (hx : c.setup.config.ExactWeights ρ) {r : Request (Job α)}
    (hr : ∀ config, r = .configure config → config.ExactWeights ρ) {y : Reply (List α)}
    (h : c.respond r = .ok (d, y)) : d.setup.config.ExactWeights ρ := by
  rcases hc.rates_of_respond h with ⟨hin, hout⟩ | ⟨config, rfl, hconfig⟩
  · exact Setup.exactWeights_of_rates hx hin hout
  · rw [hconfig]
    exact hr config rfl

/-- Replies to two lists of requests: those to equal requests are equal. -/
structure Agree (rs qs : List (Request (Job α))) (ys zs : List (Reply (List α))) : Prop where
  outputs : List.Forall₂ SameOutput ys zs
  others (i : Nat) : rs[i]? = qs[i]? → ys[i]? = zs[i]?

theorem run_zeroFilled (hz : InertZeros α ρ) (hc : c.Valid Kernel.Poised) (a : c.Alike d)
    {rs qs : List (Request (Job α))} (h : List.Forall₂ ZeroFilled rs qs)
    (hx : c.setup.config.ExactWeights ρ)
    (hxs : ∀ config, .configure config ∈ rs → config.ExactWeights ρ) :
    Checked.Both (fun x y => x.1.Alike y.1 ∧ Agree rs qs x.2 y.2) (c.run rs) (d.run qs) := by
  induction h generalizing c d with
  | nil => exact .ok ⟨a, .nil, fun _ _ => rfl⟩
  | @cons r q rs qs h _ ih =>
    refine (respond_zeroFilled hz hc hx a h).bind_of_ok ?_
    rintro ⟨c', y⟩ ⟨d', z⟩ hr ⟨h1, h2, h3⟩
    have hx' : c'.setup.config.ExactWeights ρ :=
      hc.exactWeights_of_respond hx (fun config h => hxs config (h ▸ List.mem_cons_self)) hr
    have hrest := ih (hc.respond Kernel.poised_stable hr) h1 hx' fun config hmem =>
      hxs config (List.mem_cons_of_mem r hmem)
    refine hrest.bind ?_
    rintro ⟨c'', ys⟩ ⟨d'', zs⟩ ⟨h4, h5⟩
    refine .ok ⟨h4, .cons h2 h5.outputs, fun i hi => ?_⟩
    cases i with
    | zero =>
      simp only [List.getElem?_cons_zero, Option.some.injEq] at hi ⊢
      exact h3 hi
    | succ i =>
      simp only [List.getElem?_cons_succ] at hi ⊢
      exact h5.others i hi

/-- A gap is the same as its zeros. In arithmetic where zeros are inert and half weights add
up, putting zeros in place of any gaps of a run leads to the same faults or to the same
replies but for the marks of those gaps, and to a state that cannot be told apart. -/
theorem gaps_are_zeros (hz : InertZeros α ρ) (hc : c.Reachable)
    {rs qs : List (Request (Job α))} (h : List.Forall₂ ZeroFilled rs qs)
    (hx : c.setup.config.ExactWeights ρ)
    (hxs : ∀ config, .configure config ∈ rs → config.ExactWeights ρ) :
    Checked.Both
      (fun x y => Agree rs qs x.2 y.2 ∧ x.1.Indistinguishable y.1)
      (c.run rs) (c.run qs) := by
  refine (run_zeroFilled hz (hc.valid Kernel.poised_stable) (.refl c) h hx hxs).mono ?_
  rintro x y ⟨halike, hagree⟩
  exact ⟨hagree, halike.indistinguishable⟩

end Converter

/-! Rational samples, in whose arithmetic nothing is rounded. -/

namespace Rational

def ofFloat (x : Float) : ℚ := (x.frExp.1.scaleB 53).toInt64.toInt * (2 : ℚ) ^ (x.frExp.2 - 53)

instance : Scalar ℚ := ⟨fun n d => n / d, ofFloat⟩
instance : Sample ℚ ℚ := ⟨fun x => x == 0, fun x t => x * t, fun x w => x / w⟩
instance : Element ℚ := ⟨.f64⟩

theorem inertZeros : InertZeros ℚ ℚ where
  eq_zero _ h := eq_of_beq h
  add_zero := add_zero 0
  sub_zero := sub_zero 0
  scale_zero t := zero_mul t
  divide_weight _ _ := zero_div _
  divide_two := zero_div _

theorem exactWeights (c : Config) : c.ExactWeights ℚ := by
  intro a b _
  simp only [TaperedMean.halves, Scalar.ofRatio]
  push_cast
  rw [add_div]

def halving : Setup where
  config :=
    { rateIn := .two, rateOut := .one, type := .f64, quality := 1 }
  conversion := .down 2 .tukey false

def piece (offset : Nat) (xs : List ℚ) (room : Nat) : Request (Job ℚ) :=
  .transform ⟨⟨{ len := xs.length, offset, timestamp? := some 0 }, xs⟩, List.replicate room 0⟩

def gap (offset len room : Nat) : Request (Job ℚ) :=
  .transform ⟨⟨{ len, offset, timestamp? := some 0, gap := true }, []⟩, List.replicate room 0⟩

end Rational

open Rational in
theorem Converter.gaps_are_zeros_between_samples :
    ∃ x y,
      (ofSetup halving).run [piece 0 [1, 2, 3] 2, gap 3 4 2, piece 7 [4, 5] 1] = .ok x ∧
      (ofSetup halving).run [piece 0 [1, 2, 3] 2, piece 3 [0, 0, 0, 0] 2, piece 7 [4, 5] 1] =
        .ok y ∧
      Agree [piece 0 [1, 2, 3] 2, gap 3 4 2, piece 7 [4, 5] 1]
        [piece 0 [1, 2, 3] 2, piece 3 [0, 0, 0, 0] 2, piece 7 [4, 5] 1] x.2 y.2 := by
  have hc : (ofSetup halving : Converter ℚ ℚ).Reachable :=
    .made (show ofConfig halving.config = .ok (ofSetup halving) from rfl)
  obtain ⟨y, hy⟩ : ∃ y, (ofSetup halving).run
      [piece 0 [1, 2, 3] 2, piece 3 [0, 0, 0, 0] 2, piece 7 [4, 5] 1] = .ok y := ⟨_, rfl⟩
  have hfill : List.Forall₂ ZeroFilled [piece 0 [1, 2, 3] 2, gap 3 4 2, piece 7 [4, 5] 1]
      [piece 0 [1, 2, 3] 2, piece 3 [0, 0, 0, 0] 2, piece 7 [4, 5] 1] :=
    .cons (.same _) (.cons
      (.zeros ⟨{ len := 4, offset := 3, timestamp? := some 0, gap := true }, []⟩
      _ rfl (by unfold Buffer.Addressable; decide)) (.cons (.same _) .nil))
  have hboth := gaps_are_zeros inertZeros hc hfill (exactWeights _) fun config _ =>
    exactWeights config
  rw [hy] at hboth
  obtain ⟨x, hx, hagree, -⟩ := hboth.exists_left
  exact ⟨x, y, hx, hy, hagree⟩

end RateConversion
