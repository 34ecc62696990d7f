import RateConversion.Proofs.ComplexParts
import RateConversion.Proofs.MixedKernels

/-! Superposition. Take three runs of one converter on the same requests, but that the buffers
of the third hold sums of the samples of the other two, each taken a number of times. Then the
outputs of the third run are such sums of the other outputs, and all stamps agree but for the
marks of gaps. In a gap the third run may be silent where the other two cancel out. -/

namespace RateConversion

structure Stamp.Agrees (gap : Bool) (m p : Stamp) : Prop where
  span : m.SameSpan p
  marks : gap = false → p = m

theorem Segment.stamp_agrees (s : Segment) (rateOut len : Nat) (gap : Bool) (loud loud' : Nat) :
    Checked.Both (fun p q => p.1 = q.1 ∧ p.2.Agrees gap q.2) (s.stamp rateOut len gap loud)
      (s.stamp rateOut len gap loud') := by
  cases gap with
  | false => exact .same _ fun _ => ⟨rfl, rfl, fun _ => rfl⟩
  | true => exact (s.stamp_sameSpan rateOut len true true loud loud').mono fun p q h =>
      ⟨h.1, h.2, nofun⟩

theorem Segment.stamp_jointly (granted : Prop) (s : Segment) (rateOut len : Nat) (gap : Bool)
    (l₁ l₂ l₃ : Nat) :
    Checked.Jointly granted
      (fun p q r => p.1 = q.1 ∧ p.1 = r.1 ∧ p.2.Agrees gap q.2 ∧ p.2.Agrees gap r.2)
      (s.stamp rateOut len gap l₁) (s.stamp rateOut len gap l₂) (s.stamp rateOut len gap l₃) := by
  have h₂ := s.stamp_agrees rateOut len gap l₁ l₂
  have h₃ := s.stamp_agrees rateOut len gap l₁ l₃
  exact h₂.within.jointly h₃.within fun p q r _ _ _ hq hr => ⟨hq.1, hr.1, hq.2, hr.2⟩

section Spans

variable {α ρ : Type} [Zero α] [Add α] [Sub α] [Add ρ] [Mul ρ] [Scalar ρ] [Sample α ρ]
  {c : Converter α ρ} {P : Conversion → Kernel α ρ → Prop}

theorem Converter.span_of_absorb (hP : Kernel.Stable P) (hc : c.Valid P) {buffer : Buffer α}
    {n : Nat} {p : Converter α ρ × List α × Stamp} (hp : c.absorb buffer n = .ok p) :
    p.2.1.length = n ∧ p.2.2.offsetEnd = p.2.2.offset + n := by
  rw [absorb_eq] at hp
  obtain ⟨d, hd, hp⟩ := Checked.bind_eq_ok_iff.mp hp
  have hlen := length_of_proceed hp
  obtain ⟨_, -, -, -, -, -, rfl⟩ := exists_of_proceed (hc.enter hP hd).ordered hp
  exact ⟨hlen, rfl⟩

end Spans

section Requests

variable {α ρ : Type} [Field ρ] [AddCommGroup α] [Module ρ α]

/-- Three requests that are one, but that the buffer of the third holds the sums of the samples
in the other two. Their slices are of one length. -/
inductive Request.Mixed (a b : ρ) :
    Request (Job α) → Request (Job α) → Request (Job α) → Prop
  | transform (header : Header) {xs ys zs s t u : List α}
    (hs : header.gap = false → RateConversion.Mixed a b xs ys zs) (ht : t.length = s.length)
    (hu : u.length = s.length) :
    Mixed a b (.transform ⟨⟨header, xs⟩, s⟩) (.transform ⟨⟨header, ys⟩, t⟩)
      (.transform ⟨⟨header, zs⟩, u⟩)
  | same {q : Request (Job α)} (hq : ∀ job, q ≠ .transform job) : Mixed a b q q q

inductive Request.MixAll (a b : ρ) :
    List (Request (Job α)) → List (Request (Job α)) → List (Request (Job α)) → Prop
  | nil : MixAll a b [] [] []
  | cons {q q' q'' : Request (Job α)} {qs qs' qs'' : List (Request (Job α))}
    (h : q.Mixed a b q' q'') (hs : MixAll a b qs qs' qs'') :
    MixAll a b (q :: qs) (q' :: qs') (q'' :: qs'')

/-- The replies to three such requests. What is put out for the third are the sums of what is
put out for the others, and the stamps agree but for the marks of a gap. -/
inductive Reply.Mixed (a b : ρ) (q : Request (Job α)) :
    Reply (List α) → Reply (List α) → Reply (List α) → Prop
  | transformed {xs ys zs : List α} {m p r : Stamp} {n : Nat} (hspan : m.offsetEnd = m.offset + n)
    (hn : n ≤ xs.length)
    (hs : RateConversion.Mixed a b (xs.take n) (ys.take n) (zs.take n))
    (hp : m.SameSpan p) (hr : m.SameSpan r) (hmarks : ¬q.IsGap → p = m ∧ r = m) :
    Mixed a b q (.transformed xs m) (.transformed ys p) (.transformed zs r)
  | rejected (xs ys zs : List α) (why : Rejection) :
    Mixed a b q (.rejected xs why) (.rejected ys why) (.rejected zs why)
  | other (hq : ∀ job, q ≠ .transform job) (y : Reply (List α)) : Mixed a b q y y y

inductive Reply.MixAll (a b : ρ) : List (Request (Job α)) → List (Reply (List α)) →
    List (Reply (List α)) → List (Reply (List α)) → Prop
  | nil : MixAll a b [] [] [] []
  | cons {q : Request (Job α)} {qs : List (Request (Job α))} {y y' y'' : Reply (List α)}
    {ys ys' ys'' : List (Reply (List α))} (h : y.Mixed a b q y' y'')
    (hs : MixAll a b qs ys ys' ys'') :
    MixAll a b (q :: qs) (y :: ys) (y' :: ys') (y'' :: ys'')

end Requests

namespace Converter

variable {α ρ : Type} [Field ρ] [AddCommGroup α] [Module ρ α] [Scalar ρ] {a b : ρ}

inductive Mixed (a b : ρ) : Converter α ρ → Converter α ρ → Converter α ρ → Prop
  | kernels (setup : Setup) (staged? : Option Setup) (segment : Segment) {k l m : Kernel α ρ}
    {t u v : Option (SincTable ρ)} {x y z : Zeros α} (h : k.Mixed a b l m) :
    Mixed a b ⟨setup, staged?, k, t, x, segment⟩ ⟨setup, staged?, l, u, y, segment⟩
      ⟨setup, staged?, m, v, z, segment⟩

inductive Mixed.OnTransform (a b : ρ) (gap : Bool) :
    Except (Rejected (Converter α ρ) (List α)) (Transformed α ρ) →
      Except (Rejected (Converter α ρ) (List α)) (Transformed α ρ) →
      Except (Rejected (Converter α ρ) (List α)) (Transformed α ρ) → Prop
  | accepted {t u v : Transformed α ρ} {n : Nat}
    (h : t.converter.Mixed a b u.converter v.converter)
    (hspan : t.stamp.offsetEnd = t.stamp.offset + n) (hn : n ≤ t.slice.length)
    (hs : RateConversion.Mixed a b (t.slice.take n) (u.slice.take n) (v.slice.take n))
    (hu : t.stamp.Agrees gap u.stamp) (hv : t.stamp.Agrees gap v.stamp) :
    OnTransform a b gap (.ok t) (.ok u) (.ok v)
  | rejected {c d r : Converter α ρ} (h : c.Mixed a b d r) (s t u : List α) (why : Rejection) :
    OnTransform a b gap (.error ⟨c, s, why⟩) (.error ⟨d, t, why⟩) (.error ⟨r, u, why⟩)

section Settings

variable {c d r : Converter α ρ}

theorem Mixed.predict (h : c.Mixed a b d r) (header : Header) :
    d.predict header = c.predict header ∧ r.predict header = c.predict header := by
  obtain ⟨setup, staged?, segment, hkernel⟩ := h
  obtain ⟨hl, hm⟩ := hkernel.outputLen header.len
  simp only [Converter.predict, hl, hm]
  exact ⟨rfl, rfl⟩

variable [Sample α ρ]

theorem mixed_build (e : Exact α ρ) (a b : ρ) (conv : Conversion)
    (t u v : Option (SincTable ρ)) :
    (Kernel.build t conv : Kernel α ρ × _).1.Mixed a b (Kernel.build u conv).1
      (Kernel.build v conv).1 := by
  simp only [Kernel.build_fst]
  exact Kernel.mixed_ofConversion e a b conv

theorem mixed_ofSetup (e : Exact α ρ) (a b : ρ) (s : Setup) :
    (ofSetup s : Converter α ρ).Mixed a b (ofSetup s) (ofSetup s) :=
  .kernels s none .idle (mixed_build e a b s.conversion none none none)

namespace Mixed

theorem reset (e : Exact α ρ) (h : c.Mixed a b d r) : c.reset.Mixed a b d.reset r.reset := by
  obtain ⟨setup, staged?, segment, hkernel⟩ := h
  exact .kernels setup staged? .idle (hkernel.reset e 0)

theorem adopt (e : Exact α ρ) (h : c.Mixed a b d r) : c.adopt.Mixed a b d.adopt r.adopt := by
  obtain ⟨setup, staged?, segment, hkernel⟩ := h
  cases staged? with
  | none => exact .kernels setup none segment hkernel
  | some s =>
    simp only [Converter.adopt]
    split_ifs
    · exact .kernels s none segment hkernel
    · exact .kernels s none segment (mixed_build e a b s.conversion _ _ _)

theorem openSegment (e : Exact α ρ) (h : c.Mixed a b d r) (header : Header) (granted : Prop) :
    Checked.Jointly granted (Mixed a b) (c.openSegment header) (d.openSegment header)
      (r.openSegment header) := by
  have hadopt := h.adopt e
  simp only [Converter.openSegment]
  generalize c.adopt = c', d.adopt = d', r.adopt = r' at hadopt ⊢
  obtain ⟨setup, staged?, segment, hkernel⟩ := hadopt
  exact .bind_same fun s _ => .ok (.kernels setup staged? s (hkernel.reset e _))

theorem enter (e : Exact α ρ) (h : c.Mixed a b d r) (header : Header) (granted : Prop) :
    Checked.Jointly granted (Mixed a b) (c.enter header) (d.enter header) (r.enter header) := by
  have hopen := h.openSegment e header granted
  obtain ⟨setup, staged?, segment, hkernel⟩ := h
  simp only [Converter.enter]
  split_ifs
  · exact .ok (.kernels setup staged? segment hkernel)
  · exact hopen

variable [Element α]

theorem respond (e : Exact α ρ) (h : c.Mixed a b d r) {q : Request (Job α)}
    (hq : ∀ job, q ≠ .transform job) (granted : Prop) :
    Checked.Jointly granted (fun x y z => x.1.Mixed a b y.1 z.1 ∧ x.2.Mixed a b q y.2 z.2)
      (c.respond q) (d.respond q) (r.respond q) := by
  cases q with
  | transform job => exact absurd rfl (hq job)
  | predict header =>
    obtain ⟨hpredict₁, hpredict₂⟩ := h.predict header
    simp only [Converter.respond, hpredict₁, hpredict₂]
    exact .bind_same fun n _ => .ok ⟨h, .other hq _⟩
  | required n =>
    obtain ⟨setup, staged?, segment, hkernel⟩ := h
    simp only [Converter.respond, Converter.requiredLen]
    exact .bind_same fun n _ => .ok ⟨.kernels setup staged? segment hkernel, .other hq _⟩
  | setQuality q =>
    obtain ⟨setup, staged?, segment, hkernel⟩ := h
    simp only [Converter.respond, Converter.setQuality, Converter.pending]
    cases (staged?.getD setup).withQuality q with
    | error why => exact .ok ⟨.kernels setup staged? segment hkernel, .other hq _⟩
    | ok s => exact .ok ⟨.kernels setup (some s) segment hkernel, .other hq _⟩
  | setZeroLatency latency =>
    obtain ⟨setup, staged?, segment, hkernel⟩ := h
    exact .ok ⟨.kernels setup _ segment hkernel, .other hq _⟩
  | configure config =>
    simp only [Converter.respond, Converter.configure]
    cases check α config with
    | error why => exact .ok ⟨h, .other hq _⟩
    | ok s =>
      obtain ⟨setup, staged?, segment, -⟩ := h
      have hkernel := mixed_build e a b s.conversion
      exact .ok ⟨.kernels s none .idle ((hkernel _ _ _).reset e 0), .other hq _⟩
  | reset => exact .ok ⟨h.reset e, .other hq _⟩
  | split m =>
    obtain ⟨setup, staged?, segment, hkernel⟩ := h
    simp only [Converter.respond, Converter.splitStamp]
    exact .bind_same fun parts _ => .ok ⟨.kernels setup staged? segment hkernel, .other hq _⟩

end Mixed

end Settings

variable [Sample α ρ]

structure Superposed (a b : ρ) (c d r : Converter α ρ) : Prop where
  mixed : c.Mixed a b d r
  first : c.Valid Kernel.Poised
  second : d.Valid Kernel.Poised
  third : r.Valid Kernel.Poised

namespace Superposed

variable {c d r : Converter α ρ} {header : Header} {xs ys zs : List α}

theorem enter (e : Exact α ρ) (h : Superposed a b c d r) (header : Header) (granted : Prop) :
    Checked.Jointly granted (Superposed a b) (c.enter header) (d.enter header)
      (r.enter header) :=
  (h.mixed.enter e header granted).mono fun _ _ _ hc hd hr hmixed =>
    ⟨hmixed, h.first.enter Kernel.poised_stable hc, h.second.enter Kernel.poised_stable hd,
      h.third.enter Kernel.poised_stable hr⟩

theorem proceed (e : Exact α ρ) (hz : InertZeros α ρ) (h : Superposed a b c d r)
    (hs : header.gap = false → RateConversion.Mixed a b xs ys zs) (n : Nat) :
    Checked.Jointly (header.gap = true ∧ 2 ^ 62 ≤ header.len)
      (fun p q s => p.1.Mixed a b q.1 s.1 ∧ RateConversion.Mixed a b p.2.1 q.2.1 s.2.1 ∧
        p.2.2.Agrees header.gap q.2.2 ∧ p.2.2.Agrees header.gap s.2.2)
      (c.proceed ⟨header, xs⟩ n) (d.proceed ⟨header, ys⟩ n) (r.proceed ⟨header, zs⟩ n) := by
  obtain ⟨hmixed, hc, hd, hr⟩ := h
  have hx := hc.setup.exact (e.exactWeights _)
  obtain ⟨setup, staged?, segment, hkernel⟩ := hmixed
  obtain ⟨hl, hm⟩ := hkernel.outputLen header.len
  simp only [Converter.proceed, hl, hm]
  refine .bind_same fun nextIn hin => ?_
  have hshort : header.len < 2 ^ 64 := by
    have := (Checked.add_eq_ok_iff.mp hin).2
    omega
  refine .bind_same fun len hlen => .bind_same fun _ hn => ?_
  cases Checked.require_eq_ok_iff.mp hn
  cases Kernel.eq_yield_of_outputLen hlen
  have hgive := hkernel.give_jointly e hz hc.kernel hd.kernel hr.kernel hx hshort hs
  refine hgive.bind fun p q s _ _ _ hpqs => ?_
  obtain ⟨hnext, hout⟩ := hpqs
  rw [hout.length.1, hout.length.2]
  refine .bind_same fun _ _ => ?_
  refine (Segment.stamp_jointly _ _ _ _ _ _ _ _).bind fun x y z _ _ _ hxyz => ?_
  obtain ⟨hy, hz, hagree⟩ := hxyz
  rw [← hy, ← hz]
  exact .ok ⟨.kernels setup staged? x.1 hnext, hout, hagree⟩

theorem absorb (e : Exact α ρ) (hz : InertZeros α ρ) (h : Superposed a b c d r)
    (hs : header.gap = false → RateConversion.Mixed a b xs ys zs) (n : Nat) :
    Checked.Jointly (header.gap = true ∧ 2 ^ 62 ≤ header.len)
      (fun p q s => p.1.Mixed a b q.1 s.1 ∧ RateConversion.Mixed a b p.2.1 q.2.1 s.2.1 ∧
        p.2.2.Agrees header.gap q.2.2 ∧ p.2.2.Agrees header.gap s.2.2)
      (c.absorb ⟨header, xs⟩ n) (d.absorb ⟨header, ys⟩ n) (r.absorb ⟨header, zs⟩ n) := by
  rw [absorb_eq, absorb_eq, absorb_eq]
  exact (h.enter e header _).bind fun c' d' r' _ _ _ h' => h'.proceed e hz hs n

theorem transform (e : Exact α ρ) (hz : InertZeros α ρ) (h : Superposed a b c d r)
    (hs : header.gap = false → RateConversion.Mixed a b xs ys zs) {s t u : List α}
    (ht : t.length = s.length) (hu : u.length = s.length) :
    Checked.Jointly (header.gap = true ∧ 2 ^ 62 ≤ header.len) (Mixed.OnTransform a b header.gap)
      (c.transform ⟨header, xs⟩ s) (d.transform ⟨header, ys⟩ t)
      (r.transform ⟨header, zs⟩ u) := by
  obtain ⟨hpredict₁, hpredict₂⟩ := h.mixed.predict header
  -- A buffer that does not hold what its header says is turned away in all three runs.
  by_cases himproper : header.gap = false ∧ xs.length ≠ header.len
  · obtain ⟨hlen₁, hlen₂⟩ := (hs himproper.1).length
    simp only [Converter.transform, hlen₁, hlen₂, if_pos himproper]
    exact .ok (.rejected h.mixed _ _ _ _)
  · have hproper₁ : ¬(header.gap = false ∧ ys.length ≠ header.len) := by
      rintro ⟨hg, hne⟩
      exact himproper ⟨hg, (hs hg).length.1 ▸ hne⟩
    have hproper₂ : ¬(header.gap = false ∧ zs.length ≠ header.len) := by
      rintro ⟨hg, hne⟩
      exact himproper ⟨hg, (hs hg).length.2 ▸ hne⟩
    simp only [Converter.transform, if_neg himproper, if_neg hproper₁, if_neg hproper₂,
      hpredict₁, hpredict₂, ht, hu]
    refine .bind_same fun n _ => ?_
    split_ifs with hfit
    · exact .ok (.rejected h.mixed _ _ _ _)
    · refine (h.absorb e hz hs n).bind fun p q v hp _ _ hpqv => ?_
      obtain ⟨hnext, hout, hagree₁, hagree₂⟩ := hpqv
      obtain ⟨hlen, hspan⟩ := span_of_absorb Kernel.poised_stable h.first hp
      obtain ⟨hlen₁, hlen₂⟩ := hout.length
      refine .ok (Mixed.OnTransform.accepted hnext hspan ?_ ?_ hagree₁ hagree₂)
      · rw [List.length_append, hlen]
        exact Nat.le_add_right _ _
      · rw [List.take_left' hlen, List.take_left' (hlen₁.trans hlen),
          List.take_left' (hlen₂.trans hlen)]
        exact hout

variable [Element α]

theorem respond (e : Exact α ρ) (hz : InertZeros α ρ) (h : Superposed a b c d r)
    {q q' q'' : Request (Job α)} (hq : q.Mixed a b q' q'') :
    Checked.Jointly q.IsVast
      (fun x y z => Superposed a b x.1 y.1 z.1 ∧ x.2.Mixed a b q y.2 z.2) (c.respond q)
      (d.respond q') (r.respond q'') := by
  have hmixed : Checked.Jointly q.IsVast
      (fun x y z => x.1.Mixed a b y.1 z.1 ∧ x.2.Mixed a b q y.2 z.2) (c.respond q)
      (d.respond q') (r.respond q'') := by
    cases hq with
    | transform header hs ht hu =>
      refine (h.transform e hz hs ht hu).bind fun x y z _ _ _ hxyz => ?_
      cases hxyz with
      | accepted hnext hspan hn hs hu hv =>
        refine .ok ⟨hnext, .transformed hspan hn hs hu.span hv.span fun hgap => ?_⟩
        have hdata := Bool.eq_false_iff.mpr hgap
        exact ⟨hu.marks hdata, hv.marks hdata⟩
      | rejected h s t u why => exact .ok ⟨h, .rejected s t u why⟩
    | same hq => exact h.mixed.respond e hq _
  refine hmixed.mono fun x y z hx hy hz' hxyz => ⟨⟨hxyz.1, ?_, ?_, ?_⟩, hxyz.2⟩
  · exact h.first.respond Kernel.poised_stable hx
  · exact h.second.respond Kernel.poised_stable hy
  · exact h.third.respond Kernel.poised_stable hz'

theorem run (e : Exact α ρ) (hz : InertZeros α ρ) (h : Superposed a b c d r)
    {qs qs' qs'' : List (Request (Job α))} (hqs : Request.MixAll a b qs qs' qs'') :
    Checked.Jointly (∃ q ∈ qs, q.IsVast) (fun x y z => Reply.MixAll a b qs x.2 y.2 z.2)
      (c.run qs) (d.run qs') (r.run qs'') := by
  induction hqs generalizing c d r with
  | nil => exact .ok .nil
  | @cons q q' q'' qs qs' qs'' hq _ ih =>
    have hfirst := h.respond e hz hq
    refine (hfirst.imp fun hvast => ⟨q, List.mem_cons_self, hvast⟩).bind
      fun x y z _ _ _ hxyz => ?_
    refine ((ih hxyz.1).imp ?_).bind fun x' y' z' _ _ _ hxyz' => .ok (.cons hxyz.2 hxyz')
    rintro ⟨q, hmem, hvast⟩
    exact ⟨q, List.mem_cons_of_mem _ hmem, hvast⟩

end Superposed

/-- Superposition. If the buffers of three runs have the same headers and those of the third
hold `a` times the samples of the first plus `b` times the samples of the second, then so do the
outputs, and the stamps agree but for the marks of gaps. The runs meet the same faults, unless
one of them overflows in a gap of 2 ^ 62 samples or more, which it may pass over where another
is fed it. -/
theorem superposition [Element α] (e : Exact α ρ) (hzero : ∀ x : α, isZero x = true → x = 0)
    (a b : ρ) {config : Config} {c : Converter α ρ} (hc : ofConfig config = .ok c)
    {rs rs' rs'' : List (Request (Job α))} (hrs : Request.MixAll a b rs rs' rs'') :
    Checked.Jointly (∃ q ∈ rs, q.IsVast) (fun x y z => Reply.MixAll a b rs x.2 y.2 z.2)
      (c.run rs) (c.run rs') (c.run rs'') := by
  have hvalid := (Reachable.made hc).valid Kernel.poised_stable
  obtain ⟨s, -, -, rfl⟩ := ofConfig_eq_ok hc
  have hsuperposed : Superposed a b (ofSetup s : Converter α ρ) (ofSetup s) (ofSetup s) :=
    ⟨mixed_ofSetup e a b s, hvalid, hvalid, hvalid⟩
  exact hsuperposed.run e (e.inertZeros hzero) hrs

end Converter

namespace Rational

def point (z : Complex ℚ) : Request (Job (Complex ℚ)) :=
  .transform ⟨⟨⟨1, 0, some 0, false, false⟩, [z]⟩, []⟩

def pause : Request (Job (Complex ℚ)) :=
  .transform ⟨⟨⟨2, 1, some 0, true, false⟩, []⟩, List.replicate 6 0⟩

end Rational

open Rational in
/-- Two complex points that cancel out. The first two runs draw lines into the gap, where the
third is silent. -/
theorem Converter.superposition_of_cancelling_points :
    ∃ x y z, (ofSetup Rational.lines).run [point ⟨1, 3⟩, pause] = .ok x ∧
      (ofSetup Rational.lines).run [point ⟨2, 6⟩, pause] = .ok y ∧
      (ofSetup Rational.lines).run [point 0, pause] = .ok z ∧
      Reply.MixAll (2 : ℚ) (-1) [point ⟨1, 3⟩, pause] x.2 y.2 z.2 := by
  have hmade : ofConfig Rational.lines.config =
      .ok (ofSetup Rational.lines : Converter (Complex ℚ) ℚ) := rfl
  have hzero (z : Complex ℚ) (h : isZero z = true) : z = 0 :=
    (Complex.inertZeros inertZeros).eq_zero z h
  have hpoints : RateConversion.Mixed (2 : ℚ) (-1) [(⟨1, 3⟩ : Complex ℚ)] [⟨2, 6⟩] [0] :=
    ⟨rfl, by decide +kernel⟩
  have hrequests : Request.MixAll (2 : ℚ) (-1) [point ⟨1, 3⟩, pause] [point ⟨2, 6⟩, pause]
      [point 0, pause] :=
    .cons (.transform _ (fun _ => hpoints) rfl rfl) (.cons (.transform _ nofun rfl rfl) .nil)
  have hjoint := superposition (Complex.exact Rational.exact) hzero 2 (-1) hmade hrequests
  -- Spelled out as zeros the gap can be run through.
  have hfill : List.Forall₂ ZeroFilled [point ⟨1, 3⟩, pause]
      [point ⟨1, 3⟩, .transform ⟨.zeros ⟨2, 1, some 0, true, false⟩, List.replicate 6 0⟩] :=
    .cons (.same _) (.cons (.zeros _ _ rfl (by unfold Buffer.Addressable; decide)) .nil)
  obtain ⟨y, hy⟩ : ∃ y, (ofSetup Rational.lines : Converter (Complex ℚ) ℚ).run
      [point ⟨1, 3⟩, .transform ⟨.zeros ⟨2, 1, some 0, true, false⟩, List.replicate 6 0⟩] =
        .ok y := ⟨_, rfl⟩
  have hboth := run_zeroFilled (Complex.inertZeros inertZeros)
    ((Reachable.made hmade).valid Kernel.poised_stable) (.refl _) hfill (exactWeights _)
    fun config _ => exactWeights config
  rw [hy] at hboth
  obtain ⟨x, hx, -⟩ := hboth.exists_left
  have hshort : ¬∃ q ∈ [point ⟨1, 3⟩, pause], q.IsVast := by
    simp [point, pause, Request.IsVast]
  obtain ⟨y, z, hy, hz, hmix⟩ := (hx ▸ hjoint).exists_of_ok hshort
  exact ⟨x, y, z, hx, hy, hz, hmix⟩

end RateConversion
