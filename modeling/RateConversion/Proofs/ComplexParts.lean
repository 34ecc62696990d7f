import RateConversion.Proofs.GapImages
import RateConversion.Proofs.GapMarks

/-! A complex stream is two real streams. The real and the imaginary parts of what a complex
stream is converted to are what the streams of its parts are converted to. A gap may take
three ways here: the complex kernel is silent when both of the others are, so the output of
its gaps is silent from the later of the two places on. -/

namespace RateConversion

namespace Complex

theorem isZero_iff {ρ : Type} [Sample ρ ρ] (z : Complex ρ) :
    isZero z = true ↔ isZero z.re = true ∧ isZero z.im = true := Bool.and_eq_true_iff

variable {ρ : Type} [Zero ρ] [Add ρ] [Sub ρ] [Sample ρ ρ]

theorem linear_re : Linear (re : Complex ρ → ρ) :=
  ⟨rfl, fun _ _ => rfl, fun _ _ => rfl, fun _ _ => rfl, fun _ _ => rfl⟩

theorem linear_im : Linear (im : Complex ρ → ρ) :=
  ⟨rfl, fun _ _ => rfl, fun _ _ => rfl, fun _ _ => rfl, fun _ _ => rfl⟩

variable [Scalar ρ]

theorem inertZeros (hz : InertZeros ρ ρ) : InertZeros (Complex ρ) ρ where
  eq_zero z h := by
    obtain ⟨hre, him⟩ := (isZero_iff z).mp h
    exact congr_arg₂ mk (hz.eq_zero _ hre) (hz.eq_zero _ him)
  add_zero := congr_arg₂ mk hz.add_zero hz.add_zero
  sub_zero := congr_arg₂ mk hz.sub_zero hz.sub_zero
  scale_zero t := congr_arg₂ mk (hz.scale_zero t) (hz.scale_zero t)
  divide_weight n hn := congr_arg₂ mk (hz.divide_weight n hn) (hz.divide_weight n hn)
  divide_two := congr_arg₂ mk hz.divide_two hz.divide_two

theorem keepsZeros (hz : InertZeros ρ ρ) (h0 : isZero (0 : ρ) ≠ true) :
    KeepsZeros (re : Complex ρ → ρ) ∧ KeepsZeros (im : Complex ρ → ρ) := by
  have hne (x : ρ) : isZero x = false :=
    Bool.eq_false_iff.mpr fun hx => h0 (hz.eq_zero x hx ▸ hx)
  have hpair (z : Complex ρ) : isZero z = false :=
    Bool.eq_false_iff.mpr fun h => Bool.eq_false_iff.mp (hne z.re) ((isZero_iff z).mp h).1
  exact ⟨fun z => (hne _).trans (hpair z).symm, fun z => (hne _).trans (hpair z).symm⟩

end Complex

theorem length_dropWhile_and {α : Type} (p q : α → Bool) (xs : List α) :
    (xs.dropWhile fun x => p x && q x).length =
      max (xs.dropWhile p).length (xs.dropWhile q).length := by
  induction xs with
  | nil => rfl
  | cons x xs ih =>
    have hp := (List.dropWhile_sublist p (l := xs)).length_le
    have hq := (List.dropWhile_sublist q (l := xs)).length_le
    cases hpx : p x <;> cases hqx : q x <;>
      simp only [List.dropWhile_cons, hpx, hqx, Bool.and_self, Bool.and_true, Bool.and_false,
        if_true, Bool.false_eq_true, if_false, List.length_cons, ih] <;> omega

theorem Kernel.loudLen_parts {ρ : Type} [Sample ρ ρ] (ys : List (Complex ρ)) :
    loudLen ys = max (loudLen (ys.map Complex.re)) (loudLen (ys.map Complex.im)) := by
  simp only [loudLen, ← List.map_reverse, List.dropWhile_map, List.length_map]
  exact length_dropWhile_and _ _ _

structure Stamp.MarksLoud {α ρ : Type} [Sample α ρ] (m : Stamp) (slice : List α) : Prop where
  gap : m.gap = (Kernel.loudLen (slice.take (m.offsetEnd - m.offset)) == 0)
  gapStart : m.gapStart = m.offset + Kernel.loudLen (slice.take (m.offsetEnd - m.offset))

namespace Converter

section Marks

variable {α ρ : Type} [Zero α] [Add α] [Sub α] [Add ρ] [Mul ρ] [Scalar ρ] [Sample α ρ]
  {c d : Converter α ρ} {P : Conversion → Kernel α ρ → Prop}

theorem marksLoud_of_transform (hz : isZero (0 : α) = true) (hP : Kernel.Stable P)
    (hc : c.Valid P) {b : Buffer α} (hg : b.header.gap = true) {slice : List α}
    {t : Transformed α ρ} (ht : c.transform b slice = .ok (.ok t)) : t.stamp.MarksLoud t.slice := by
  obtain ⟨-, n, d, output, -, -, hd, hr, hslice⟩ := exists_of_transform ht
  have hlen : output.length = n := length_of_proceed hr
  obtain ⟨p, hp, -, -, -, -, heq⟩ :=
    exists_of_proceed (hc.enter hP hd).ordered hr
  obtain ⟨-, heq⟩ := Prod.mk.inj heq
  obtain ⟨rfl, hstamp⟩ := Prod.mk.inj heq
  rw [Kernel.give, if_pos hg] at hp
  have hspan : t.stamp.offsetEnd - t.stamp.offset = n := by
    rw [hstamp]
    exact Nat.add_sub_cancel_left _ _
  have hcovered : t.slice.take n = p.output := hslice ▸ List.take_left' hlen
  have hloud := Kernel.loud_feedGap hz hp
  rw [← hcovered, ← hspan] at hloud
  constructor
  · rw [← hloud, hstamp, hg]
    rfl
  · rw [← hloud, hstamp, hg]
    rfl

theorem marksLoud_of_respond [Element α] (hz : isZero (0 : α) = true) (hP : Kernel.Stable P)
    (hc : c.Valid P) (job : Job α) (hg : job.buffer.header.gap = true)
    {slice : List α} {m : Stamp}
    (h : c.respond (.transform job) = .ok (d, .transformed slice m)) : m.MarksLoud slice := by
  obtain ⟨t, ht, h⟩ := Checked.bind_eq_ok_iff.mp h
  cases t with
  | error why => cases h
  | ok t =>
    cases h
    exact marksLoud_of_transform hz hP hc hg ht

end Marks

end Converter

/-- The stamp of a complex stream and those of its parts: the same span, a gap where both parts
have one, and silence from where both are silent. -/
structure Stamp.Joins (m p q : Stamp) : Prop where
  re : m.SameSpan p
  im : m.SameSpan q
  gap : m.gap = (p.gap && q.gap)
  gapStart : m.gapStart = max p.gapStart q.gapStart

theorem Stamp.joins_self (m : Stamp) : m.Joins m m :=
  ⟨rfl, rfl, (Bool.and_self _).symm, (Nat.max_self _).symm⟩

theorem Stamp.Joins.of_marksLoud {ρ : Type} [Sample ρ ρ] {slice : List (Complex ρ)}
    {m p q : Stamp} (hp : m.SameSpan p) (hq : m.SameSpan q) (hm : m.MarksLoud slice)
    (hre : p.MarksLoud (slice.map Complex.re)) (him : q.MarksLoud (slice.map Complex.im)) :
    m.Joins p q := by
  have hspan {t : Stamp} (h : m.SameSpan t) : m.offset = t.offset ∧ m.offsetEnd = t.offsetEnd :=
    ⟨(congr_arg Stamp.offset h :), (congr_arg Stamp.offsetEnd h :)⟩
  obtain ⟨hp1, hp2⟩ := hspan hp
  obtain ⟨hq1, hq2⟩ := hspan hq
  have hloud := Kernel.loudLen_parts (slice.take (m.offsetEnd - m.offset))
  obtain ⟨hgap, hstart⟩ := hm
  obtain ⟨hgap₁, hstart₁⟩ := hre
  obtain ⟨hgap₂, hstart₂⟩ := him
  rw [← hp1, ← hp2, ← List.map_take] at hgap₁ hstart₁
  rw [← hq1, ← hq2, ← List.map_take] at hgap₂ hstart₂
  rw [hloud] at hgap hstart
  refine ⟨hp, hq, ?_, by omega⟩
  rw [hgap, hgap₁, hgap₂, Bool.eq_iff_iff, Bool.and_eq_true, beq_iff_eq, beq_iff_eq, beq_iff_eq]
  omega

inductive Reply.Joins {ρ : Type} [Element ρ] [Element (Complex ρ)] :
    Reply (List (Complex ρ)) → Reply (List ρ) → Reply (List ρ) → Prop
  | transformed (slice : List (Complex ρ)) {m p q : Stamp} (h : m.Joins p q) :
    Joins (.transformed slice m) (.transformed (slice.map Complex.re) p)
      (.transformed (slice.map Complex.im) q)
  | other {y : Reply (List (Complex ρ))} (hy : ∀ slice m, y ≠ .transformed slice m) :
    Joins y (y.image Complex.re) (y.image Complex.im)

theorem Reply.joins_image {ρ : Type} [Element ρ] [Element (Complex ρ)]
    (y : Reply (List (Complex ρ))) : y.Joins (y.image Complex.re) (y.image Complex.im) := by
  cases y with
  | transformed slice m => exact .transformed slice m.joins_self
  | _ => exact .other fun _ _ => nofun

inductive Reply.JoinAll {ρ : Type} [Element ρ] [Element (Complex ρ)] :
    List (Reply (List (Complex ρ))) → List (Reply (List ρ)) → List (Reply (List ρ)) → Prop
  | nil : JoinAll [] [] []
  | cons {y : Reply (List (Complex ρ))} {p q : Reply (List ρ)}
    {ys : List (Reply (List (Complex ρ)))} {ps qs : List (Reply (List ρ))} (h : y.Joins p q)
    (hs : JoinAll ys ps qs) : JoinAll (y :: ys) (p :: ps) (q :: qs)

namespace Converter

variable {ρ : Type} [Zero ρ] [Add ρ] [Sub ρ] [Mul ρ] [Scalar ρ] [Sample ρ ρ] [Element ρ]
  [Element (Complex ρ)] {c : Converter (Complex ρ) ρ} {r i : Converter ρ ρ}

structure Parts (c : Converter (Complex ρ) ρ) (r i : Converter ρ ρ) : Prop where
  re : (c.image Complex.re).Alike r
  im : (c.image Complex.im).Alike i
  undeclared : c.Undeclared
  whole : c.Valid Kernel.Poised
  left : r.Valid Kernel.Poised
  right : i.Valid Kernel.Poised
  exact : c.setup.config.ExactWeights ρ

theorem Parts.joins_of_follows (hzero : isZero (0 : ρ) = true) (h : Parts c r i)
    {q : Request (Job (Complex ρ))} (hg : q.IsGap) {c' : Converter (Complex ρ) ρ}
    {r' i' : Converter ρ ρ} {x : Reply (List (Complex ρ))} {y z : Reply (List ρ)}
    (hx : c.respond q = .ok (c', x)) (hy : r.respond (q.image Complex.re) = .ok (r', y))
    (hz : i.respond (q.image Complex.im) = .ok (i', z)) (hre : x.Follows Complex.re y)
    (him : x.Follows Complex.im z) : x.Joins y z := by
  by_cases ht : ∃ slice m, x = .transformed slice m
  · obtain ⟨slice, m, rfl⟩ := ht
    obtain ⟨p, rfl, hp⟩ := hre.exists_of_transformed
    obtain ⟨t, rfl, ht⟩ := him.exists_of_transformed
    cases q with
    | transform job =>
      have hgap : job.buffer.header.gap = true := hg
      have hpair : isZero (0 : Complex ρ) = true := (Complex.isZero_iff 0).mpr ⟨hzero, hzero⟩
      exact .transformed slice (.of_marksLoud hp ht
        (marksLoud_of_respond hpair Kernel.poised_stable h.whole job hgap hx)
        (marksLoud_of_respond hzero Kernel.poised_stable h.left (job.map _) hgap hy)
        (marksLoud_of_respond hzero Kernel.poised_stable h.right (job.map _) hgap hz))
    | _ => exact hg.elim
  · have hne (slice : List (Complex ρ)) (m : Stamp) : x ≠ .transformed slice m :=
      fun h => ht ⟨slice, m, h⟩
    rw [hre.eq_image hne, him.eq_image hne]
    exact .other hne

theorem Parts.respond (h : Parts c r i) {q : Request (Job (Complex ρ))} (hq : q.Undeclared)
    (hx : ∀ config, q = .configure config → config.ExactWeights ρ)
    {x : Converter (Complex ρ) ρ × Reply (List (Complex ρ))}
    {y z : Converter ρ ρ × Reply (List ρ)} (hc : c.respond q = .ok x)
    (hr : r.respond (q.image Complex.re) = .ok y) (hi : i.respond (q.image Complex.im) = .ok z)
    (hre : (x.1.image Complex.re).Alike y.1) (him : (x.1.image Complex.im).Alike z.1) :
    Parts x.1 y.1 z.1 where
  re := hre
  im := him
  undeclared := h.undeclared.respond hq hc
  whole := h.whole.respond Kernel.poised_stable hc
  left := h.left.respond Kernel.poised_stable hr
  right := h.right.respond Kernel.poised_stable hi
  exact := h.whole.exactWeights_of_respond h.exact hx hc

theorem Parts.respond_jointly (hz : InertZeros ρ ρ) (h : Parts c r i)
    {q : Request (Job (Complex ρ))} (hq : q.Undeclared)
    (hx : ∀ config, q = .configure config → config.ExactWeights ρ) :
    Checked.Jointly q.IsVast (fun x y z => Parts x.1 y.1 z.1 ∧ x.2.Joins y.2 z.2)
      (c.respond q) (r.respond (q.image Complex.re)) (i.respond (q.image Complex.im)) := by
  by_cases hloud : q.IsGap ∧ isZero (0 : ρ) = true
  · -- The kernels may differ in when they are silent, so only the marks of the gap are compared.
    have hpairs := Complex.inertZeros hz
    have hre := h.re.respond_within Complex.linear_re hpairs hz h.undeclared h.whole h.left
      h.exact hq
    have him := h.im.respond_within Complex.linear_im hpairs hz h.undeclared h.whole h.right
      h.exact hq
    refine hre.jointly him fun x y z hc hr hi hxy hxz => ?_
    refine ⟨h.respond hq hx hc hr hi hxy.1 hxz.1, ?_⟩
    exact h.joins_of_follows hloud.2 hloud.1 hc hr hi hxy.2.1 hxz.2.1
  · have hkeeps (hg : q.IsGap) := Complex.keepsZeros hz fun h0 => hloud ⟨hg, h0⟩
    have hre := h.re.respond_image Complex.linear_re h.undeclared hq fun hg => (hkeeps hg).1
    have him := h.im.respond_image Complex.linear_im h.undeclared hq fun hg => (hkeeps hg).2
    refine hre.within.jointly him.within fun x y z hc hr hi hxy hxz => ?_
    refine ⟨h.respond hq hx hc hr hi hxy.1 hxz.1, ?_⟩
    rw [hxy.2, hxz.2]
    exact x.2.joins_image

theorem Parts.run_jointly (hz : InertZeros ρ ρ) (h : Parts c r i)
    {rs : List (Request (Job (Complex ρ)))} (hrs : ∀ q ∈ rs, q.Undeclared)
    (hxs : ∀ config, .configure config ∈ rs → config.ExactWeights ρ) :
    Checked.Jointly (∃ q ∈ rs, q.IsVast) (fun x y z => Reply.JoinAll x.2 y.2 z.2)
      (c.run rs) (r.run (rs.map (Request.image Complex.re)))
      (i.run (rs.map (Request.image Complex.im))) := by
  induction rs generalizing c r i with
  | nil => exact .ok .nil
  | cons q rs ih =>
    have hfirst := h.respond_jointly hz (hrs q List.mem_cons_self) fun config hq =>
      hxs config (hq ▸ List.mem_cons_self)
    refine (hfirst.imp fun hq => ⟨q, List.mem_cons_self, hq⟩).bind fun x y z _ _ _ hxyz => ?_
    have hrest := ih hxyz.1 (fun q hmem => hrs q (List.mem_cons_of_mem _ hmem))
      fun config hmem => hxs config (List.mem_cons_of_mem _ hmem)
    refine (hrest.imp fun hq => ?_).bind fun x' y' z' _ _ _ hxyz' => .ok (.cons hxyz.2 hxyz')
    obtain ⟨q, hmem, hvast⟩ := hq
    exact ⟨q, List.mem_cons_of_mem _ hmem, hvast⟩

/-- A complex stream is two real streams. The converters of both kinds are made and refused
alike. Over data, whatever the arithmetic, the runs of the parts meet the same faults and give
the parts of what the complex run gives. Where zeros are inert and half weights add up, this
holds of gaps too but for their marks, which join. A gap of 2 ^ 62 samples or more may
overflow in one of the three runs alone, as it is not fed where it is passed over. -/
theorem complex_is_two_reals {config : Config} (hunit : config.unitSize? = none) :
    (∀ why, (ofConfig config : Except ConfigError (Converter (Complex ρ) ρ)) = .error why →
      (ofConfig (config.retype (exchange (Complex ρ) ρ)) : Except ConfigError (Converter ρ ρ)) =
        .error (why.retype (exchange (Complex ρ) ρ))) ∧
    ∀ c : Converter (Complex ρ) ρ, ofConfig config = .ok c →
      ∃ r : Converter ρ ρ, ofConfig (config.retype (exchange (Complex ρ) ρ)) = .ok r ∧
        ∀ rs : List (Request (Job (Complex ρ))), (∀ q ∈ rs, q.Undeclared) →
          ((∀ q ∈ rs, ¬q.IsGap) →
            r.run (rs.map (Request.image Complex.re)) =
                (c.run rs).map (Prod.map (image Complex.re) (List.map (Reply.image Complex.re))) ∧
              r.run (rs.map (Request.image Complex.im)) =
                (c.run rs).map
                  (Prod.map (image Complex.im) (List.map (Reply.image Complex.im)))) ∧
          (InertZeros ρ ρ → config.ExactWeights ρ →
            (∀ config', .configure config' ∈ rs → config'.ExactWeights ρ) →
            Checked.Jointly (∃ q ∈ rs, q.IsVast) (fun x y z => Reply.JoinAll x.2 y.2 z.2)
              (c.run rs) (r.run (rs.map (Request.image Complex.re)))
              (r.run (rs.map (Request.image Complex.im)))) := by
  have hmade := ofConfig_image (Complex.linear_re (ρ := ρ)) hunit
  refine ⟨fun why hwhy => by rw [hmade, hwhy]; rfl, fun c hc => ?_⟩
  rw [hc] at hmade
  refine ⟨c.image Complex.re, hmade, fun rs hrs => ?_⟩
  obtain ⟨s, hs, hcoherent, rfl⟩ := ofConfig_eq_ok hc
  have hundeclared : (ofSetup s : Converter (Complex ρ) ρ).Undeclared :=
    (congr_arg Config.unitSize? hs).trans hunit
  have him : (ofSetup s : Converter (Complex ρ) ρ).image Complex.im =
      (ofSetup s : Converter (Complex ρ) ρ).image Complex.re := by
    rw [image_ofSetup Complex.linear_im, image_ofSetup Complex.linear_re]
  refine ⟨fun hdata => ⟨?_, ?_⟩, fun hz hx hxs => ?_⟩
  · exact run_image Complex.linear_re hundeclared hrs fun q hmem hg => absurd hg (hdata q hmem)
  · rw [← him]
    exact run_image Complex.linear_im hundeclared hrs fun q hmem hg => absurd hg (hdata q hmem)
  · have hvalid := (Reachable.made hmade).valid Kernel.poised_stable
    have hparts : Parts (ofSetup s) ((ofSetup s).image Complex.re)
        ((ofSetup s : Converter (Complex ρ) ρ).image Complex.re) :=
      ⟨.refl _, him ▸ .refl _, hundeclared, valid_ofSetup Kernel.poised_stable hcoherent, hvalid,
        hvalid, hs ▸ hx⟩
    exact hparts.run_jointly hz hrs hxs

end Converter

namespace Rational

instance : Element (Complex ℚ) := ⟨.z128⟩

def lines : Setup where
  config := { rateIn := .one, rateOut := .three, type := .z128, quality := 1 }
  conversion := .up 3 .linear

def pointAndGap : List (Request (Job (Complex ℚ))) :=
  [.transform ⟨⟨⟨1, 0, some 0, false, false⟩, [⟨0, 3⟩]⟩, []⟩,
    .transform ⟨⟨⟨2, 1, some 0, true, false⟩, []⟩, List.replicate 6 0⟩]

def pointAndZeros : List (Request (Job (Complex ℚ))) :=
  [.transform ⟨⟨⟨1, 0, some 0, false, false⟩, [⟨0, 3⟩]⟩, []⟩,
    .transform ⟨.zeros ⟨2, 1, some 0, true, false⟩, List.replicate 6 0⟩]

end Rational

open Rational in
/-- The gap is passed over at once in the real parts and has a line in the imaginary ones. -/
theorem Converter.complex_is_two_reals_over_line :
    ∃ (c : Converter (Complex ℚ) ℚ) (r : Converter ℚ ℚ), ofConfig lines.config = .ok c ∧
      ofConfig (lines.config.retype (exchange (Complex ℚ) ℚ)) = .ok r ∧
      ∃ x y z, c.run pointAndGap = .ok x ∧
        r.run (pointAndGap.map (Request.image Complex.re)) = .ok y ∧
        r.run (pointAndGap.map (Request.image Complex.im)) = .ok z ∧
        Reply.JoinAll x.2 y.2 z.2 := by
  have hmade : ofConfig lines.config = .ok (ofSetup lines : Converter (Complex ℚ) ℚ) := rfl
  have hunit : lines.config.unitSize? = none := rfl
  obtain ⟨r, hr, hruns⟩ := (complex_is_two_reals hunit).2 _ hmade
  have hundeclared : ∀ q ∈ pointAndGap, q.Undeclared :=
    List.forall_mem_cons.mpr ⟨trivial, List.forall_mem_cons.mpr ⟨trivial, nofun⟩⟩
  have hjoint := (hruns pointAndGap hundeclared).2 inertZeros (exactWeights _) fun config _ =>
    exactWeights config
  -- Spelled out as zeros the gap can be run through.
  have hfill : List.Forall₂ ZeroFilled pointAndGap pointAndZeros :=
    .cons (.same _) (.cons (.zeros _ _ rfl (by unfold Buffer.Addressable; decide)) .nil)
  have hvalid := (Reachable.made hmade).valid Kernel.poised_stable
  obtain ⟨y, hy⟩ : ∃ y, (ofSetup lines : Converter (Complex ℚ) ℚ).run pointAndZeros = .ok y :=
    ⟨_, rfl⟩
  have hboth := run_zeroFilled (Complex.inertZeros inertZeros) hvalid (.refl _) hfill
    (exactWeights _) fun config _ => exactWeights config
  rw [hy] at hboth
  obtain ⟨x, hx, -⟩ := hboth.exists_left
  have hshort : ¬∃ q ∈ pointAndGap, q.IsVast := by
    simp [pointAndGap, Request.IsVast]
  rw [hx] at hjoint
  obtain ⟨y, z, hy, hz, hjoin⟩ := hjoint.exists_of_ok hshort
  exact ⟨_, r, hmade, hr, x, y, z, hx, hy, hz, hjoin⟩

end RateConversion
