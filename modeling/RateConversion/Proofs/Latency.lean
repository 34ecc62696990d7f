import RateConversion.Proofs.Convolution
import RateConversion.Proofs.Placement

/-! What the latency setting changes. Two converters that are configured alike but for it, and
asked the same, give the same samples, lengths, refusals and marks for as long as no number
overflows. Only the output offsets of a sinc filter differ: where its latency is told they run
ahead by half the periods that it spans. -/

namespace RateConversion

/-- Two computations that give related results or meet the same fault, unless the first
overflows. -/
inductive Checked.Unless {α β : Type} (R : α → β → Prop) : Checked α → Checked β → Prop
  | ok {a : α} {b : β} (h : R a b) : Unless R (.ok a) (.ok b)
  | fault (f : Fault) : Unless R (.error f) (.error f)
  | overflow (y : Checked β) : Unless R (.error .overflow) y

namespace Checked.Unless

variable {α β γ δ : Type} {R : α → β → Prop} {S : γ → δ → Prop} {x : Checked α} {y : Checked β}

theorem of_ok {a : α} {b : β} (h : Unless R (.ok a) (.ok b)) : R a b := by
  cases h with
  | ok h => exact h

theorem bind {f : α → Checked γ} {g : β → Checked δ} (h : Unless R x y)
    (hfg : ∀ a b, x = .ok a → y = .ok b → R a b → Unless S (f a) (g b)) :
    Unless S (x >>= f) (y >>= g) := by
  cases h with
  | ok hab => exact hfg _ _ rfl rfl hab
  | fault e => exact .fault e
  | overflow => exact .overflow _

theorem bind_same {x : Checked α} {f : α → Checked γ} {g : α → Checked δ}
    (hfg : ∀ a, x = .ok a → Unless S (f a) (g a)) : Unless S (x >>= f) (x >>= g) := by
  cases x with
  | ok a => exact hfg a rfl
  | error e => exact .fault e

theorem imp {S : α → β → Prop} (h : Unless R x y)
    (hRS : ∀ a b, x = .ok a → y = .ok b → R a b → S a b) : Unless S x y := by
  cases h with
  | ok hab => exact .ok (hRS _ _ rfl rfl hab)
  | fault e => exact .fault e
  | overflow => exact .overflow _

theorem of_unlessOverflow {P : α → Prop} (hx : UnlessOverflow P x)
    (h : ∀ a, x = .ok a → ∃ b, y = .ok b ∧ R a b) : Unless R x y := by
  cases hx with
  | ok _ =>
    obtain ⟨b, rfl, hab⟩ := h _ rfl
    exact .ok hab
  | overflow => exact .overflow y

end Checked.Unless

structure Stamp.Leads (n : Nat) (m p : Stamp) : Prop where
  offset : m.offset = p.offset + n
  offsetEnd : m.offsetEnd = p.offsetEnd + n
  gapStart : m.gapStart = p.gapStart + n
  discont : m.discont = p.discont
  gap : m.gap = p.gap
  same : n = 0 → m = p

namespace Segment

variable {g : Segment} {rateOut n : Nat}

def advanced (n : Nat) (g : Segment) : Segment := { g with nextOut := g.nextOut + n }

open Checked

theorem timeAt_unless {a b : Nat} (hb : g.start?.isSome → g.origin ≤ b) (hab : b ≤ a) :
    Unless (fun t u => t = g.time? rateOut a ∧ u = g.time? rateOut b) (g.timeAt rateOut a)
      (g.timeAt rateOut b) := by
  apply Unless.of_unlessOverflow (timeAt_unlessOverflow fun hs => (hb hs).trans hab)
  intro t ht
  obtain ⟨htimed, rfl⟩ := timeAt_eq_ok_iff.mp ht
  exact ⟨_, timeAt_eq_ok_iff.mpr ⟨htimed.mono hb hab, rfl⟩, rfl, rfl⟩

theorem timeBetween_unless {a a' b b' : Nat} (hb : g.start?.isSome → g.origin ≤ b) (hab : b ≤ a)
    (hab' : b' ≤ a') (ha : a ≤ a') (hle : b ≤ b') :
    Unless (fun t u => t = g.duration? rateOut a a' ∧ u = g.duration? rateOut b b')
      (g.timeBetween rateOut a a') (g.timeBetween rateOut b b') := by
  apply Unless.of_unlessOverflow (timeBetween_unlessOverflow (fun hs => (hb hs).trans hab) ha)
  intro t ht
  have hend : g.Timed rateOut a' := by
    simp only [timeBetween] at ht
    obtain ⟨_, htime, -⟩ := bind_eq_ok_iff.mp ht
    exact (timeAt_eq_ok_iff.mp htime).1
  have hstart := hend.mono (fun hs => (hb hs).trans hab) ha
  rw [timeBetween_eq_ok hstart hend ha] at ht
  cases ht
  have hend' := hend.mono (fun hs => (hb hs).trans hle) hab'
  exact ⟨_, timeBetween_eq_ok (hend'.mono hb hle) hend' hle, rfl, rfl⟩

theorem stamp_unless (ho : g.Ordered) (len : Nat) (gap : Bool) (loud : Nat) :
    Unless (fun x y => x.1 = y.1.advanced n ∧ x.2.Leads n y.2)
      ((g.advanced n).stamp rateOut len gap loud) (g.stamp rateOut len gap loud) := by
  have ho' : (g.advanced n).Ordered := fun hs => (ho hs).trans (Nat.le_add_right _ _)
  apply Unless.of_unlessOverflow (stamp_unlessOverflow ho' len gap loud)
  intro x hx
  obtain ⟨hlt, htimed, rfl⟩ := (stamp_eq_ok_iff ho').mp hx
  have hnext : (g.advanced n).nextOut = g.nextOut + n := rfl
  have htimed' : g.Timed rateOut (g.nextOut + len) :=
    Timed.mono (s := g) htimed (fun hs => (ho hs).trans (Nat.le_add_right _ _)) (by omega)
  refine ⟨_, (stamp_eq_ok_iff ho).mpr ⟨by omega, htimed', rfl⟩, ?_, ?_⟩
  · simp only [advanced, emit, Nat.add_right_comm]
  · refine ⟨rfl, Nat.add_right_comm _ _ _, ?_, rfl, rfl, ?_⟩
    · simp only [stampOf, hnext]
      split_ifs
      · exact Nat.add_right_comm _ _ _
      · exact Nat.add_right_comm _ _ _
    · rintro rfl
      rfl

theorem split_unless {m p : Stamp} (h : m.Leads n p)
    (hp : g.start?.isSome → g.origin ≤ p.offset) :
    Unless (Option.Rel fun x y => x.1.Leads n y.1 ∧ x.2.Leads n y.2) (g.split rateOut m)
      (g.split rateOut p) := by
  have h1 := h.offset
  have h2 := h.offsetEnd
  have h3 := h.gapStart
  by_cases hnone : p.gapStart ≤ p.offset ∨ p.offsetEnd ≤ p.gapStart
  · rw [split, split, if_pos (by omega), if_pos hnone]
    exact .ok .none
  · rw [split, split, if_neg (by omega), if_neg hnone]
    refine (timeBetween_unless hp (by omega) (by omega) (by omega) (by omega)).bind ?_
    rintro _ _ - - ⟨rfl, rfl⟩
    refine (timeAt_unless (fun hs => (hp hs).trans (by omega)) (by omega)).bind ?_
    rintro _ _ - - ⟨rfl, rfl⟩
    refine (timeBetween_unless (fun hs => (hp hs).trans (by omega)) (by omega) (by omega)
      (by omega) (by omega)).bind ?_
    rintro _ _ - - ⟨rfl, rfl⟩
    refine .ok (.some ⟨⟨h1, h3, h3, h.discont, rfl, ?_⟩, ⟨h3, h2, h3, rfl, rfl, ?_⟩⟩)
    · intro hn
      rw [h.same hn]
    · intro hn
      rw [h.same hn]

end Segment

namespace Conversion

/-- Output periods by which a filter that tells its latency is ahead of one that does not. -/
def lead : Conversion → Nat
  | .down _ d _ =>
    match d.span? with
    | some n => n / 2
    | none => 0
  | _ => 0

theorem delay_withZeroLatency (conv : Conversion) :
    (conv.withZeroLatency false).delay = (conv.withZeroLatency true).delay + conv.lead := by
  cases conv with
  | down factor d z => cases d <;> rfl
  | _ => rfl

end Conversion

def Config.withZeroLatency (z : Bool) (c : Config) : Config := { c with zeroLatency := z }

def Request.withZeroLatency {τ : Type} (z : Bool) : Request τ → Request τ
  | .setZeroLatency _ => .setZeroLatency z
  | .configure config => .configure (config.withZeroLatency z)
  | r => r

/-- The same settings but for the latency, which the first tells. -/
structure Setup.Tells (s t : Setup) : Prop where
  late : s = t.withZeroLatency false
  prompt : t.withZeroLatency true = t

namespace Setup

theorem tells (s : Setup) : (s.withZeroLatency false).Tells (s.withZeroLatency true) := by
  obtain ⟨config, conversion⟩ := s
  cases conversion <;> exact ⟨rfl, rfl⟩

theorem ofConfig_withZeroLatency (z : Bool) (c : Config) :
    ofConfig (c.withZeroLatency z) = (ofConfig c).map (withZeroLatency · z) := by
  simp only [ofConfig, Config.withZeroLatency]
  rw [conversion_withZeroLatency]
  cases c.conversion <;> rfl

variable {s t s' t' : Setup}

theorem Tells.setLatency (h : s.Tells t) :
    (s.withZeroLatency false).Tells (t.withZeroLatency true) := by
  rw [h.prompt, h.late]
  obtain ⟨config, conversion⟩ := t
  refine ⟨?_, h.prompt⟩
  cases conversion <;> rfl

theorem Tells.conversion (h : s.Tells t) : t.conversion.withZeroLatency true = t.conversion :=
  congr_arg Setup.conversion h.prompt

theorem Tells.conversion_eq_iff (h : s.Tells t) (h' : s'.Tells t') :
    s.conversion = s'.conversion ↔ t.conversion = t'.conversion := by
  have hback (conv : Conversion) :
      (conv.withZeroLatency false).withZeroLatency true = conv.withZeroLatency true := by
    cases conv <;> rfl
  rw [h.late, h'.late]
  constructor
  · intro heq
    have hprompt := congr_arg (Conversion.withZeroLatency true) heq
    simp only [withZeroLatency, hback] at hprompt
    rwa [h.conversion, h'.conversion] at hprompt
  · intro heq
    simp only [withZeroLatency, heq]

theorem Tells.leading (h : s.Tells t) (header : Header) : s.leading header = t.leading header := by
  rw [h.late]
  obtain ⟨config, conversion⟩ := t
  cases conversion <;> rfl

theorem Tells.opened (h : s.Tells t) (header : Header) :
    s.opened header = (t.opened header).advanced t.conversion.lead := by
  have hdelay := Conversion.delay_withZeroLatency t.conversion
  have hdirection : (t.conversion.withZeroLatency false).direction = t.conversion.direction := by
    cases t.conversion <;> rfl
  rw [h.conversion] at hdelay
  rw [h.late]
  simp only [Setup.opened, Segment.advanced, withZeroLatency, hdelay, hdirection, Nat.add_assoc]
  rfl

end Setup

inductive Configured {σ τ : Type} (R : σ → τ → Prop) :
    Except ConfigError σ → Except ConfigError τ → Prop
  | taken {s : σ} {t : τ} (h : R s t) : Configured R (.ok s) (.ok t)
  | refused (why : ConfigError) : Configured R (.error why) (.error why)

namespace Configured

variable {σ τ υ ω : Type} {R : σ → τ → Prop} {S : υ → ω → Prop} {x : Except ConfigError σ}
  {y : Except ConfigError τ}

theorem map {f : σ → υ} {g : τ → ω} (h : Configured R x y) (hfg : ∀ s t, R s t → S (f s) (g t)) :
    Configured S (x.map f) (y.map g) := by
  cases h with
  | taken h => exact .taken (hfg _ _ h)
  | refused why => exact .refused why

end Configured

theorem Setup.ofConfig_tells (c : Config) :
    Configured Tells (ofConfig (c.withZeroLatency false)) (ofConfig (c.withZeroLatency true)) := by
  rw [ofConfig_withZeroLatency, ofConfig_withZeroLatency]
  cases ofConfig c with
  | ok s => exact .taken s.tells
  | error why => exact .refused why

theorem Setup.Tells.withQuality {s t : Setup} (h : s.Tells t) (q : Nat) :
    Configured Tells (s.withQuality q) (t.withQuality q) := by
  have hprompt := h.prompt
  have htells := ofConfig_tells { t.config with quality := q }
  rw [h.late]
  rw [← hprompt]
  exact htells

inductive Reply.Leads {β : Type} (n : Nat) : Reply β → Reply β → Prop
  | transformed (slice : β) {m p : Stamp} (h : m.Leads n p) :
    Leads n (.transformed slice m) (.transformed slice p)
  | same {y : Reply β} (hy : ∀ slice m, y ≠ .transformed slice m) : Leads n y y

theorem Reply.Leads.of_transformed {β : Type} {n : Nat} {a b : β} {m p : Stamp}
    (h : Reply.Leads n (.transformed a m) (.transformed b p)) : a = b ∧ m.Leads n p := by
  generalize hy : Reply.transformed a m = y at h
  generalize hz : Reply.transformed b p = z at h
  cases h with
  | transformed slice h =>
    cases hy
    cases hz
    exact ⟨rfl, h⟩
  | same h => exact absurd hy.symm (h a m)

theorem Kernel.ofConversion_withZeroLatency {α ρ : Type} [Zero α] [Scalar ρ] (conv : Conversion)
    (z : Bool) :
    (ofConversion (conv.withZeroLatency z) : Kernel α ρ) = ofConversion conv := by
  cases conv with
  | down factor d z' => cases d <;> rfl
  | _ => rfl

namespace Converter

theorem check_tells {α : Type} [Element α] (config : Config) :
    Configured Setup.Tells (check α (config.withZeroLatency false))
      (check α (config.withZeroLatency true)) := by
  have htype (z : Bool) : (config.withZeroLatency z).type = config.type := rfl
  simp only [check, htype]
  split_ifs
  · exact Setup.ofConfig_tells config
  · exact .refused _

variable {α ρ : Type} [Zero α] [Scalar ρ]

/-- The states of two converters that are asked the same, of which the first tells its latency.
What a segment puts out next matters only where buffers can go on with it. -/
structure Leads (c d : Converter α ρ) : Prop where
  setup : c.setup.Tells d.setup
  staged : Option.Rel Setup.Tells c.staged? d.staged?
  kernel : c.kernel = d.kernel
  books : c.segment = { d.segment with nextOut := c.segment.nextOut }
  ahead : d.segment.start?.isSome → c.segment = d.segment.advanced d.setup.conversion.lead

namespace Leads

variable {c d : Converter α ρ}

theorem pending (h : c.Leads d) : c.pending.Tells d.pending := by
  have hstaged := h.staged
  simp only [Converter.pending]
  generalize c.staged? = s? at hstaged ⊢
  generalize d.staged? = t? at hstaged ⊢
  cases hstaged with
  | some h => exact h
  | none => exact h.setup

theorem continues (h : c.Leads d) (header : Header) :
    c.segment.continues header = d.segment.continues header := by
  rw [h.books]
  rfl

theorem requiredLen (h : c.Leads d) (n : Nat) : c.requiredLen n = d.requiredLen n := by
  rw [Converter.requiredLen, Converter.requiredLen, h.setup.late, Setup.withZeroLatency]
  cases d.setup.conversion <;> rfl

theorem predict (h : c.Leads d) (header : Header) : c.predict header = d.predict header := by
  rw [Converter.predict, Converter.predict, h.continues, h.kernel, h.pending.late, h.setup.late,
    Setup.withZeroLatency]
  cases d.pending.conversion <;> rfl

theorem splitStamp (h : c.Leads d) (m : Stamp) : c.splitStamp m = d.splitStamp m := by
  rw [Converter.splitStamp, Converter.splitStamp, h.books, h.setup.late]
  rfl

theorem stage (h : c.Leads d) {s t : Setup} (hst : s.Tells t) :
    Leads { c with staged? := some s } { d with staged? := some t } :=
  ⟨h.setup, .some hst, h.kernel, h.books, h.ahead⟩

theorem ofConversion_eq {s t : Setup} (h : s.Tells t) :
    (Kernel.ofConversion s.conversion : Kernel α ρ) = .ofConversion t.conversion := by
  rw [h.late]
  exact Kernel.ofConversion_withZeroLatency t.conversion false

theorem ofSetup {s t : Setup} (h : s.Tells t) :
    (Converter.ofSetup s : Converter α ρ).Leads (.ofSetup t) := by
  refine ⟨h, .none, ?_, rfl, fun hs => (by cases hs)⟩
  rw [ofSetup_kernel, ofSetup_kernel, ofConversion_eq h]

theorem configured {s t : Setup} (h : s.Tells t) (c d : Converter α ρ) :
    (c.configured s).Leads (d.configured t) := by
  refine ⟨h, .none, ?_, rfl, fun hs => (by cases hs)⟩
  rw [configured_kernel, configured_kernel, ofConversion_eq h]

theorem ofConfig [Element α] (config : Config) :
    Configured Leads (Converter.ofConfig (config.withZeroLatency false) : Except _ (Converter α ρ))
      (Converter.ofConfig (config.withZeroLatency true)) :=
  (check_tells (α := α) config).map fun _ _ h => ofSetup h

theorem reset (h : c.Leads d) : c.reset.Leads d.reset := by
  refine ⟨h.setup, h.staged, ?_, rfl, fun hs => (by cases hs)⟩
  simp only [Converter.reset, h.kernel]

theorem kernel_adopt (h : c.Leads d) : c.adopt.kernel = d.adopt.kernel := by
  rw [adopt_kernel, adopt_kernel, h.kernel, ofConversion_eq h.pending]
  exact if_congr (h.pending.conversion_eq_iff h.setup) rfl rfl

theorem opened (h : c.Leads d) (header : Header) : (c.opened header).Leads (d.opened header) := by
  have hbooks := h.pending.opened header
  refine ⟨h.pending, .none, ?_, ?_, fun _ => hbooks⟩
  · simp only [Converter.opened]
    rw [h.kernel_adopt, h.pending.leading]
  · simp only [Converter.opened]
    rw [hbooks]
    rfl

theorem enter (h : c.Leads d) (header : Header) :
    Checked.Unless (fun e e' => e.Leads e' ∧
      e.segment = e'.segment.advanced e'.setup.conversion.lead) (c.enter header)
      (d.enter header) := by
  have hcontinues := h.continues header
  by_cases hd : d.Discontinuous header
  · have hc : c.Discontinuous header := by
      rw [← continues_eq_false_iff] at hd ⊢
      rw [hcontinues, hd]
    apply Checked.Unless.of_unlessOverflow (enter_unlessOverflow c header)
    intro e he
    obtain ⟨hlt, rfl⟩ := (enter_of_discontinuous hc).mp he
    have hbooks := h.pending.opened header
    refine ⟨d.opened header, (enter_of_discontinuous hd).mpr ⟨?_, rfl⟩, h.opened header, hbooks⟩
    rw [hbooks] at hlt
    exact Nat.lt_of_le_of_lt (Nat.le_add_right _ _) hlt
  · have hc : ¬c.Discontinuous header := by
      rw [← continues_eq_false_iff] at hd ⊢
      rwa [hcontinues]
    rw [enter_of_continuous hc, enter_of_continuous hd]
    refine .ok ⟨h, h.ahead ?_⟩
    by_contra hs
    exact hd (.inr (.inr (.inl (Option.not_isSome_iff_eq_none.mp hs))))

variable [Add α] [Sub α] [Add ρ] [Mul ρ] [Sample α ρ]

theorem proceed (h : c.Leads d) (ho : d.segment.Ordered)
    (hahead : c.segment = d.segment.advanced d.setup.conversion.lead) (b : Buffer α)
    (expected : Nat) :
    Checked.Unless (fun x y => x.1.Leads y.1 ∧ x.2.1 = y.2.1 ∧
      x.2.2.Leads y.1.setup.conversion.lead y.2.2) (c.proceed b expected)
      (d.proceed b expected) := by
  have hrate : c.setup.rateOut = d.setup.rateOut := by
    rw [h.setup.late]
    rfl
  simp only [Converter.proceed]
  rw [h.kernel, hahead, hrate]
  refine .bind_same fun nextIn _ => .bind_same fun len _ => .bind_same fun _ _ =>
    .bind_same fun p _ => .bind_same fun _ _ => ?_
  refine (Segment.stamp_unless (g := { d.segment with nextIn? := some nextIn })
    (n := d.setup.conversion.lead) ho expected b.header.gap p.loud).bind ?_
  rintro x y - - ⟨hnext, hstamp⟩
  refine .ok ⟨⟨h.setup, h.staged, rfl, ?_, fun _ => hnext⟩, rfl, hstamp⟩
  change x.1 = { y.1 with nextOut := x.1.nextOut }
  rw [hnext]
  rfl

inductive OnTransform : Except (Rejected (Converter α ρ) (List α)) (Transformed α ρ) →
    Except (Rejected (Converter α ρ) (List α)) (Transformed α ρ) → Prop
  | accepted {t u : Transformed α ρ} (h : t.converter.Leads u.converter)
    (hs : t.slice = u.slice) (hm : t.stamp.Leads u.converter.setup.conversion.lead u.stamp) :
    OnTransform (.ok t) (.ok u)
  | rejected {c d : Converter α ρ} (h : c.Leads d) (slice : List α) (why : Rejection) :
    OnTransform (.error ⟨c, slice, why⟩) (.error ⟨d, slice, why⟩)

theorem transform (h : c.Leads d) (hd : d.Valid Kernel.Serves) (b : Buffer α) (slice : List α) :
    Checked.Unless OnTransform (c.transform b slice) (d.transform b slice) := by
  simp only [Converter.transform]
  rw [h.predict]
  split_ifs with hlen
  · exact .ok (.rejected h _ _)
  · refine .bind_same fun expected _ => ?_
    split_ifs with hroom
    · exact .ok (.rejected h _ _)
    · rw [absorb_eq, absorb_eq]
      have habsorb := (h.enter b.header).bind fun e e' _ he' hlead =>
        hlead.1.proceed (hd.enter Kernel.serves_stable he').ordered hlead.2 b expected
      refine habsorb.bind ?_
      rintro x y - - ⟨hnext, hout, hstamp⟩
      refine .ok (.accepted hnext ?_ hstamp)
      simp only [hout]

variable [Element α]

theorem respond (h : c.Leads d) (hd : d.Valid Kernel.Serves) (r : Request (Job α)) :
    Checked.Unless (fun x y => x.1.Leads y.1 ∧ x.2.Leads y.1.setup.conversion.lead y.2)
      (c.respond (r.withZeroLatency false)) (d.respond (r.withZeroLatency true)) := by
  cases r with
  | transform job =>
    refine (h.transform hd job.buffer job.slice).bind ?_
    rintro _ _ - - (⟨hnext, hs, hm⟩ | ⟨hnext, slice, why⟩)
    · refine .ok ⟨hnext, ?_⟩
      rw [hs]
      exact .transformed _ hm
    · exact .ok ⟨hnext, .same (by rintro _ _ ⟨⟩)⟩
  | predict header =>
    change Checked.Unless _ (c.predict header >>= _) (d.predict header >>= _)
    rw [h.predict]
    exact .bind_same fun n _ => .ok ⟨h, .same (by rintro _ _ ⟨⟩)⟩
  | required n =>
    change Checked.Unless _ (c.requiredLen n >>= _) (d.requiredLen n >>= _)
    rw [h.requiredLen]
    exact .bind_same fun n _ => .ok ⟨h, .same (by rintro _ _ ⟨⟩)⟩
  | setQuality q =>
    have hset := h.pending.withQuality q
    simp only [Request.withZeroLatency, Converter.respond, Converter.setQuality]
    generalize c.pending.withQuality q = x, d.pending.withQuality q = y at hset ⊢
    cases hset with
    | taken hst => exact .ok ⟨h.stage hst, .same (by rintro _ _ ⟨⟩)⟩
    | refused why => exact .ok ⟨h, .same (by rintro _ _ ⟨⟩)⟩
  | setZeroLatency z => exact .ok ⟨h.stage h.pending.setLatency, .same (by rintro _ _ ⟨⟩)⟩
  | configure config =>
    have hset := check_tells (α := α) config
    simp only [Request.withZeroLatency, Converter.respond, Converter.configure]
    generalize Converter.check α (config.withZeroLatency false) = x,
      Converter.check α (config.withZeroLatency true) = y at hset ⊢
    cases hset with
    | taken hst => exact .ok ⟨configured hst c d, .same (by rintro _ _ ⟨⟩)⟩
    | refused why => exact .ok ⟨h, .same (by rintro _ _ ⟨⟩)⟩
  | reset => exact .ok ⟨h.reset, .same (by rintro _ _ ⟨⟩)⟩
  | split m =>
    change Checked.Unless _ (c.splitStamp m >>= _) (d.splitStamp m >>= _)
    rw [h.splitStamp]
    exact .bind_same fun parts _ => .ok ⟨h, .same (by rintro _ _ ⟨⟩)⟩

end Leads

variable [Add α] [Sub α] [Add ρ] [Mul ρ] [Sample α ρ] [Element α]

/-- Two converters made alike, the first with its latency told and the second without it, that
have been asked the same since. -/
inductive Paired : Converter α ρ → Converter α ρ → Prop
  | made {config : Config} {c d : Converter α ρ}
    (hc : ofConfig (config.withZeroLatency false) = .ok c)
    (hd : ofConfig (config.withZeroLatency true) = .ok d) : Paired c d
  | step {c d c' d' : Converter α ρ} {r : Request (Job α)} {y z : Reply (List α)}
    (h : Paired c d) (hc : c.respond (r.withZeroLatency false) = .ok (c', y))
    (hd : d.respond (r.withZeroLatency true) = .ok (d', z)) : Paired c' d'

namespace Paired

variable {c d : Converter α ρ}

theorem valid {P : Conversion → Kernel α ρ → Prop} (hP : Kernel.Stable P) (h : c.Paired d) :
    c.Valid P ∧ d.Valid P := by
  induction h with
  | made hc hd => exact ⟨(Reachable.made hc).valid hP, (Reachable.made hd).valid hP⟩
  | step _ hc hd ih => exact ⟨ih.1.respond hP hc, ih.2.respond hP hd⟩

theorem leads (h : c.Paired d) : c.Leads d := by
  induction h with
  | @made config c d hc hd =>
    have hmade := Leads.ofConfig (α := α) (ρ := ρ) config
    rw [hc, hd] at hmade
    cases hmade with
    | taken h => exact h
  | @step c d c' d' r y z h hc hd ih =>
    have hreply := ih.respond (h.valid Kernel.serves_stable).2 r
    rw [hc, hd] at hreply
    exact hreply.of_ok.1

theorem ofConfig (config : Config) :
    Configured Paired
      (Converter.ofConfig (config.withZeroLatency false) : Except ConfigError (Converter α ρ))
      (Converter.ofConfig (config.withZeroLatency true)) := by
  have hleads := Leads.ofConfig (α := α) (ρ := ρ) config
  generalize hx : (Converter.ofConfig (config.withZeroLatency false) :
    Except ConfigError (Converter α ρ)) = x at hleads ⊢
  generalize hy : (Converter.ofConfig (config.withZeroLatency true) :
    Except ConfigError (Converter α ρ)) = y at hleads ⊢
  cases hleads with
  | taken _ => exact .taken (.made hx hy)
  | refused why => exact .refused why

theorem respond (h : c.Paired d) (r : Request (Job α)) :
    Checked.Unless (fun x y => x.1.Paired y.1 ∧ x.2.Leads y.1.setup.conversion.lead y.2)
      (c.respond (r.withZeroLatency false)) (d.respond (r.withZeroLatency true)) :=
  (h.leads.respond (h.valid Kernel.serves_stable).2 r).imp
    fun _ _ hc hd hreply => ⟨h.step hc hd, hreply.2⟩

theorem split (h : c.Paired d) {n : Nat} {m p : Stamp} (hm : m.Leads n p)
    (hp : d.segment.start?.isSome → d.segment.origin ≤ p.offset) :
    Checked.Unless (Option.Rel fun x y => x.1.Leads n y.1 ∧ x.2.Leads n y.2) (c.splitStamp m)
      (d.splitStamp p) := by
  rw [h.leads.splitStamp]
  exact Segment.split_unless hm hp

end Paired

/-- The latency setting moves stamps and nothing else. The same configurations are refused, the
same replies are given but for the lead of stamps, and stamps that differ by the lead are cut
alike. In a consistent stream a sinc filter gives at an output offset the filter that ends at
its tick where latency is told, and the filter centred there where it is not. -/
theorem latency_moves_stamps :
    (∀ config : Config, Configured Paired
      (ofConfig (config.withZeroLatency false) : Except ConfigError (Converter α ρ))
      (ofConfig (config.withZeroLatency true))) ∧
    ∀ c d : Converter α ρ, c.Paired d →
      (∀ r : Request (Job α), Checked.Unless
        (fun x y => x.1.Paired y.1 ∧ x.2.Leads y.1.setup.conversion.lead y.2)
        (c.respond (r.withZeroLatency false)) (d.respond (r.withZeroLatency true))) ∧
      (∀ (n : Nat) (m p : Stamp), m.Leads n p →
        (d.segment.start?.isSome → d.segment.origin ≤ p.offset) →
        Checked.Unless (Option.Rel fun x y => x.1.Leads n y.1 ∧ x.2.Leads n y.2)
          (c.splitStamp m) (d.splitStamp p)) ∧
      ∀ (factor span : Nat) (kind : Decimation) (z : Bool),
        d.pending.conversion = .down factor kind z → kind.span? = some span →
        d.pending.rateIn ≤ 500000000 →
        ∀ (x : Nat → α) (e : Converter α ρ) (parts : List (List α × Stamp)) (o : Nat) (y : α),
          Emits parts o y →
          (c.Plays x e parts → ∃ place, span * factor / 2 ≤ place ∧
            place + span * factor / 2 = o * factor ∧
            y = (Taps.lowPass factor span : Taps ρ).convolve x place (span * factor / 2)) ∧
          (d.Plays x e parts → span * factor / 2 ≤ o * factor ∧
            y = (Taps.lowPass factor span : Taps ρ).convolve x (o * factor)
              (span * factor / 2)) := by
  refine ⟨Paired.ofConfig, fun c d h => ⟨h.respond, fun _ _ _ => h.split, ?_⟩⟩
  intro factor span kind z hconv hspan hrate x e parts o y hy
  obtain ⟨hc, hd⟩ := h.valid Kernel.poised_stable
  have hpending := h.leads.pending
  have hprompt : d.pending.conversion = .down factor kind true := by
    rw [← hpending.conversion, hconv]
    rfl
  have hlate : c.pending.conversion = .down factor kind false := by
    rw [hpending.late, Setup.withZeroLatency, hprompt]
    rfl
  have hin : c.pending.rateIn = d.pending.rateIn := by
    rw [hpending.late]
    rfl
  have hreach := Taps.reach_lowPass (ρ := ρ) factor span
  simp only [← hreach, ← Taps.apply_eq_convolve]
  constructor
  · intro hplays
    obtain ⟨place, hfull, hvalue, hplace⟩ :=
      Plays.exists_place hc hplays (hin ▸ hrate) hlate hspan hy
    exact ⟨place, hfull, hplace.symm, hvalue⟩
  · intro hplays
    obtain ⟨place, hfull, hvalue, hplace⟩ := Plays.exists_place hd hplays hrate hprompt hspan hy
    change o * factor = place at hplace
    rw [hplace]
    exact ⟨hfull, hvalue⟩

def halfband (z : Bool) : Setup where
  config :=
    { rateIn := .two, rateOut := .one, type := .f64, quality := 2, zeroLatency := z }
  conversion := .down 2 .shortSinc z

/-- The 65th sample fills the first window, which is stamped with the tick at its end where
latency is told and with the one at its centre where it is not. -/
theorem latency_moves_stamps_of_first_window :
    ∃ (t u : Transformed Float Float) (y : Float),
      t.converter.Paired u.converter ∧ t.stamp.Leads 16 u.stamp ∧
      Checked.Unless (Option.Rel fun x y => x.1.Leads 16 y.1 ∧ x.2.Leads 16 y.2)
        (t.converter.splitStamp t.stamp) (u.converter.splitStamp u.stamp) ∧
      Emits [(t.slice, t.stamp)] 32 y ∧ Emits [(u.slice, u.stamp)] 16 y ∧
      y = (Taps.lowPass 2 32 : Taps Float).convolve Float.ofNat 32 32 := by
  obtain ⟨-, h⟩ := latency_moves_stamps (α := Float) (ρ := Float)
  have hfirst : ofConfig ((halfband true).config.withZeroLatency false) =
      .ok (ofSetup (halfband false) : Converter Float Float) := rfl
  have hsecond : ofConfig ((halfband true).config.withZeroLatency true) =
      .ok (ofSetup (halfband true) : Converter Float Float) := rfl
  have hpair := Paired.made hfirst hsecond
  have hjob : (timed 0 0 1 (stretch Float.ofNat 0 65)).buffer.Holds (ρ := Float) Float.ofNat :=
    ⟨rfl, nofun⟩
  obtain ⟨t, ht, y, hy⟩ : ∃ t, (ofSetup (halfband false)).transform
      (timed 0 0 1 (stretch Float.ofNat 0 65)).buffer [0] = .ok (.ok t) ∧
      ∃ y, Emits [(t.slice, t.stamp)] 32 y :=
    ⟨_, rfl, _, _, .head _, by decide, by decide, rfl⟩
  obtain ⟨u, hu, hsixteen, hlow, z, hz⟩ : ∃ u, (ofSetup (halfband true)).transform
      (timed 0 0 1 (stretch Float.ofNat 0 65)).buffer [0] = .ok (.ok u) ∧
      u.converter.setup.conversion.lead = 16 ∧
      u.converter.segment.origin ≤ u.stamp.offset ∧
      ∃ y, Emits [(u.slice, u.stamp)] 16 y :=
    ⟨_, rfl, rfl, by decide, _, _, .head _, by decide, by decide, rfl⟩
  have hreplies := (h _ _ hpair).1
    (.transform ⟨(timed 0 0 1 (stretch Float.ofNat 0 65)).buffer, [0]⟩)
  simp only [Request.withZeroLatency, respond, ht, hu] at hreplies
  obtain ⟨hnext, hreply⟩ := hreplies.of_ok
  obtain ⟨-, hlead⟩ := hreply.of_transformed
  simp only [hsixteen] at hlead
  obtain ⟨-, -, hvalues⟩ := h _ _ hpair
  have hconv : (ofSetup (halfband true) : Converter Float Float).pending.conversion =
      .down 2 .shortSinc true := rfl
  have hvalues := hvalues 2 32 _ _ hconv rfl (by decide) Float.ofNat
  obtain ⟨place, -, hplace, hlate⟩ :=
    (hvalues _ _ _ y hy).1 (.opened (.inr (.inr (.inl rfl))) (by decide) hjob ht)
  obtain ⟨-, hprompt⟩ :=
    (hvalues _ _ _ z hz).2 (.opened (.inr (.inr (.inl rfl))) (by decide) hjob hu)
  obtain rfl : place = 32 := by omega
  cases hprompt.trans hlate.symm
  exact ⟨t, u, y, hnext, hlead, (h _ _ hnext).2.1 _ _ _ hlead fun _ => hlow, hy, hz, hlate⟩

end Converter

end RateConversion
