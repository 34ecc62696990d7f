import RateConversion.Proofs.Dispatch
import RateConversion.Proofs.Prediction

/-! What is turned away, and what that leaves behind. A buffer is turned away for its type,
for its own length and for a slice that is shorter than the prediction, in this order, and
for nothing else. Whatever is turned away or refused might as well not have been asked. -/

namespace RateConversion

open Checked

def Reply.failed {β : Type} : Reply β → Bool
  | .rejected _ _ => true
  | .refused _ => true
  | _ => false

structure Turn (σ τ β : Type) where
  request : Request τ
  reply : Reply β
  after : σ

section Dialogue

variable {σ τ β : Type}

/-- The turns of a run without faults, from a state to a state. -/
inductive Dialogue (respond : σ → Request τ → Checked (σ × Reply β)) :
    σ → List (Turn σ τ β) → σ → Prop
  | nil (s : σ) : Dialogue respond s [] s
  | cons {s s' t : σ} {r : Request τ} {y : Reply β} {turns : List (Turn σ τ β)}
    (h : respond s r = .ok (s', y)) (rest : Dialogue respond s' turns t) :
    Dialogue respond s (⟨r, y, s'⟩ :: turns) t

def FailsInert (respond : σ → Request τ → Checked (σ × Reply β)) : Prop :=
  ∀ s r s' y, respond s r = .ok (s', y) → y.failed = true → s' = s

variable {respond : σ → Request τ → Checked (σ × Reply β)}

theorem Dialogue.filter (hf : FailsInert respond) {s t : σ} {turns : List (Turn σ τ β)}
    (h : Dialogue respond s turns t) :
    Dialogue respond s (turns.filter fun turn => !turn.reply.failed) t := by
  induction h with
  | nil s => exact .nil s
  | @cons s s' t r y turns h _ ih =>
    by_cases hy : y.failed = true
    · -- The failed turn is passed over, and what follows starts from the same state.
      cases hf s r s' y h hy
      rwa [List.filter_cons_of_neg (by simpa using hy)]
    · rw [List.filter_cons_of_pos (by simpa using hy)]
      exact .cons h ih

def StaysIfRefused (s : σ) (x : Except (Refused σ) σ) : Prop := ∀ r, x = .error r → r.state = s

theorem StaysIfRefused.failed {s s' : σ} {x : Except (Refused σ) σ} {y : Reply β}
    (hx : StaysIfRefused s x) (h : (.ok (settle x) : Checked (σ × Reply β)) = .ok (s', y))
    (hy : y.failed = true) : s' = s := by
  cases x with
  | ok a =>
    cases h
    cases hy
  | error r =>
    cases h
    exact hx r rfl

end Dialogue

/-- When a buffer of some type is turned away, by what its header declares, what it holds, the
room for its output and the prediction, that it is accepted otherwise, and that the state and
the slice are what they were when it is turned away. -/
structure FailsAsDocumented {σ β τ : Type} (state : σ) (slice : β) (h : Header) (held room : Nat)
    (predicted : Checked Nat) (outcome : Checked (Except (Rejected σ β) τ)) : Prop where
  inputLength (declared provided : Nat) :
    outcome = .ok (.error ⟨state, slice, .inputLength declared provided⟩) ↔
      (h.gap = false ∧ held ≠ h.len) ∧ declared = h.len ∧ provided = held
  outputLength (expected provided : Nat) :
    outcome = .ok (.error ⟨state, slice, .outputLength expected provided⟩) ↔
      ¬(h.gap = false ∧ held ≠ h.len) ∧ predicted = .ok expected ∧ room < expected ∧
        provided = room
  elementType (expected provided : ElementType) :
    outcome ≠ .ok (.error ⟨state, slice, .elementType expected provided⟩)
  unchanged (r : Rejected σ β) : outcome = .ok (.error r) → r.state = state ∧ r.slice = slice
  predicts : UnlessOverflow (fun _ => True) predicted
  accepts : ¬(h.gap = false ∧ held ≠ h.len) → (∀ n, predicted = .ok n → n ≤ room) →
    UnlessOverflow (fun r => ∃ t, r = .ok t) outcome

theorem FailsAsDocumented.ofTyped {α ρ : Type} [Zero α] [Scalar ρ] {c : Converter α ρ}
    {slice : List α} {h : Header} {held room : Nat} {predicted : Checked Nat}
    {outcome : Checked (Except (Rejected (Converter α ρ) (List α)) (Transformed α ρ))}
    (d : FailsAsDocumented c slice h held room predicted outcome)
    (wrap : Converter α ρ → AnyConverter) (list : List α → Samples) :
    FailsAsDocumented (wrap c) (list slice) h held room predicted
      (outcome >>= fun r => .ok (AnyConverter.Outcome.ofTyped wrap list r)) := by
  have herror (r' : Rejected AnyConverter Samples) :
      (outcome >>= fun r => .ok (AnyConverter.Outcome.ofTyped wrap list r)) = .ok (.error r') ↔
        ∃ why, r' = ⟨wrap c, list slice, why⟩ ∧ outcome = .ok (.error ⟨c, slice, why⟩) := by
    constructor
    · intro he
      obtain ⟨r, hr, he⟩ := bind_eq_ok_iff.mp he
      cases r with
      | ok t => cases he
      | error r =>
        obtain ⟨hstate, hslice⟩ := d.unchanged r hr
        obtain ⟨state, slice, why⟩ := r
        cases hstate
        cases hslice
        cases he
        exact ⟨why, rfl, hr⟩
    · rintro ⟨why, rfl, ho⟩
      rw [ho]
      rfl
  have hwhy (why : Rejection) :
      (outcome >>= fun r => .ok (AnyConverter.Outcome.ofTyped wrap list r)) =
        .ok (.error ⟨wrap c, list slice, why⟩) ↔ outcome = .ok (.error ⟨c, slice, why⟩) := by
    rw [herror]
    constructor
    · rintro ⟨_, heq, ho⟩
      cases heq
      exact ho
    · exact fun ho => ⟨why, rfl, ho⟩
  refine ⟨fun _ _ => (hwhy _).trans (d.inputLength _ _), fun _ _ =>
    (hwhy _).trans (d.outputLength _ _), fun _ _ h => d.elementType _ _ ((hwhy _).mp h),
    fun r hr => ?_, d.predicts, fun hb hp => (d.accepts hb hp).bind ?_⟩
  · obtain ⟨why, rfl, -⟩ := (herror r).mp hr
    exact ⟨rfl, rfl⟩
  · rintro _ - ⟨t, rfl⟩
    exact .ok ⟨_, rfl⟩

namespace Converter

section Lengths

theorem outputLenFrom_unlessOverflow (factor : Nat) (i : Interpolation) (carried n : Nat) :
    UnlessOverflow (fun _ => True) (Upsampler.outputLenFrom factor i carried n) :=
  (add_unlessOverflow _ _).bind fun _ _ _ => mul_unlessOverflow _ _

theorem predict_unlessOverflow {α ρ : Type} [Zero α] [Scalar ρ] (c : Converter α ρ) (h : Header) :
    UnlessOverflow (fun _ => True) (c.predict h) := by
  simp only [predict]
  split_ifs
  · cases c.kernel with
    | spline u => exact outputLenFrom_unlessOverflow _ _ _ _
    | _ => exact .ok trivial
  · cases c.pending.conversion with
    | up factor i => exact outputLenFrom_unlessOverflow _ _ _ _
    | _ => exact .ok trivial

end Lengths

section Settings

variable {α ρ : Type} [Zero α] [Scalar ρ]

theorem staysIfRefused_setQuality (c : Converter α ρ) (q : Nat) :
    StaysIfRefused c (c.setQuality q) := by
  intro r hr
  obtain ⟨s, -, hq⟩ | ⟨why, -, hq⟩ := c.setQuality_cases q <;> cases hq.symm.trans hr
  rfl

theorem staysIfRefused_configure [Element α] (c : Converter α ρ) (config : Config) :
    StaysIfRefused c (c.configure config) := by
  intro r hr
  obtain ⟨s, -, hc⟩ | ⟨why, -, hc⟩ := c.configure_cases config <;> cases hc.symm.trans hr
  rfl

end Settings

variable {α ρ : Type} [Zero α] [Add α] [Sub α] [Add ρ] [Mul ρ] [Scalar ρ] [Sample α ρ]
variable {c : Converter α ρ} {b : Buffer α} {slice : List α}

theorem Valid.accepts (hc : c.Valid Kernel.Serves) (hb : b.Proper) {n : Nat}
    (hn : c.predict b.header = .ok n) (hfit : n ≤ slice.length) :
    UnlessOverflow (fun r => ∃ t, r = .ok t) (c.transform b slice) := by
  rw [transform_of_predict hb hn hfit, absorb_eq]
  have hrun : UnlessOverflow (fun _ => True) (c.enter b.header >>= fun d => d.proceed b n) := by
    apply (enter_unlessOverflow c b.header).bind
    intro d hd _
    have hlen := (predict_eq hc hd).symm.trans hn
    exact ((hc.enter Kernel.serves_stable hd).proceed_unlessOverflow hb hlen).mono
      fun _ _ _ => trivial
  exact hrun.bind fun r _ _ => .ok ⟨_, rfl⟩

theorem Valid.transform_ne_error (hc : c.Valid Kernel.Serves) (hb : b.Proper) {n : Nat}
    (hn : c.predict b.header = .ok n) (hfit : n ≤ slice.length)
    (r : Rejected (Converter α ρ) (List α)) : c.transform b slice ≠ .ok (.error r) := by
  have haccepts := hc.accepts hb hn hfit
  intro ht
  rw [ht] at haccepts
  cases haccepts with
  | ok h =>
    obtain ⟨t, ht⟩ := h
    cases ht

theorem transform_of_improper (hb : b.header.gap = false ∧ b.samples.length ≠ b.header.len) :
    c.transform b slice =
      .ok (.error ⟨c, slice, .inputLength b.header.len b.samples.length⟩) := if_pos hb

theorem transform_of_predict_error
    (hb : ¬(b.header.gap = false ∧ b.samples.length ≠ b.header.len)) {f : Fault}
    (hp : c.predict b.header = .error f) : c.transform b slice = .error f := by
  simp only [transform]
  rw [if_neg hb, hp]
  rfl

theorem transform_of_lt (hb : ¬(b.header.gap = false ∧ b.samples.length ≠ b.header.len)) {n : Nat}
    (hp : c.predict b.header = .ok n) (hfit : slice.length < n) :
    c.transform b slice = .ok (.error ⟨c, slice, .outputLength n slice.length⟩) := by
  simp only [transform]
  rw [if_neg hb, hp, ok_bind, if_pos hfit]

theorem Valid.failsAsDocumented (hc : c.Valid Kernel.Serves) (b : Buffer α) (slice : List α) :
    FailsAsDocumented c slice b.header b.samples.length slice.length (c.predict b.header)
      (c.transform b slice) := by
  have hpredict := predict_unlessOverflow c b.header
  have hunchanged (r : Rejected (Converter α ρ) (List α))
      (hr : c.transform b slice = .ok (.error r)) : r.state = c ∧ r.slice = slice := by
    obtain ⟨why, rfl⟩ := exists_of_rejected hr
    exact ⟨rfl, rfl⟩
  by_cases hb : b.header.gap = false ∧ b.samples.length ≠ b.header.len
  · rw [transform_of_improper hb] at hunchanged ⊢
    refine ⟨fun _ _ => ?_, fun _ _ => ?_, nofun, hunchanged, hpredict, fun h => absurd hb h⟩
    · simp [hb, eq_comm]
    · simp [hb]
  · cases hp : c.predict b.header with
    | error f =>
      rw [hp] at hpredict
      rw [transform_of_predict_error hb hp] at hunchanged ⊢
      refine ⟨fun _ _ => ?_, fun _ _ => ?_, nofun, hunchanged, hpredict, fun _ _ => ?_⟩
      · simp [hb]
      · simp
      · cases hpredict
        exact .overflow
    | ok n =>
      by_cases hfit : slice.length < n
      · rw [transform_of_lt hb hp hfit] at hunchanged ⊢
        refine ⟨fun _ _ => ?_, fun _ _ => ?_, nofun, hunchanged, .ok trivial, fun _ h => ?_⟩
        · simp [hb]
        · simp only [Except.ok.injEq, Except.error.injEq, Rejected.mk.injEq, true_and,
            Rejection.outputLength.injEq]
          constructor
          · rintro ⟨rfl, rfl⟩
            exact ⟨hb, rfl, hfit, rfl⟩
          · rintro ⟨-, rfl, -, rfl⟩
            exact ⟨rfl, rfl⟩
        · exact absurd (h n rfl) hfit.not_ge
      · have hproper : b.Proper := by
          rw [not_and_not_right] at hb
          exact or_iff_not_imp_left.mpr fun hg => hb (Bool.eq_false_iff.mpr hg)
        have hroom := Nat.le_of_not_lt hfit
        have hne := hc.transform_ne_error hproper hp hroom
        refine ⟨fun _ _ => ⟨fun h => absurd h (hne _), fun h => absurd h.1 hb⟩, fun _ _ => ?_,
          fun _ _ => hne _, hunchanged, .ok trivial, fun _ _ => hc.accepts hproper hp hroom⟩
        refine ⟨fun h => absurd h (hne _), fun h => ?_⟩
        obtain ⟨-, hm, hlt, -⟩ := h
        cases hm
        exact absurd hlt hfit

theorem respond_failsInert [Element α] :
    FailsInert (respond (α := α) (ρ := ρ)) := by
  intro c r c' y h hy
  cases r with
  | transform job =>
    obtain ⟨t, ht, h⟩ := bind_eq_ok_iff.mp h
    cases t with
    | ok t =>
      cases h
      cases hy
    | error r =>
      obtain ⟨why, rfl⟩ := exists_of_rejected ht
      cases h
      rfl
  | predict | required | split =>
    obtain ⟨_, -, h⟩ := bind_eq_ok_iff.mp h
    cases h
    cases hy
  | setQuality q => exact (c.staysIfRefused_setQuality q).failed h hy
  | configure config => exact (c.staysIfRefused_configure config).failed h hy
  | setZeroLatency | reset =>
    cases h
    cases hy

end Converter

namespace AnyConverter

theorem exists_of_rejected {a : AnyConverter} {job : AnyJob} {r : Rejected AnyConverter Samples}
    (h : a.transform job = .ok (.error r)) : ∃ why, r = ⟨a, job.slice, why⟩ := by
  induction a using of_carries with
  | h w c =>
    obtain ⟨why, hr⟩ | ⟨xs, ys, t, -, -, -, hr⟩ := w.transform_cases c h <;> cases hr
    exact ⟨why, rfl⟩

theorem staysIfRefused_setQuality (a : AnyConverter) (q : Nat) :
    StaysIfRefused a (a.setQuality q) := by
  intro r hr
  induction a using of_carries with
  | h w c =>
    obtain ⟨d, -, hq⟩ | ⟨why, hq⟩ := w.quality_cases c q <;> cases hq.symm.trans hr
    rfl

theorem staysIfRefused_configure (a : AnyConverter) (config : Config) :
    StaysIfRefused a (a.configure config) := by
  intro r hr
  induction a using of_carries with
  | h w c =>
    obtain ⟨d, -, hc⟩ | ⟨d, -, hc⟩ | ⟨why, hc⟩ := w.configure_cases c config <;>
      cases hc.symm.trans hr
    rfl

theorem respond_failsInert : FailsInert respond := by
  intro a r a' y h hy
  cases r with
  | transform job =>
    obtain ⟨t, ht, h⟩ := bind_eq_ok_iff.mp h
    cases t with
    | ok t =>
      cases h
      cases hy
    | error r =>
      obtain ⟨why, rfl⟩ := exists_of_rejected ht
      cases h
      rfl
  | predict | required | split =>
    obtain ⟨_, -, h⟩ := bind_eq_ok_iff.mp h
    cases h
    cases hy
  | setQuality q => exact (a.staysIfRefused_setQuality q).failed h hy
  | configure config => exact (a.staysIfRefused_configure config).failed h hy
  | setZeroLatency | reset =>
    cases h
    cases hy

/-- Which type is named when samples are turned away for it, and that lengths count only then. -/
structure TurnsAway (a : AnyConverter) (job : AnyJob) : Prop where
  input : job.samples.type ≠ a.type →
    a.transform job = .ok (.error ⟨a, job.slice, .elementType a.type job.samples.type⟩)
  output : job.samples.type = a.type → job.slice.type ≠ a.type →
    a.transform job = .ok (.error ⟨a, job.slice, .elementType a.type job.slice.type⟩)
  lengths : job.samples.type = a.type → job.slice.type = a.type →
    FailsAsDocumented a job.slice job.header job.samples.length job.slice.length
      (a.predict job.header) (a.transform job)

theorem Carries.turnsAway {α ρ : Type} [Zero α] [Add α] [Sub α] [Add ρ] [Mul ρ] [Scalar ρ]
    [Sample α ρ] [Element α] {wrap : Converter α ρ → AnyConverter} {list : List α → Samples}
    (w : Carries wrap list) {c : Converter α ρ} (hc : c.Valid Kernel.Serves) (job : AnyJob) :
    (wrap c).TurnsAway job := by
  refine ⟨fun h => ?_, fun h h' => ?_, fun h h' => ?_⟩
  · rw [transform_of_type_ne fun hboth => h hboth.1, if_neg h]
  · rw [transform_of_type_ne fun hboth => h' hboth.2, if_pos h]
  · obtain ⟨header, xs, ys⟩ := job
    rw [w.type] at h h'
    obtain ⟨xs, rfl⟩ := (w.samples xs).mp h
    obtain ⟨ys, rfl⟩ := (w.samples ys).mp h'
    dsimp only
    rw [w.transform, w.length, w.length, w.predict]
    exact (hc.failsAsDocumented ⟨header, xs⟩ ys).ofTyped wrap list

end AnyConverter

namespace Converter

variable {α ρ : Type} [Zero α] [Add α] [Sub α] [Add ρ] [Mul ρ] [Scalar ρ] [Sample α ρ] [Element α]

theorem run_eq_ok_iff {c d : Converter α ρ} {rs : List (Request (Job α))}
    {ys : List (Reply (List α))} :
    c.run rs = .ok (d, ys) ↔
      ∃ turns, Dialogue respond c turns d ∧ turns.map Turn.request = rs ∧
        turns.map Turn.reply = ys := by
  constructor
  · intro h
    induction rs generalizing c ys with
    | nil =>
      cases h
      exact ⟨[], .nil _, rfl, rfl⟩
    | cons r rs ih =>
      obtain ⟨p, hp, h⟩ := bind_eq_ok_iff.mp h
      obtain ⟨q, hq, h⟩ := bind_eq_ok_iff.mp h
      cases h
      obtain ⟨turns, hturns, rfl, hys⟩ := ih hq
      exact ⟨⟨r, p.2, p.1⟩ :: turns, .cons hp hturns, rfl, congr_arg (p.2 :: ·) hys⟩
  · rintro ⟨turns, h, rfl, rfl⟩
    induction h with
    | nil => rfl
    | cons h _ ih =>
      simp only [List.map_cons, run, h, ok_bind, ih]

theorem slice_of_rejected {c d : Converter α ρ} {job : Job α} {slice : List α} {why : Rejection}
    (h : c.respond (.transform job) = .ok (d, .rejected slice why)) : slice = job.slice := by
  obtain ⟨t, ht, h⟩ := bind_eq_ok_iff.mp h
  cases t with
  | ok t => cases h
  | error r =>
    obtain ⟨_, rfl⟩ := exists_of_rejected ht
    cases h
    rfl

end Converter

theorem AnyConverter.slice_of_rejected {a d : AnyConverter} {job : AnyJob} {slice : Samples}
    {why : Rejection} (h : a.respond (.transform job) = .ok (d, .rejected slice why)) :
    slice = job.slice := by
  obtain ⟨t, ht, h⟩ := bind_eq_ok_iff.mp h
  cases t with
  | ok t => cases h
  | error r =>
    obtain ⟨_, rfl⟩ := exists_of_rejected ht
    cases h
    rfl

/-- Requests fail when they are said to and at no other time. What fails leaves the state and
the slice as they were, and a run is as if the requests that failed had not been made: the
other replies are the same, and so is every state. -/
theorem failures_without_effect {α ρ : Type} [Zero α] [Add α] [Sub α] [Add ρ] [Mul ρ] [Scalar ρ]
    [Sample α ρ] [Element α] {c : Converter α ρ} (hc : c.Reachable) {a : AnyConverter}
    (ha : a.Reachable) :
    (∀ b slice, FailsAsDocumented c slice b.header b.samples.length slice.length
      (c.predict b.header) (c.transform b slice)) ∧
    (∀ job, a.TurnsAway job) ∧
    ((∀ q, StaysIfRefused c (c.setQuality q)) ∧
      ∀ config, StaysIfRefused c (c.configure config)) ∧
    ((∀ q, StaysIfRefused a (a.setQuality q)) ∧
      ∀ config, StaysIfRefused a (a.configure config)) ∧
    (∀ turns d, Dialogue Converter.respond c turns d →
      Dialogue Converter.respond c (turns.filter fun turn => !turn.reply.failed) d) ∧
    (∀ turns d, Dialogue AnyConverter.respond a turns d →
      Dialogue AnyConverter.respond a (turns.filter fun turn => !turn.reply.failed) d) ∧
    (∀ job d slice why, c.respond (.transform job) = .ok (d, .rejected slice why) →
      slice = job.slice) ∧
    ∀ job d slice why, a.respond (.transform job) = .ok (d, .rejected slice why) →
      slice = job.slice := by
  refine ⟨(hc.valid Kernel.serves_stable).failsAsDocumented, ?_,
    ⟨c.staysIfRefused_setQuality, c.staysIfRefused_configure⟩,
    ⟨a.staysIfRefused_setQuality, a.staysIfRefused_configure⟩,
    fun _ _ h => h.filter Converter.respond_failsInert,
    fun _ _ h => h.filter AnyConverter.respond_failsInert,
    fun _ _ _ _ h => Converter.slice_of_rejected h,
    fun _ _ _ _ h => AnyConverter.slice_of_rejected h⟩
  have hinner := ha.inner
  induction a using AnyConverter.of_carries with
  | h w c => exact w.turnsAway (((w.inner c).mp hinner).valid Kernel.serves_stable)

open Converter in
theorem failures_without_effect_before_points :
    ∃ (c : Converter Float Float) (t : Transformed Float Float),
      Dialogue respond c [⟨.transform ⟨threePoints, List.replicate 9 0⟩,
        .transformed t.slice t.stamp, t.converter⟩] t.converter ∧
      (AnyConverter.f64 c).transform ⟨threePoints.header, .f32 [], .z64 []⟩ =
        .ok (.error ⟨.f64 c, .z64 [], .elementType .f64 .f32⟩) := by
  have hmade : ofConfig (tripling 0 .hold).config =
      .ok (ofSetup (tripling 0 .hold) : Converter Float Float) := rfl
  have hany : AnyConverter.ofConfig (tripling 0 .hold).config =
      .ok (.f64 (ofSetup (tripling 0 .hold))) := rfl
  obtain ⟨-, haway, -, -, hrun, -⟩ := failures_without_effect (.made hmade) (.made hany)
  obtain ⟨why, t, hquality, hshort, ht⟩ : ∃ (why : ConfigError) (t : Transformed Float Float),
      (ofSetup (tripling 0 .hold) : Converter Float Float).respond (.setQuality 9) =
        .ok (ofSetup (tripling 0 .hold), .refused why) ∧
      (ofSetup (tripling 0 .hold)).respond (.transform ⟨threePoints, List.replicate 8 0⟩) =
        .ok (ofSetup (tripling 0 .hold), .rejected (List.replicate 8 0) (.outputLength 9 8)) ∧
      (ofSetup (tripling 0 .hold)).respond (.transform ⟨threePoints, List.replicate 9 0⟩) =
        .ok (t.converter, .transformed t.slice t.stamp) :=
    ⟨_, ⟨_, _, _⟩, rfl, rfl, rfl⟩
  exact ⟨_, t, hrun _ _ (.cons hquality (.cons hshort (.cons ht (.nil _)))),
    (haway _).input (by decide)⟩

end RateConversion
