import RateConversion.Proofs.Spans
import RateConversion.Proofs.Steps

/-! States that no sequence of requests tells apart. They agree in everything but the slots
of a ring and what is kept for the kernels to come: two rings are alike when they hold the
same list, and a table or zeros at hand have no part in anything. Every operation takes alike
states to alike states with the same reply, or to the same fault. -/

namespace RateConversion

/-- Two computations that give related results or meet the same fault. -/
inductive Checked.Both {α β : Type} (R : α → β → Prop) : Checked α → Checked β → Prop
  | ok {a : α} {b : β} (h : R a b) : Both R (.ok a) (.ok b)
  | fault (f : Fault) : Both R (.error f) (.error f)

namespace Checked.Both

variable {α β γ δ : Type} {R : α → β → Prop} {S : γ → δ → Prop}

theorem bind_of_ok {x : Checked α} {y : Checked β} {f : α → Checked γ} {g : β → Checked δ}
    (h : Both R x y) (hfg : ∀ a b, x = .ok a → R a b → Both S (f a) (g b)) :
    Both S (x >>= f) (y >>= g) := by
  cases h with
  | ok hab => exact hfg _ _ rfl hab
  | fault e => exact .fault e

theorem bind {x : Checked α} {y : Checked β} {f : α → Checked γ} {g : β → Checked δ}
    (h : Both R x y) (hfg : ∀ a b, R a b → Both S (f a) (g b)) : Both S (x >>= f) (y >>= g) :=
  h.bind_of_ok fun a b _ => hfg a b

theorem same {R : α → α → Prop} (x : Checked α) (h : ∀ a, R a a) : Both R x x := by
  cases x with
  | ok a => exact .ok (h a)
  | error e => exact .fault e

theorem bind_same {x : Checked α} {f : α → Checked γ} {g : α → Checked δ}
    (hfg : ∀ a, Both S (f a) (g a)) : Both S (x >>= f) (x >>= g) := by
  refine bind (same x fun _ => rfl) fun a b hab => ?_
  cases hab
  exact hfg a

theorem trans {T : β → γ → Prop} {U : α → γ → Prop} {x : Checked α} {y : Checked β}
    {z : Checked γ} (h : Both R x y) (h' : Both T y z) (hU : ∀ a b c, R a b → T b c → U a c) :
    Both U x z := by
  cases h with
  | ok hab =>
    cases h' with
    | ok hbc => exact .ok (hU _ _ _ hab hbc)
  | fault e =>
    cases h' with
    | fault => exact .fault e

theorem mono {S : α → β → Prop} {x : Checked α} {y : Checked β} (h : Both R x y)
    (hS : ∀ a b, R a b → S a b) : Both S x y := by
  cases h with
  | ok hab => exact .ok (hS _ _ hab)
  | fault e => exact .fault e

theorem exists_left {x : Checked α} {b : β} (h : Both R x (.ok b)) : ∃ a, x = .ok a ∧ R a b := by
  cases h with
  | ok hab => exact ⟨_, rfl, hab⟩

theorem exists_right {y : Checked β} {a : α} (h : Both R (.ok a) y) : ∃ b, y = .ok b ∧ R a b := by
  cases h with
  | ok hab => exact ⟨_, rfl, hab⟩

theorem map_eq {x : Checked α} {y : Checked β} {f : α → γ} {g : β → γ} (h : Both R x y)
    (hfg : ∀ a b, R a b → f a = g b) : x.map f = y.map g := by
  cases h with
  | ok hab => exact congr_arg Except.ok (hfg _ _ hab)
  | fault e => rfl

end Checked.Both

namespace History

variable {α : Type} [Zero α]

structure Alike (h g : History α) : Prop where
  left : h.Sound
  right : g.Sound
  capacity : h.capacity = g.capacity
  toList : h.toList = g.toList

namespace Alike

variable {h g : History α}

theorem symm (a : h.Alike g) : g.Alike h :=
  ⟨a.right, a.left, a.capacity.symm, a.toList.symm⟩

theorem trans {k : History α} (hg : h.Alike g) (gk : g.Alike k) : h.Alike k :=
  ⟨hg.left, gk.right, hg.capacity.trans gk.capacity, hg.toList.trans gk.toList⟩

theorem size (a : h.Alike g) : h.size = g.size := by
  rw [← length_toList, a.toList, length_toList]

theorem clear (a : h.Alike g) : h.clear.Alike g.clear :=
  ⟨clear_sound h, clear_sound g, a.capacity, rfl⟩

theorem extend (a : h.Alike g) (xs : List α) : (h.extend xs).Alike (g.extend xs) := by
  obtain ⟨h1, h2, h3⟩ := extend_spec a.left xs
  obtain ⟨g1, g2, g3⟩ := extend_spec a.right xs
  exact ⟨h1, g1, by rw [h2, g2, a.capacity], by rw [h3, g3, a.capacity, a.toList]⟩

end Alike

end History

namespace SincFilter

variable {α ρ : Type} [Zero α]

structure Alike (f g : SincFilter α ρ) : Prop where
  taps : f.taps = g.taps
  clock : f.clock = g.clock
  history : f.history.Alike g.history

theorem after_append {f : SincFilter α ρ} (hf : f.Sound) (xs ys : List α) :
    (f.after (xs ++ ys)).Alike ((f.after xs).after ys) := by
  obtain ⟨h1, h2, h3⟩ := History.extend_spec hf.history (xs ++ ys)
  obtain ⟨g1, g2, g3⟩ := History.extend_spec hf.history xs
  obtain ⟨k1, k2, k3⟩ := History.extend_spec g1 ys
  refine ⟨rfl, ?_, h1, k1, ?_, ?_⟩
  · simp only [after, List.length_append, TickClock.after_add hf.clock]
  · exact h2.trans (k2.trans g2).symm
  · change (f.history.extend (xs ++ ys)).toList = ((f.history.extend xs).extend ys).toList
    rw [h3, k3, g2, g3, rtake_rtake_append, List.append_assoc]

namespace Alike

variable {f g : SincFilter α ρ}

theorem symm (a : f.Alike g) : g.Alike f := ⟨a.taps.symm, a.clock.symm, a.history.symm⟩

theorem trans {k : SincFilter α ρ} (fg : f.Alike g) (gk : g.Alike k) : f.Alike k :=
  ⟨fg.taps.trans gk.taps, fg.clock.trans gk.clock, fg.history.trans gk.history⟩

theorem reset (a : f.Alike g) (leading : Nat) : (f.reset leading).Alike (g.reset leading) :=
  ⟨a.taps, by simp only [SincFilter.reset, a.taps, a.clock], a.history.clear⟩

theorem skip (a : f.Alike g) (n : Nat) : Checked.Both Alike (f.skip n) (g.skip n) := by
  simp only [SincFilter.skip]
  rw [a.clock, History.extendZeros_eq, History.extendZeros_eq]
  exact .bind_same fun clock => .ok ⟨a.taps, rfl, a.history.extend _⟩

theorem after (a : f.Alike g) (xs : List α) : (f.after xs).Alike (g.after xs) := by
  refine ⟨a.taps, ?_, a.history.extend xs⟩
  simp only [SincFilter.after, a.clock]

variable [Sample α ρ]

theorem isSilent (a : f.Alike g) : f.isSilent = g.isSilent := by
  rw [SincFilter.isSilent, SincFilter.isSilent, History.isSilent, History.isSilent,
    a.history.toList]

variable [Add α]

theorem outputs (a : f.Alike g) (xs : List α) : f.outputs xs = g.outputs xs := by
  simp only [SincFilter.outputs, a.clock, a.taps, a.history.toList, a.history.size]

theorem feed (a : f.Alike g) (xs : List α) :
    Checked.Both (fun p q => p.1.Alike q.1 ∧ p.2 = q.2) (f.feed xs) (g.feed xs) := by
  simp only [SincFilter.feed, output_eq]
  rw [a.clock, a.taps, a.history.size, a.history.toList]
  exact .bind_same fun ys => .bind_same fun clock => .ok ⟨⟨rfl, rfl, a.history.extend xs⟩, rfl⟩

end Alike

end SincFilter

namespace Kernel

variable {α ρ : Type} [Zero α]

inductive Alike : Kernel α ρ → Kernel α ρ → Prop
  | same (k : Kernel α ρ) : Alike k k
  | sinc {f g : SincFilter α ρ} (h : f.Alike g) : Alike (.sinc f) (.sinc g)

theorem Alike.symm {k l : Kernel α ρ} (a : k.Alike l) : l.Alike k := by
  cases a with
  | same => exact .same _
  | sinc fg => exact .sinc fg.symm

theorem Alike.trans {k l m : Kernel α ρ} (kl : k.Alike l) (lm : l.Alike m) : k.Alike m := by
  cases kl with
  | same => exact lm
  | sinc fg =>
    cases lm with
    | same => exact .sinc fg
    | sinc gh => exact .sinc (fg.trans gh)

end Kernel

structure Produced.Alike {α ρ : Type} [Zero α] (p q : Produced α ρ) : Prop where
  kernel : p.kernel.Alike q.kernel
  output : p.output = q.output
  loud : p.loud = q.loud

namespace Kernel.Alike

variable {α ρ : Type} [Zero α] {k l : Kernel α ρ}

theorem outputLen (a : k.Alike l) (n : Nat) : k.outputLen n = l.outputLen n := by
  cases a with
  | same => rfl
  | sinc fg => rw [Kernel.outputLen, Kernel.outputLen, fg.clock]

theorem isSilent [Sample α ρ] (a : k.Alike l) : k.isSilent = l.isSilent := by
  cases a with
  | same => rfl
  | sinc fg => exact fg.isSilent

variable [Scalar ρ]

theorem reset (a : k.Alike l) (leading : Nat) : (k.reset leading).Alike (l.reset leading) := by
  cases a with
  | same => exact .same _
  | sinc fg => exact .sinc (fg.reset leading)

variable [Add ρ]

theorem skip (a : k.Alike l) (n : Nat) : Checked.Both Alike (k.skip n) (l.skip n) := by
  cases a with
  | same => exact .same _ .same
  | sinc fg => exact (fg.skip n).bind fun p q h => .ok (.sinc h)

variable [Add α] [Sub α] [Mul ρ] [Sample α ρ]

theorem feed (a : k.Alike l) (xs : List α) :
    Checked.Both (fun p q => p.1.Alike q.1 ∧ p.2 = q.2) (k.feed xs) (l.feed xs) := by
  cases a with
  | same => exact .same _ fun p => ⟨.same _, rfl⟩
  | sinc fg => exact (fg.feed xs).bind fun p q h => .ok ⟨.sinc h.1, h.2⟩

theorem feedGap (a : k.Alike l) (n room : Nat) :
    Checked.Both Produced.Alike (k.feedGap n room) (l.feedGap n room) := by
  induction n using Nat.strong_induction_on generalizing k l room with
  | _ n ih =>
    rw [Kernel.feedGap, Kernel.feedGap, a.isSilent]
    split_ifs with h0 hsilent
    · exact .ok ⟨a, rfl, rfl⟩
    · exact (a.skip n).bind fun k' l' h => .ok ⟨h, rfl, rfl⟩
    · refine (a.feed _).bind fun p q hfed => ?_
      obtain ⟨h1, h2⟩ := hfed
      dsimp only
      rw [h2]
      split_ifs with hroom
      · exact .fault _
      · refine (ih (n - min n blockLen) (by simp only [blockLen]; omega) h1 _).bind
          fun p q h => ?_
        rw [h.loud, h.output]
        exact .ok ⟨h.kernel, rfl, rfl⟩

theorem give (a : k.Alike l) (b : Buffer α) (room : Nat) :
    Checked.Both Produced.Alike (k.give b room) (l.give b room) := by
  simp only [Kernel.give]
  split_ifs
  · exact a.feedGap _ _
  · exact (a.feed _).bind fun p q h => .ok ⟨h.1, h.2, rfl⟩

end Kernel.Alike

namespace Converter

variable {α ρ : Type} [Zero α] [Scalar ρ]

structure Alike (c d : Converter α ρ) : Prop where
  setup : c.setup = d.setup
  staged : c.staged? = d.staged?
  segment : c.segment = d.segment
  kernel : c.kernel.Alike d.kernel

theorem configured_alike (c : Converter α ρ) (s : Setup) : (c.configured s).Alike (ofSetup s) := by
  refine ⟨rfl, rfl, rfl, ?_⟩
  rw [configured_kernel, ofSetup_kernel]
  exact .same _

namespace Alike

theorem refl (c : Converter α ρ) : c.Alike c := ⟨rfl, rfl, rfl, .same _⟩

variable {c d : Converter α ρ}

theorem symm (a : c.Alike d) : d.Alike c :=
  ⟨a.setup.symm, a.staged.symm, a.segment.symm, a.kernel.symm⟩

theorem trans {e : Converter α ρ} (cd : c.Alike d) (de : d.Alike e) : c.Alike e :=
  ⟨cd.setup.trans de.setup, cd.staged.trans de.staged, cd.segment.trans de.segment,
    cd.kernel.trans de.kernel⟩

theorem pending (a : c.Alike d) : c.pending = d.pending := by
  rw [Converter.pending, Converter.pending, a.staged, a.setup]

theorem requiredLen (a : c.Alike d) (n : Nat) : c.requiredLen n = d.requiredLen n := by
  rw [Converter.requiredLen, Converter.requiredLen, a.setup]

theorem splitStamp (a : c.Alike d) (m : Stamp) : c.splitStamp m = d.splitStamp m := by
  rw [Converter.splitStamp, Converter.splitStamp, a.segment, a.setup]

theorem predict (a : c.Alike d) (h : Header) : c.predict h = d.predict h := by
  rw [Converter.predict, Converter.predict, a.segment, a.kernel.outputLen, a.pending, a.setup]

theorem reset (a : c.Alike d) : c.reset.Alike d.reset :=
  ⟨a.setup, a.staged, rfl, a.kernel.reset 0⟩

theorem adopt (a : c.Alike d) : c.adopt.Alike d.adopt := by
  refine ⟨?_, ?_, ?_, ?_⟩
  · rw [adopt_setup, adopt_setup, a.pending]
  · rw [adopt_staged, adopt_staged]
  · rw [adopt_segment, adopt_segment, a.segment]
  · rw [adopt_kernel, adopt_kernel, a.pending, a.setup]
    split_ifs
    · exact a.kernel
    · exact .same _

theorem openSegment (a : c.Alike d) (h : Header) :
    Checked.Both Alike (c.openSegment h) (d.openSegment h) := by
  have ha := a.adopt
  simp only [Converter.openSegment]
  rw [ha.setup]
  exact .bind_same fun s => .ok ⟨rfl, ha.staged, rfl, ha.kernel.reset _⟩

theorem enter (a : c.Alike d) (h : Header) :
    Checked.Both Alike (c.enter h) (d.enter h) := by
  simp only [Converter.enter]
  rw [a.segment]
  split_ifs
  · exact .ok a
  · exact a.openSegment h

variable [Add α] [Sub α] [Add ρ] [Mul ρ] [Sample α ρ]

theorem proceed (a : c.Alike d) (b : Buffer α) (expected : Nat) :
    Checked.Both (fun p q => p.1.Alike q.1 ∧ p.2 = q.2) (c.proceed b expected)
      (d.proceed b expected) := by
  simp only [Converter.proceed]
  rw [a.kernel.outputLen, a.segment, a.setup]
  refine .bind_same fun nextIn => .bind_same fun len => .bind_same fun _ => ?_
  refine (a.kernel.give b expected).bind fun p q h => ?_
  rw [h.output, h.loud]
  exact .bind_same fun _ => .bind_same fun r => .ok ⟨⟨rfl, a.staged, rfl, h.kernel⟩, rfl⟩

theorem absorb (a : c.Alike d) (b : Buffer α) (expected : Nat) :
    Checked.Both (fun p q => p.1.Alike q.1 ∧ p.2 = q.2) (c.absorb b expected)
      (d.absorb b expected) := by
  rw [absorb_eq, absorb_eq]
  exact (a.enter b.header).bind fun _ _ h => h.proceed b expected

inductive OnTransform : Except (Rejected (Converter α ρ) (List α)) (Transformed α ρ) →
    Except (Rejected (Converter α ρ) (List α)) (Transformed α ρ) → Prop
  | accepted {t u : Transformed α ρ} (h : t.converter.Alike u.converter) (hs : t.slice = u.slice)
    (hm : t.stamp = u.stamp) : OnTransform (.ok t) (.ok u)
  | rejected {c d : Converter α ρ} (h : c.Alike d) (slice : List α) (why : Rejection) :
    OnTransform (.error ⟨c, slice, why⟩) (.error ⟨d, slice, why⟩)

theorem transform (a : c.Alike d) (b : Buffer α) (slice : List α) :
    Checked.Both OnTransform (c.transform b slice) (d.transform b slice) := by
  simp only [Converter.transform]
  rw [a.predict]
  split_ifs with hlen
  · exact .ok (.rejected a _ _)
  · refine .bind_same fun expected => ?_
    split_ifs
    · exact .ok (.rejected a _ _)
    · refine (a.absorb b expected).bind ?_
      rintro ⟨_, _⟩ ⟨_, _⟩ ⟨h, hr⟩
      cases hr
      exact .ok (.accepted h rfl rfl)

variable [Element α]

theorem respond (a : c.Alike d) (r : Request (Job α)) :
    Checked.Both (fun p q => p.1.Alike q.1 ∧ p.2 = q.2) (c.respond r) (d.respond r) := by
  cases r with
  | transform job =>
    refine (a.transform job.buffer job.slice).bind fun t u h => ?_
    cases h with
    | accepted h hs hm => exact .ok ⟨h, by rw [hs, hm]⟩
    | rejected h slice why => exact .ok ⟨h, rfl⟩
  | predict h =>
    simp only [Converter.respond, a.predict]
    exact .bind_same fun n => .ok ⟨a, rfl⟩
  | required n =>
    simp only [Converter.respond, a.requiredLen]
    exact .bind_same fun n => .ok ⟨a, rfl⟩
  | setQuality q =>
    simp only [Converter.respond, Converter.setQuality, a.pending]
    cases d.pending.withQuality q with
    | error e => exact .ok ⟨a, rfl⟩
    | ok s => exact .ok ⟨⟨a.setup, rfl, a.segment, a.kernel⟩, rfl⟩
  | setZeroLatency b =>
    simp only [Converter.respond, Converter.setZeroLatency, a.pending]
    exact .ok ⟨⟨a.setup, rfl, a.segment, a.kernel⟩, rfl⟩
  | configure config =>
    simp only [Converter.respond, Converter.configure]
    cases check α config with
    | error e => exact .ok ⟨a, rfl⟩
    | ok s => exact .ok ⟨(c.configured_alike s).trans (d.configured_alike s).symm, rfl⟩
  | reset => exact .ok ⟨a.reset, rfl⟩
  | split m =>
    simp only [Converter.respond, a.splitStamp]
    exact .bind_same fun parts => .ok ⟨a, rfl⟩

theorem run (a : c.Alike d) (rs : List (Request (Job α))) :
    Checked.Both (fun p q => p.1.Alike q.1 ∧ p.2 = q.2) (c.run rs) (d.run rs) := by
  induction rs generalizing c d with
  | nil => exact .ok ⟨a, rfl⟩
  | cons r rs ih =>
    refine (a.respond r).bind ?_
    rintro ⟨_, _⟩ ⟨_, _⟩ ⟨h, hy⟩
    refine (ih h).bind ?_
    rintro ⟨_, _⟩ ⟨_, _⟩ ⟨h', hys⟩
    cases hy
    cases hys
    exact .ok ⟨h', rfl⟩

end Alike

variable [Add α] [Sub α] [Add ρ] [Mul ρ] [Sample α ρ] [Element α]

/-- No run of requests tells the states apart: not by its replies, its fault or the settings
that it leaves. -/
def Indistinguishable (c d : Converter α ρ) : Prop :=
  ∀ rs : List (Request (Job α)),
    (c.run rs).map (fun r => (r.1.setup, r.2)) = (d.run rs).map fun r => (r.1.setup, r.2)

theorem Alike.indistinguishable {c d : Converter α ρ} (h : c.Alike d) :
    c.Indistinguishable d := by
  intro rs
  apply (h.run rs).map_eq
  rintro p q ⟨hpq, hys⟩
  rw [hpq.setup, hys]

end Converter

end RateConversion
