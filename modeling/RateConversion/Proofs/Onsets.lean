import RateConversion.Proofs.Refusals

/-! Where a segment is first heard. In any run the mark of discontinuity is on the first output
of a segment that has samples, and on no other, however many segments come to nothing before. -/

namespace RateConversion

structure Accepted where
  opens : Bool
  stamp : Stamp

/-- Of the first `n` accepted buffers the last that opened a segment is the one at `i`. -/
structure LastOpening (as : List Accepted) (n i : Nat) : Prop where
  lt : i < n
  opens : ∃ a, as[i]? = some a ∧ a.opens = true
  last (j : Nat) (a : Accepted) : i < j → j < n → as[j]? = some a → a.opens = false

def Unheard (as : List Accepted) (i n : Nat) : Prop :=
  ∀ j a, i ≤ j → j < n → as[j]? = some a → a.stamp.isEmpty = true

section Lists

variable {as bs : List Accepted} {a : Accepted} {i n : Nat}

theorem LastOpening.append (h : LastOpening as n i) (hn : n ≤ as.length) (bs : List Accepted) :
    LastOpening (as ++ bs) n i := by
  obtain ⟨hlt, ⟨a, ha, ho⟩, hlast⟩ := h
  refine ⟨hlt, ⟨a, ?_, ho⟩, fun j b hij hj hb => ?_⟩
  · rwa [List.getElem?_append_left (by omega)]
  · rw [List.getElem?_append_left (by omega)] at hb
    exact hlast j b hij hj hb

theorem LastOpening.mono {m : Nat} (h : LastOpening as n i) (hi : i < m) (hm : m ≤ n) :
    LastOpening as m i :=
  ⟨hi, h.opens, fun j a hij hj ha => h.last j a hij (by omega) ha⟩

theorem LastOpening.unique {j : Nat} (h : LastOpening as n i) (h' : LastOpening as n j) :
    i = j := by
  have hbefore {i j : Nat} (h : LastOpening as n i) (h' : LastOpening as n j) : ¬i < j := by
    obtain ⟨a, ha, ho⟩ := h'.opens
    intro hij
    rw [h.last j a hij h'.lt ha] at ho
    cases ho
  exact Nat.le_antisymm (Nat.le_of_not_lt (hbefore h' h)) (Nat.le_of_not_lt (hbefore h h'))

theorem unheard_append (hn : n ≤ as.length) (bs : List Accepted) :
    Unheard (as ++ bs) i n ↔ Unheard as i n := by
  refine forall_congr' fun j => forall_congr' fun a => imp_congr_right fun _ => ?_
  refine forall_congr' fun hj => ?_
  rw [List.getElem?_append_left (by omega)]

theorem unheard_concat (hi : i ≤ as.length) :
    Unheard (as ++ [a]) i (as.length + 1) ↔ Unheard as i as.length ∧ a.stamp.isEmpty = true := by
  rw [← unheard_append le_rfl [a]]
  constructor
  · intro h
    refine ⟨fun j b hij hj hb => h j b hij (by omega) hb, h as.length a hi (by omega) ?_⟩
    rw [List.getElem?_concat_length]
  · rintro ⟨h, ha⟩ j b hij hj hb
    rcases Nat.lt_succ_iff_lt_or_eq.mp hj with hlt | rfl
    · exact h j b hij hlt hb
    · rw [List.getElem?_concat_length] at hb
      cases hb
      exact ha

theorem lastOpening_concat_of_opens (ha : a.opens = true) :
    LastOpening (as ++ [a]) (as.length + 1) as.length :=
  ⟨Nat.lt_succ_self _, ⟨a, List.getElem?_concat_length, ha⟩, fun j b hij hj _ => by omega⟩

theorem LastOpening.concat (h : LastOpening as as.length i) (ha : a.opens = false) :
    LastOpening (as ++ [a]) (as.length + 1) i := by
  obtain ⟨hlt, ho, hlast⟩ := h.append le_rfl [a]
  refine ⟨by omega, ho, fun j b hij hj hb => ?_⟩
  rcases Nat.lt_succ_iff_lt_or_eq.mp hj with hlt' | rfl
  · exact hlast j b hij hlt' hb
  · rw [List.getElem?_concat_length] at hb
    cases hb
    exact ha

end Lists

def MarkedFirst (as : List Accepted) (n : Nat) (a : Accepted) : Prop :=
  ∃ i, LastOpening as (n + 1) i ∧
    (a.stamp.discont = true ↔ a.stamp.isEmpty = false ∧ Unheard as i n)

theorem MarkedFirst.append {as : List Accepted} {n : Nat} {a : Accepted}
    (h : MarkedFirst as n a) (hn : n < as.length) (bs : List Accepted) :
    MarkedFirst (as ++ bs) n a := by
  obtain ⟨i, hi, hiff⟩ := h
  refine ⟨i, hi.append hn bs, ?_⟩
  rw [hiff, unheard_append hn.le]

theorem existsUnique_mark {as : List Accepted}
    (h : ∀ n a, as[n]? = some a → MarkedFirst as n a) {i n : Nat} {a : Accepted}
    (hi : LastOpening as (n + 1) i) (ha : as[n]? = some a) (hheard : a.stamp.isEmpty = false) :
    ∃! k, i ≤ k ∧ k ≤ n ∧ ∃ b, as[k]? = some b ∧ b.stamp.discont = true := by
  have hlt := hi.lt
  have hexists : ∃ k, i ≤ k ∧ ∃ b, as[k]? = some b ∧ b.stamp.isEmpty = false :=
    ⟨n, by omega, a, ha, hheard⟩
  classical
  obtain ⟨hik, b, hb, hbheard⟩ := Nat.find_spec hexists
  have hkn : Nat.find hexists ≤ n := Nat.find_min' hexists ⟨by omega, a, ha, hheard⟩
  have hmin (j : Nat) (hj : j < Nat.find hexists) := Nat.find_min hexists hj
  generalize Nat.find hexists = k at hik hb hkn hmin
  have hmark (j : Nat) (b : Accepted) (hij : i ≤ j) (hjn : j ≤ n) (hb : as[j]? = some b) :
      b.stamp.discont = true ↔ b.stamp.isEmpty = false ∧ Unheard as i j := by
    obtain ⟨i', hi', hiff⟩ := h j b hb
    cases hi'.unique (hi.mono (by omega) (by omega))
    exact hiff
  refine ⟨k, ⟨hik, hkn, b, hb, (hmark k b hik hkn hb).mpr ⟨hbheard, fun j e hij hj he => ?_⟩⟩, ?_⟩
  · rw [← Bool.not_eq_false]
    exact fun hfalse => hmin j hj ⟨hij, e, he, hfalse⟩
  · rintro j ⟨hij, hjn, e, he, hdiscont⟩
    obtain ⟨heheard, hunheard⟩ := (hmark j e hij hjn he).mp hdiscont
    -- Neither of two buffers that are heard comes before the other, if each is the first.
    rcases Nat.lt_trichotomy j k with hjk | hjk | hjk
    · exact absurd ⟨hij, e, he, heheard⟩ (hmin j hjk)
    · exact hjk
    · rw [hunheard k b hik hjk hb] at hbheard
      cases hbheard

theorem Segment.isEmpty_stampOf (s : Segment) (rateOut n : Nat) (gap : Bool) (loud : Nat) :
    (s.stampOf rateOut n gap loud).isEmpty = (n == 0) := by
  simp only [stampOf, Stamp.isEmpty]
  cases n <;> simp

namespace Converter

variable {α ρ : Type} [Zero α] [Scalar ρ]

def entries (c : Converter α ρ) : Request (Job α) → Reply (List α) → List Accepted
  | .transform job, .transformed _ stamp => [⟨!c.segment.continues job.buffer.header, stamp⟩]
  | _, _ => []

def history : Converter α ρ → List (Turn (Converter α ρ) (Job α) (List α)) → List Accepted
  | _, [] => []
  | c, turn :: turns => c.entries turn.request turn.reply ++ history turn.after turns

structure Told (as : List Accepted) (c : Converter α ρ) : Prop where
  marks (n : Nat) (a : Accepted) : as[n]? = some a → MarkedFirst as n a
  current : c.segment.start?.isSome →
    ∃ i, LastOpening as as.length i ∧ (c.segment.armed = true ↔ Unheard as i as.length)

variable {as : List Accepted} {c d : Converter α ρ} {b : Buffer α}

theorem Told.of_segment (h : Told as c) (hd : d.segment = c.segment ∨ d.segment = .idle) :
    Told as d := by
  refine ⟨h.marks, fun hstart => ?_⟩
  rcases hd with hd | hd
  · rw [hd] at hstart ⊢
    exact h.current hstart
  · rw [hd] at hstart
    cases hstart

theorem Told.enter (h : Told as c) (he : c.enter b.header = .ok d) (m : Stamp) :
    ∃ i, i ≤ as.length ∧
      LastOpening (as ++ [⟨!c.segment.continues b.header, m⟩]) (as.length + 1) i ∧
      (d.segment.armed = true ↔ Unheard as i as.length) := by
  by_cases hd : c.Discontinuous b.header
  · obtain ⟨-, rfl⟩ := (enter_of_discontinuous hd).mp he
    refine ⟨as.length, le_rfl, lastOpening_concat_of_opens ?_, iff_of_true rfl ?_⟩
    · simp only [continues_eq_false_iff.mpr hd, Bool.not_false]
    · intro j a hle hlt
      omega
  · cases (enter_of_continuous hd).symm.trans he
    have hcontinues := continues_eq_false_iff.not.mpr hd
    rw [Bool.not_eq_false] at hcontinues
    simp only [Discontinuous, not_or] at hd
    obtain ⟨i, hi, harmed⟩ := h.current (Option.isSome_iff_ne_none.mpr hd.2.2.1)
    exact ⟨i, hi.lt.le, hi.concat (by simp only [hcontinues, Bool.not_true]), harmed⟩

variable [Add α] [Sub α] [Add ρ] [Mul ρ] [Sample α ρ]

theorem Told.proceed (h : Told as c) (he : c.enter b.header = .ok d) (ho : d.segment.Ordered)
    {n : Nat} {r : Converter α ρ × List α × Stamp} (hr : d.proceed b n = .ok r) :
    Told (as ++ [⟨!c.segment.continues b.header, r.2.2⟩]) r.1 := by
  obtain ⟨p, -, -, -, -, -, rfl⟩ := exists_of_proceed ho hr
  obtain ⟨i, hle, hi, harmed⟩ :=
    h.enter he (d.segment.stampOf d.setup.rateOut n b.header.gap p.loud)
  refine ⟨fun m a ha => ?_, fun _ => ⟨i, ?_, ?_⟩⟩
  · rcases Nat.lt_or_ge m as.length with hlt | hge
    · rw [List.getElem?_append_left hlt] at ha
      exact (h.marks m a ha).append hlt _
    · obtain rfl : m = as.length := by
        have := (List.getElem?_eq_some_iff.mp ha).1
        rw [List.length_append, List.length_singleton] at this
        omega
      rw [List.getElem?_concat_length] at ha
      cases ha
      refine ⟨i, hi, ?_⟩
      rw [unheard_append le_rfl, ← harmed, Segment.isEmpty_stampOf]
      simp only [Segment.stampOf]
      cases n <;> simp
  · rw [List.length_append, List.length_singleton]
    exact hi
  · rw [List.length_append, List.length_singleton, unheard_concat hle, ← harmed,
      Segment.isEmpty_stampOf]
    simp only [moved, Segment.armed_emit, Bool.and_eq_true]

variable [Element α]

theorem segment_of_step {r : Request (Job α)} (h : c.Step r d) (hr : ∀ job, r ≠ .transform job) :
    d.segment = c.segment ∨ d.segment = .idle := by
  cases h with
  | kept | quality | latency => exact .inl rfl
  | configured | reset => exact .inr rfl
  | transformed => exact absurd rfl (hr _)

theorem Told.respond (h : Told as c) (hc : c.Valid Kernel.Serves) {r : Request (Job α)}
    {y : Reply (List α)} (hr : c.respond r = .ok (d, y)) : Told (as ++ c.entries r y) d := by
  have hstep := step_of_respond hr
  cases r with
  | transform job =>
    obtain ⟨t, ht, hr⟩ := Checked.bind_eq_ok_iff.mp hr
    cases t with
    | ok t =>
      cases hr
      obtain ⟨-, n, e, output, -, -, he, hp, -⟩ := exists_of_transform ht
      exact h.proceed he (hc.enter Kernel.serves_stable he).ordered hp
    | error r =>
      obtain ⟨why, rfl⟩ := exists_of_rejected ht
      cases hr
      exact (List.append_nil as).symm ▸ h
  | _ => exact (List.append_nil as).symm ▸ h.of_segment (segment_of_step hstep nofun)

theorem Told.dialogue {turns : List (Turn (Converter α ρ) (Job α) (List α))} (h : Told as c)
    (hc : c.Valid Kernel.Serves) (hturns : Dialogue Converter.respond c turns d) :
    Told (as ++ c.history turns) d := by
  induction hturns generalizing as with
  | nil => exact (List.append_nil as).symm ▸ h
  | cons hr _ ih =>
    rw [history, ← List.append_assoc]
    exact ih (h.respond hc hr) (hc.respond Kernel.serves_stable hr)

/-- In every run the mark of discontinuity is on the buffers that give samples and are the first
of their segment to do so, and each segment that gives samples has one mark. -/
theorem discont_marks_first_heard {config : Config} (hc : ofConfig config = .ok c)
    {turns : List (Turn (Converter α ρ) (Job α) (List α))}
    (hturns : Dialogue Converter.respond c turns d) :
    (∀ n a, (c.history turns)[n]? = some a →
      ∃ i, LastOpening (c.history turns) (n + 1) i ∧
        (a.stamp.discont = true ↔ a.stamp.isEmpty = false ∧ Unheard (c.history turns) i n)) ∧
    ∀ i n a, LastOpening (c.history turns) (n + 1) i → (c.history turns)[n]? = some a →
      a.stamp.isEmpty = false →
      ∃! k, i ≤ k ∧ k ≤ n ∧ ∃ b, (c.history turns)[k]? = some b ∧ b.stamp.discont = true := by
  obtain ⟨s, -, hs, rfl⟩ := ofConfig_eq_ok hc
  have hnone : Told [] (ofSetup s : Converter α ρ) := ⟨nofun, nofun⟩
  have htold := hnone.dialogue (valid_ofSetup Kernel.serves_stable hs) hturns
  rw [List.nil_append] at htold
  exact ⟨htold.marks, fun i n a hi ha hheard => existsUnique_mark htold.marks hi ha hheard⟩

def drawing (knots : Knots Float) (segment : Segment) : Converter Float Float :=
  ⟨tripling 1 .linear, none, .spline ⟨3, .linear, knots, 0⟩, none, .empty, segment⟩

def pointsFrom (offset : Nat) (xs : List Float) : Buffer Float :=
  ⟨{ len := xs.length, offset, timestamp? := some 0 }, xs⟩

/-- One sample draws no line. After a jump to offset 9 two samples draw one and have the mark,
and one more sample goes on. -/
theorem discont_marks_first_heard_after_jump :
    ∃ turns d, Dialogue Converter.respond (ofSetup (tripling 1 .linear) : Converter Float Float)
        turns d ∧
      ((ofSetup (tripling 1 .linear) : Converter Float Float).history turns).map
        (fun a => (a.opens, a.stamp.isEmpty, a.stamp.discont)) =
          [(true, true, false), (true, false, true), (false, false, false)] ∧
      ∃! k, 1 ≤ k ∧ k ≤ 2 ∧ ∃ b,
        ((ofSetup (tripling 1 .linear) : Converter Float Float).history turns)[k]? = some b ∧
          b.stamp.discont = true := by
  obtain ⟨t₁, h₁, heq₁, hm₁⟩ : ∃ t,
      (ofSetup (tripling 1 .linear) : Converter Float Float).transform (pointsFrom 0 [5]) [] =
        .ok (.ok t) ∧ t.converter = drawing (.single 5) ⟨some 0, 0, some 1, 0, true⟩ ∧
      (t.stamp.isEmpty, t.stamp.discont) = (true, false) :=
    ⟨_, rfl, congr_arg (Converter.mk _ _ _ _ _) (by decide +kernel), by decide +kernel⟩
  obtain ⟨t₂, h₂, heq₂, hm₂⟩ : ∃ t,
      (drawing (.single 5) ⟨some 0, 0, some 1, 0, true⟩).transform (pointsFrom 9 [1, 2])
        [0, 0, 0] = .ok (.ok t) ∧
      t.converter = drawing (.pair 1 2) ⟨some 0, 27, some 11, 30, false⟩ ∧
      (t.stamp.isEmpty, t.stamp.discont) = (false, true) :=
    ⟨_, rfl, congr_arg (Converter.mk _ _ _ _ _) (by decide +kernel), by decide +kernel⟩
  obtain ⟨t₃, h₃, hm₃⟩ : ∃ t,
      (drawing (.pair 1 2) ⟨some 0, 27, some 11, 30, false⟩).transform (pointsFrom 11 [4])
        [0, 0, 0] = .ok (.ok t) ∧
      (t.stamp.isEmpty, t.stamp.discont) = (false, false) := ⟨_, rfl, by decide +kernel⟩
  have hfirst : (ofSetup (tripling 1 .linear) : Converter Float Float).respond
      (.transform ⟨pointsFrom 0 [5], []⟩) =
        .ok (drawing (.single 5) ⟨some 0, 0, some 1, 0, true⟩, .transformed t₁.slice t₁.stamp) := by
    rw [← heq₁]
    exact respond_of_transform h₁
  have hjump : (drawing (.single 5) ⟨some 0, 0, some 1, 0, true⟩).respond
      (.transform ⟨pointsFrom 9 [1, 2], [0, 0, 0]⟩) =
        .ok (drawing (.pair 1 2) ⟨some 0, 27, some 11, 30, false⟩,
          .transformed t₂.slice t₂.stamp) := by
    rw [← heq₂]
    exact respond_of_transform h₂
  have hon : (drawing (.pair 1 2) ⟨some 0, 27, some 11, 30, false⟩).respond
      (.transform ⟨pointsFrom 11 [4], [0, 0, 0]⟩) =
        .ok (t₃.converter, .transformed t₃.slice t₃.stamp) :=
    respond_of_transform h₃
  obtain ⟨turns, d, hturns, hhistory⟩ : ∃ turns d, Dialogue Converter.respond
      (ofSetup (tripling 1 .linear) : Converter Float Float) turns d ∧
      (ofSetup (tripling 1 .linear)).history turns =
        [⟨true, t₁.stamp⟩, ⟨true, t₂.stamp⟩, ⟨false, t₃.stamp⟩] :=
    ⟨_, _, .cons hfirst (.cons hjump (.cons hon (.nil _))), rfl⟩
  simp only [Prod.mk.injEq] at hm₁ hm₂ hm₃
  obtain ⟨-, hmarked⟩ := discont_marks_first_heard
    (show ofConfig (tripling 1 .linear).config = .ok (ofSetup (tripling 1 .linear)) from rfl)
    hturns
  have hopening : LastOpening ((ofSetup (tripling 1 .linear)).history turns) 3 1 := by
    rw [hhistory]
    refine ⟨by decide, ⟨_, rfl, rfl⟩, fun j a hij hj ha => ?_⟩
    obtain rfl : j = 2 := by omega
    cases ha
    rfl
  refine ⟨turns, d, hturns, ?_, hmarked 1 2 ⟨false, t₃.stamp⟩ hopening ?_ hm₃.1⟩
  · simp only [hhistory, List.map, hm₁, hm₂, hm₃]
  · rw [hhistory]
    rfl

end Converter

end RateConversion
