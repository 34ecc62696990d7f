import RateConversion.Proofs.Progress

/-! What an upsampler gives as blocks of `factor` samples, each led by a sample of its input,
whatever the curve between the knots. The leaders come in order, and those that are still to
come are the knots that the next segment waits for. A picker that is on a tick takes the
leader of each block and is on a tick again. -/

namespace RateConversion

/-- Blocks of `factor` samples, end to end, and the samples that lead them. -/
inductive Blocks {α : Type} (factor : Nat) : List α → List α → Prop
  | nil : Blocks factor [] []
  | cons {k : α} {zs ks ys : List α} (hlen : (k :: zs).length = factor) (h : Blocks factor ks ys) :
    Blocks factor (k :: ks) (k :: zs ++ ys)

namespace Blocks

variable {α : Type} {factor : Nat} {ks ls ys zs : List α}

theorem length_eq (h : Blocks factor ks ys) : ys.length = ks.length * factor := by
  induction h with
  | nil => exact (Nat.zero_mul factor).symm
  | cons hlen _ ih =>
    rw [List.length_append, hlen, ih, List.length_cons, Nat.succ_mul, Nat.add_comm]

theorem append (h : Blocks factor ks ys) (h' : Blocks factor ls zs) :
    Blocks factor (ks ++ ls) (ys ++ zs) := by
  induction h with
  | nil => exact h'
  | cons hlen _ ih =>
    rw [List.cons_append, List.append_assoc]
    exact .cons hlen ih

theorem single {k : α} (hlen : (k :: zs).length = factor) : Blocks factor [k] (k :: zs) := by
  have h := cons hlen .nil
  rwa [List.append_nil] at h

end Blocks

namespace TickClock

variable {α : Type} {factor : Nat}

theorem after_factor {c : TickClock} (h : c.Sound) (hw : c.wait = 0) : c.after c.stride = c := by
  have hcount : c.count c.stride = 1 := by
    have hpos := h.stride_pos
    have hle := (count_le_iff hpos c.stride 1).mpr (by omega)
    have hlt := (lt_count_iff hpos c.stride 0).mpr (by omega)
    omega
  simp only [after, hcount]
  cases c
  simp

theorem feed_pick_block {c : TickClock} (h : c.Sound) (hw : c.wait = 0) {k : α} {zs : List α}
    (hlen : (k :: zs).length = c.stride) : feed pick c (k :: zs) = (c, [k]) := by
  obtain ⟨hclock, hcount⟩ := feed_pick h (k :: zs)
  have hready := (ready_iff h).mpr hw
  rw [hlen, after_factor h hw] at hclock
  have hone : (feed pick c (k :: zs)).2.length = 1 := by
    rw [hcount, hlen]
    have hadd := wait_after h c.stride
    rw [after_factor h hw, hw] at hadd
    have hpos := h.stride_pos
    nlinarith
  rw [feed_cons] at hclock hone ⊢
  have hstep : (c.pick k).2 = [k] := if_pos hready
  rw [hstep, List.length_append, List.length_singleton] at hone
  rw [hstep]
  refine Prod.ext hclock ?_
  rw [List.eq_nil_of_length_eq_zero (show (feed pick (c.pick k).1 zs).2.length = 0 by omega)]
  rfl

theorem feed_pick_blocks {c : TickClock} (h : c.Sound) (hw : c.wait = 0) {ks ys : List α}
    (hb : Blocks c.stride ks ys) : feed pick c ys = (c, ks) := by
  induction hb with
  | nil => rfl
  | cons hlen _ ih =>
    rw [feed_append, feed_pick_block h hw hlen, ih]
    rfl

end TickClock

theorem Knots.toList_foldl_push {α : Type} (k : Knots α) (xs : List α) :
    (xs.foldl (fun k x => k.push x) k).toList = (k.toList ++ xs).rtake 2 := by
  induction xs generalizing k with
  | nil =>
    have hle : k.toList.length ≤ 2 := by cases k <;> simp [toList]
    rw [List.append_nil, rtake_of_length_le hle]
    rfl
  | cons x xs ih =>
    have hpush : (k.push x).toList = (k.toList ++ [x]).rtake 2 := by cases k <;> rfl
    rw [List.foldl_cons, ih, hpush, rtake_rtake_append, List.append_assoc]
    rfl

namespace Upsampler

variable {α ρ : Type}

def pending (u : Upsampler α) : List α := u.knots.toList.rtake u.interpolation.lead

theorem rtake_lead (xs : List α) (i : Interpolation) :
    (xs.rtake 2).rtake i.lead = xs.rtake i.lead := by
  have hlead := lead_le_two i
  simp only [List.rtake, List.length_drop, List.drop_drop]
  congr 1
  omega

variable [Zero α] [Add α] [Sub α] [Mul ρ] [Scalar ρ] [Sample α ρ]

theorem leader_segment {u : Upsampler α} (hf : 0 < u.factor) {x slope : α} {ys : List α}
    (h : u.segment? x = some (ys, slope)) :
    ∃ k zs, ys = k :: zs ∧
      k :: (u.knots.push x).toList.rtake u.interpolation.lead = u.pending ++ [x] := by
  obtain ⟨factor, i, k, s⟩ := u
  cases i with
  | hold =>
    obtain ⟨n, rfl⟩ := Nat.exists_eq_succ_of_ne_zero hf.ne'
    cases h
    refine ⟨x, List.replicate n x, rfl, ?_⟩
    rw [pending, Interpolation.lead, List.rtake_zero, List.rtake_zero]
    rfl
  | linear | quadratic =>
    cases k with
    | empty => cases h
    | single a | pair _ a =>
      cases h
      exact ⟨a, _, rfl, rfl⟩
  | cubic =>
    cases k with
    | empty | single => cases h
    | pair a b =>
      cases h
      exact ⟨a, _, rfl, rfl⟩

theorem pending_of_segment_none {u : Upsampler α} {x : α} (h : u.segment? x = none) :
    (u.knots.push x).toList.rtake u.interpolation.lead = u.pending ++ [x] := by
  obtain ⟨factor, i, k, s⟩ := u
  cases i with
  | hold => cases h
  | linear | quadratic =>
    cases k with
    | empty => rfl
    | single | pair => cases h
  | cubic =>
    cases k with
    | empty | single => rfl
    | pair => cases h

theorem blocks_step {u : Upsampler α} (hf : 0 < u.factor) (x : α) :
    ∃ ks, Blocks u.factor ks (u.step x).2 ∧ ks ++ (u.step x).1.pending = u.pending ++ [x] := by
  simp only [step]
  cases hs : u.segment? x with
  | none => exact ⟨[], .nil, pending_of_segment_none hs⟩
  | some p =>
    obtain ⟨ys, slope⟩ := p
    have hlen := length_segment hf hs
    obtain ⟨k, zs, rfl, hpend⟩ := leader_segment hf hs
    exact ⟨[k], .single hlen, hpend⟩

theorem blocks_feed {u : Upsampler α} (hf : 0 < u.factor) (xs : List α) :
    ∃ ks, Blocks u.factor ks (feed step u xs).2 ∧
      ks ++ (feed step u xs).1.pending = u.pending ++ xs := by
  induction xs generalizing u with
  | nil => exact ⟨[], .nil, (List.append_nil _).symm⟩
  | cons x xs ih =>
    obtain ⟨hfactor, -⟩ := step_spec hf x
    obtain ⟨ks, hks, hpend⟩ := blocks_step hf x
    obtain ⟨ls, hls, hrest⟩ := ih (hfactor ▸ hf)
    rw [hfactor] at hls
    rw [feed_cons]
    refine ⟨ks ++ ls, hks.append hls, ?_⟩
    rw [List.append_assoc, hrest, ← List.append_assoc, hpend, List.append_assoc]
    rfl

theorem pending_start {factor : Nat} (i : Interpolation) (hf : 0 < factor) (xs : List α) :
    (feed step (start factor i) xs).1.pending = xs.rtake i.lead := by
  have hi := (feed_step (u := start factor i) hf xs).2.1
  rw [pending, knots_feed, hi, Knots.toList_foldl_push]
  exact rtake_lead xs i

theorem blocks_start {factor : Nat} (i : Interpolation) (hf : 0 < factor) (xs ys : List α) :
    ∃ ks, Blocks factor ks (feed step (feed step (start factor i) xs).1 ys).2 ∧
      xs.take (xs.length - i.lead) ++ ks = (xs ++ ys).take ((xs ++ ys).length - i.lead) := by
  have hfactor := (feed_step (u := start factor i) hf xs).1
  have hpend := pending_start (ρ := ρ) i hf xs
  have hpend' := pending_start (ρ := ρ) i hf (xs ++ ys)
  obtain ⟨ks, hks, hsum⟩ := blocks_feed (Nat.lt_of_lt_of_eq hf hfactor.symm) ys
  rw [hfactor] at hks
  rw [feed_append] at hpend'
  refine ⟨ks, hks, ?_⟩
  rw [hpend, hpend'] at hsum
  have hall : xs.take (xs.length - i.lead) ++ ks ++ (xs ++ ys).rtake i.lead =
      (xs ++ ys).take ((xs ++ ys).length - i.lead) ++ (xs ++ ys).rtake i.lead := by
    rw [List.append_assoc, hsum, ← List.append_assoc]
    simp only [List.rtake, List.take_append_drop]
  exact List.append_cancel_right hall

end Upsampler

end RateConversion
