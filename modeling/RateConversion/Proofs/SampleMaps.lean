import RateConversion.Proofs.Serving

/-! Maps of samples that keep their arithmetic. Such a map takes the states of every kernel to
states of the same kernel over other samples, and it does not matter whether it is applied to
what goes into a kernel or to what comes out. No law of the arithmetic is needed. -/

namespace RateConversion

/-- A map of samples that keeps the arithmetic of kernels. -/
structure Linear {α β ρ : Type} [Zero α] [Add α] [Sub α] [Sample α ρ] [Zero β] [Add β] [Sub β]
    [Sample β ρ] (f : α → β) : Prop where
  zero : f 0 = 0
  add (x y : α) : f (x + y) = f x + f y
  sub (x y : α) : f (x - y) = f x - f y
  scaled (x : α) (t : ρ) : f (scale x t) = scale (f x) t
  divided (x : α) (w : ρ) : f (divide x w) = divide (f x) w

def KeepsZeros {α β ρ : Type} [Sample α ρ] [Sample β ρ] (f : α → β) : Prop :=
  ∀ x, isZero (f x) = isZero x

theorem feed_map {σ τ α β γ δ : Type} {step : σ → α → σ × List γ} {step' : τ → β → τ × List δ}
    {g : σ → τ} {f : α → β} {h : γ → δ}
    (hstep : ∀ s x, step' (g s) (f x) = (g (step s x).1, (step s x).2.map h)) (s : σ)
    (xs : List α) :
    feed step' (g s) (xs.map f) = (g (feed step s xs).1, (feed step s xs).2.map h) := by
  induction xs generalizing s with
  | nil => rfl
  | cons x xs ih => simp only [List.map_cons, feed_cons, hstep, ih, List.map_append]

namespace Checked

variable {κ α β γ δ : Type}

theorem bind_map_of_ok {x : Checked α} {x' : Checked β} {k : α → Checked γ} {k' : β → Checked δ}
    {g : α → β} {h : γ → δ} (hx : x' = x.map g)
    (hk : ∀ a, x = .ok a → k' (g a) = (k a).map h) : (x' >>= k') = (x >>= k).map h := by
  rw [hx]
  cases x with
  | error e => rfl
  | ok a => exact hk a rfl

theorem bind_map {x : Checked α} {x' : Checked β} {k : α → Checked γ} {k' : β → Checked δ}
    {g : α → β} {h : γ → δ} (hx : x' = x.map g) (hk : ∀ a, k' (g a) = (k a).map h) :
    (x' >>= k') = (x >>= k).map h :=
  bind_map_of_ok hx fun a _ => hk a

theorem bind_map_same {x : Checked α} {k : α → Checked γ} {k' : α → Checked δ} {h : γ → δ}
    (hk : ∀ a, k' a = (k a).map h) : (x >>= k') = (x >>= k).map h := by
  cases x with
  | error e => rfl
  | ok a => exact hk a

theorem mapM_map {g : κ → Checked α} {g' : κ → Checked β} {f : α → β}
    (h : ∀ k, g' k = (g k).map f) (ks : List κ) : ks.mapM g' = (ks.mapM g).map (List.map f) := by
  induction ks with
  | nil => rfl
  | cons k ks ih =>
    rw [List.mapM_cons, List.mapM_cons]
    exact bind_map (h k) fun a => bind_map ih fun as => rfl

end Checked

section States

variable {α β ρ : Type}

def Knots.map (f : α → β) : Knots α → Knots β
  | .empty => .empty
  | .single a => .single (f a)
  | .pair a b => .pair (f a) (f b)

def Upsampler.map (f : α → β) (u : Upsampler α) : Upsampler β :=
  ⟨u.factor, u.interpolation, u.knots.map f, f u.slope⟩

def TaperedMean.map (f : α → β) (m : TaperedMean α ρ) : TaperedMean β ρ :=
  ⟨m.clock, f m.sum, m.weight⟩

def History.map (f : α → β) (h : History α) : History β := ⟨h.slots.map f, h.head, h.size⟩

def SincFilter.map (f : α → β) (s : SincFilter α ρ) : SincFilter β ρ :=
  ⟨s.taps, s.clock, s.history.map f⟩

def Kernel.map (f : α → β) : Kernel α ρ → Kernel β ρ
  | .copy => .copy
  | .pick clock => .pick clock
  | .mean m => .mean (m.map f)
  | .sinc s => .sinc (s.map f)
  | .spline u => .spline (u.map f)

def Produced.map (f : α → β) (p : Produced α ρ) : Produced β ρ :=
  ⟨p.kernel.map f, p.output.map f, p.loud⟩

end States

namespace Knots

variable {α β : Type} (f : α → β)

theorem map_push (x : α) (k : Knots α) : (k.push x).map f = (k.map f).push (f x) := by
  cases k <;> rfl

theorem size_map (k : Knots α) : (k.map f).size = k.size := by
  cases k <;> rfl

theorem toList_map (k : Knots α) : (k.map f).toList = k.toList.map f := by
  cases k <;> rfl

end Knots

theorem TickClock.pick_map {α β : Type} (f : α → β) (c : TickClock) (x : α) :
    c.pick (f x) = ((c.pick x).1, (c.pick x).2.map f) := by
  simp only [pick]
  split_ifs <;> rfl

variable {α β ρ : Type} {f : α → β}

namespace History

theorem capacity_map (h : History α) : (h.map f).capacity = h.capacity := Array.size_map

theorem push_map (h : History α) (x : α) : (h.map f).push (f x) = (h.push x).map f := by
  have hcap : (h.map f).capacity = h.capacity := capacity_map h
  by_cases h0 : h.capacity = 0
  · rw [push, push, if_pos h0, if_pos (hcap.trans h0)]
  · have h0' : (h.map f).capacity ≠ 0 := hcap.trans_ne h0
    by_cases hlt : h.size < h.capacity
    · have hlt' : (h.map f).size < (h.map f).capacity := hcap.symm ▸ hlt
      rw [push, push, if_neg h0, if_neg h0', if_pos hlt, if_pos hlt', hcap]
      simp only [map, Array.map_setIfInBounds]
    · have hlt' : ¬(h.map f).size < (h.map f).capacity := hcap.symm ▸ hlt
      rw [push, push, if_neg h0, if_neg h0', if_neg hlt, if_neg hlt', hcap]
      simp only [map, Array.map_setIfInBounds]

theorem extend_map (h : History α) (xs : List α) :
    (h.map f).extend (xs.map f) = (h.extend xs).map f := by
  have hfold (xs : List α) (h : History α) :
      (xs.map f).foldl push (h.map f) = (xs.foldl push h).map f := by
    induction xs generalizing h with
    | nil => rfl
    | cons x xs ih => rw [List.map_cons, List.foldl_cons, List.foldl_cons, push_map, ih]
  simp only [extend, capacity_map, List.length_map]
  split_ifs
  · simp only [map, List.map_toArray, List.map_drop]
  · exact hfold xs h

theorem Sound.map {h : History α} (hs : h.Sound) : (h.map f).Sound :=
  ⟨(capacity_map h).symm ▸ hs.size_le, (capacity_map h).symm ▸ hs.turned⟩

end History

theorem SincFilter.after_map [Zero α] [Zero β] (s : SincFilter α ρ) (xs : List α) :
    (s.map f).after (xs.map f) = (s.after xs).map f := by
  simp only [after, map, List.length_map, History.extend_map]

theorem Upsampler.between_map [Scalar ρ] {g : ρ → α} {g' : ρ → β} (h : ∀ t, f (g t) = g' t)
    (factor : Nat) (a : α) : (between factor a g).map f = between factor (f a) g' := by
  simp only [between, List.map_cons, List.map_map]
  exact congr_arg _ (List.map_congr_left fun i _ => h _)

theorem Kernel.outputLen_map (k : Kernel α ρ) (n : Nat) :
    (k.map f).outputLen n = k.outputLen n := by
  cases k with
  | spline u => simp only [map, outputLen, Upsampler.outputLen, Upsampler.map, Knots.size_map]
  | _ => rfl

section Zeros

variable [Sample α ρ] [Sample β ρ]

theorem KeepsZeros.comp (hz : KeepsZeros f) : isZero ∘ f = isZero := funext hz

theorem TaperedMean.isSilent_map (hz : KeepsZeros f) (m : TaperedMean α ρ) :
    (m.map f).isSilent = m.isSilent := hz m.sum

theorem Upsampler.isSilent_map (hz : KeepsZeros f) (u : Upsampler α) :
    (u.map f).isSilent = u.isSilent := by
  simp only [isSilent, map, Knots.toList_map, List.all_map, hz.comp, hz u.slope]

theorem Kernel.loudLen_map (hz : KeepsZeros f) (ys : List α) :
    loudLen (ys.map f) = loudLen ys := by
  simp only [loudLen, ← List.map_reverse, List.dropWhile_map, List.length_map, hz.comp]

end Zeros

variable [Zero α] [Add α] [Sub α] [Sample α ρ] [Zero β] [Add β] [Sub β] [Sample β ρ]

namespace TaperedMean

variable [Scalar ρ]

theorem map_start (hf : Linear f) (factor leading : Nat) :
    (start factor leading : TaperedMean α ρ).map f = start factor leading := by
  simp only [start, map, hf.zero]

theorem restart_map (hf : Linear f) (m : TaperedMean α ρ) (x : α) :
    (m.map f).restart (f x) = (m.restart x).map f := by
  by_cases h : m.tapered = true
  · rw [restart, restart, if_pos h, if_pos (show (m.map f).tapered = true from h)]
    simp only [map, hf.scaled]
  · rw [restart, restart, if_neg h, if_neg (show ¬(m.map f).tapered = true from h)]
    simp only [map, hf.zero]

variable [Add ρ]

theorem take_map (hf : Linear f) (m : TaperedMean α ρ) (x : α) :
    (m.map f).take (f x) = (m.take x).map f := by
  by_cases h : -(m.clock.lookahead : Int) ≤ m.clock.phase
  · have h' : -((m.map f).clock.lookahead : Int) ≤ (m.map f).clock.phase := h
    rw [take, take, if_pos h, if_pos h']
    simp only [map, hf.add, hf.scaled]
    rfl
  · have h' : ¬-((m.map f).clock.lookahead : Int) ≤ (m.map f).clock.phase := h
    rw [take, take, if_neg h, if_neg h']

theorem step_map (hf : Linear f) (m : TaperedMean α ρ) (x : α) :
    (m.map f).step (f x) = ((m.step x).1.map f, (m.step x).2.map f) := by
  simp only [step, take_map hf]
  by_cases h : (m.take x).clock.ready = true
  · rw [if_pos h, if_pos (show ((m.take x).map f).clock.ready = true from h), restart_map hf]
    simp only [map, List.map_cons, List.map_nil, hf.divided]
  · rw [if_neg h, if_neg (show ¬((m.take x).map f).clock.ready = true from h)]
    rfl

theorem skip_map (hf : Linear f) (m : TaperedMean α ρ) (n : Nat) :
    (m.map f).skip n = (m.skip n).map (map f) := by
  simp only [skip, map]
  cases m.clock.advance n (m.clock.count n) with
  | error e => rfl
  | ok clock => exact congr_arg (fun z => Except.ok (TaperedMean.mk clock z _)) hf.zero.symm

end TaperedMean

namespace Upsampler

theorem map_start (hf : Linear f) (factor : Nat) (i : Interpolation) :
    (start factor i : Upsampler α).map f = start factor i := by
  simp only [start, map, Knots.map, hf.zero]

theorem skip_map (hf : Linear f) (u : Upsampler α) (n : Nat) :
    (u.map f).skip n = (u.skip n).map f := by
  have hfold (m : Nat) (k : Knots α) :
      (List.replicate m (0 : β)).foldl (fun k x => k.push x) (k.map f) =
        ((List.replicate m (0 : α)).foldl (fun k x => k.push x) k).map f := by
    induction m generalizing k with
    | zero => rfl
    | succ m ih =>
      simp only [List.replicate_succ, List.foldl_cons]
      rw [← hf.zero, ← Knots.map_push, hf.zero, ih]
  simp only [skip, map, hfold]

variable [Scalar ρ]

theorem line_map (hf : Linear f) (factor : Nat) (a next : α) :
    (line factor a next).map f = line factor (f a) (f next) := by
  simp only [line]
  exact between_map (fun t => by rw [hf.add, hf.scaled, hf.sub]) factor a

variable [Mul ρ]

theorem parabola_map (hf : Linear f) (factor : Nat) (a slope next : α) :
    (parabola factor a slope next).map f = parabola factor (f a) (f slope) (f next) := by
  simp only [parabola]
  exact between_map (fun t => by simp only [hf.add, hf.scaled, hf.sub]) factor a

theorem cubic_map (hf : Linear f) (factor : Nat) (a b slopeA slopeB : α) :
    (cubic factor a b slopeA slopeB).map f =
      cubic factor (f a) (f b) (f slopeA) (f slopeB) := by
  simp only [cubic]
  exact between_map (fun t => by simp only [hf.add, hf.scaled, hf.sub]) factor a

theorem segment?_map (hf : Linear f) (u : Upsampler α) (x : α) :
    (u.map f).segment? (f x) = (u.segment? x).map (Prod.map (List.map f) f) := by
  obtain ⟨factor, i, k, slope⟩ := u
  cases i with
  | hold =>
    simp only [segment?, map, Option.map_some, Prod.map_apply, List.map_replicate]
  | linear =>
    cases k with
    | empty => rfl
    | single a | pair p a =>
      simp only [segment?, map, Knots.map, Option.map_some, Prod.map_apply, line_map hf]
  | quadratic =>
    cases k with
    | empty => rfl
    | single a | pair p a =>
      simp only [segment?, map, Knots.map, Option.map_some, Prod.map_apply, parabola_map hf,
        hf.zero, hf.sub, hf.divided]
  | cubic =>
    cases k with
    | empty | single => rfl
    | pair a b =>
      simp only [segment?, map, Knots.map, Option.map_some, Prod.map_apply, cubic_map hf, hf.sub,
        hf.divided]

theorem step_map (hf : Linear f) (u : Upsampler α) (x : α) :
    (u.map f).step (f x) = ((u.step x).1.map f, (u.step x).2.map f) := by
  have hknots : (u.map f).knots.push (f x) = (u.knots.push x).map f :=
    (Knots.map_push f x u.knots).symm
  simp only [step, segment?_map hf, hknots]
  cases u.segment? x <;> rfl

end Upsampler

namespace History

theorem map_blank (hf : Linear f) (capacity : Nat) :
    (blank capacity : History α).map f = blank capacity := by
  simp only [blank, map, Array.map_replicate, hf.zero]

theorem get_map (hf : Linear f) (h : History α) (i : Nat) : (h.map f).get i = f (h.get i) := by
  simp only [get, capacity_map, Array.getD_eq_getD_getElem?]
  rw [← hf.zero, ← Option.getD_map f, ← Array.getElem?_map]
  rfl

theorem toList_map (hf : Linear f) (h : History α) : (h.map f).toList = h.toList.map f := by
  simp only [toList, List.map_map]
  exact List.map_congr_left fun i _ => get_map hf h i

theorem extendZeros_map (hf : Linear f) (h : History α) (n : Nat) :
    (h.map f).extendZeros n = (h.extendZeros n).map f := by
  rw [extendZeros_eq, extendZeros_eq, ← extend_map, List.map_replicate, hf.zero]

theorem isSilent_map (hf : Linear f) (hz : KeepsZeros f) (h : History α) :
    (h.map f).isSilent = h.isSilent := by
  simp only [isSilent, toList_map hf, List.all_map, hz.comp]

theorem Alike.map (hf : Linear f) {h g : History α} (a : h.Alike g) :
    (h.map f).Alike (g.map f) := by
  refine ⟨a.left.map, a.right.map, ?_, ?_⟩
  · rw [capacity_map, capacity_map, a.capacity]
  · rw [toList_map hf, toList_map hf, a.toList]

end History

namespace Taps

theorem addPairs_map (hf : Linear f) (read : Nat → α) (c m : Nat) (taps : List ρ) (acc : α) :
    addPairs (fun i => f (read i)) c m taps (f acc) = f (addPairs read c m taps acc) := by
  induction taps generalizing m acc with
  | nil => rfl
  | cons tap taps ih => rw [addPairs, addPairs, ← ih, hf.add, hf.scaled, hf.add]

theorem apply_map (hf : Linear f) (t : Taps ρ) (read : Nat → α) (c : Nat) :
    t.apply (fun i => f (read i)) c = f (t.apply read c) := by
  simp only [apply, ← hf.scaled, addPairs_map hf]

theorem output_map (hf : Linear f) (t : Taps ρ) (read : Nat → α) (size newest : Nat) :
    t.output (fun i => f (read i)) size newest = (t.output read size newest).map f := by
  simp only [output, apply_map hf]
  split_ifs <;> rfl

end Taps

namespace SincFilter

theorem map_start (hf : Linear f) (taps : Taps ρ) (factor leading : Nat) :
    (start taps factor leading : SincFilter α ρ).map f = start taps factor leading := by
  simp only [start, map, History.map_blank hf]

theorem output_map (hf : Linear f) (s : SincFilter α ρ) (xs : List α) (newest : Nat) :
    (s.map f).output (xs.map f).toArray newest = (s.output xs.toArray newest).map f := by
  have hread : (fun i => ((s.map f).history.toList ++ xs.map f).getD i 0) =
      fun i => f ((s.history.toList ++ xs).getD i 0) := by
    funext i
    change ((s.history.map f).toList ++ xs.map f).getD i 0 = _
    rw [History.toList_map hf, ← List.map_append, ← hf.zero, List.getD_map]
  rw [output_eq, output_eq, hread, List.length_map]
  exact Taps.output_map hf s.taps _ _ _

theorem feed_map (hf : Linear f) (s : SincFilter α ρ) (xs : List α) :
    (s.map f).feed (xs.map f) = (s.feed xs).map (Prod.map (map f) (List.map f)) := by
  simp only [feed, List.length_map]
  refine Checked.bind_map (g := List.map f) ?_ fun ys => Checked.bind_map_same fun clock => ?_
  · exact Checked.mapM_map (fun k => s.output_map hf xs _) _
  · refine congr_arg Except.ok ?_
    simp only [map, Prod.map_apply, History.extend_map]

theorem skip_map (hf : Linear f) (s : SincFilter α ρ) (n : Nat) :
    (s.map f).skip n = (s.skip n).map (map f) := by
  refine Checked.bind_map_same fun clock => congr_arg Except.ok ?_
  simp only [map, History.extendZeros_map hf]

theorem outputs_map (hf : Linear f) (s : SincFilter α ρ) (xs : List α) :
    (s.map f).outputs (xs.map f) = (s.outputs xs).map f := by
  have hread : (fun i => ((s.map f).history.toList ++ xs.map f).getD i 0) =
      fun i => f ((s.history.toList ++ xs).getD i 0) := by
    funext i
    rw [show (s.map f).history.toList = s.history.toList.map f from s.history.toList_map hf,
      ← List.map_append, ← hf.zero, List.getD_map]
  simp only [outputs, hread, List.length_map, List.map_map]
  exact List.map_congr_left fun k _ => Taps.apply_map hf s.taps _ _

end SincFilter

namespace Kernel

theorem Alike.map (hf : Linear f) {k l : Kernel α ρ} (a : k.Alike l) :
    (k.map f).Alike (l.map f) := by
  cases a with
  | same => exact .same _
  | sinc fg => exact .sinc ⟨fg.taps, fg.clock, fg.history.map hf⟩

theorem isSilent_map (hf : Linear f) (hz : KeepsZeros f) (k : Kernel α ρ) :
    (k.map f).isSilent = k.isSilent := by
  cases k with
  | copy | pick => rfl
  | mean m => exact m.isSilent_map hz
  | sinc s => exact s.history.isSilent_map hf hz
  | spline u => exact u.isSilent_map hz

variable [Scalar ρ]

theorem map_ofConversion (hf : Linear f) (conv : Conversion) :
    (ofConversion conv : Kernel α ρ).map f = ofConversion conv := by
  cases conv with
  | copy => rfl
  | up factor i => exact congr_arg Kernel.spline (Upsampler.map_start hf factor i)
  | down factor d z =>
    cases d with
    | pick => rfl
    | tukey => exact congr_arg Kernel.mean (TaperedMean.map_start hf factor 0)
    | shortSinc | longSinc => exact congr_arg Kernel.sinc (SincFilter.map_start hf _ factor 0)

theorem build_map (hf : Linear f) (table? : Option (SincTable ρ)) (conv : Conversion) :
    build table? conv = Prod.map (map f) id (build table? conv : Kernel α ρ × _) := by
  refine Prod.ext ?_ ?_
  · rw [Prod.map_fst, build_fst, build_fst, map_ofConversion hf]
  · cases conv with
    | down factor d z => cases d <;> rfl
    | _ => rfl

theorem reset_map (hf : Linear f) (k : Kernel α ρ) (leading : Nat) :
    (k.map f).reset leading = (k.reset leading).map f := by
  cases k with
  | copy | pick => rfl
  | mean m => exact congr_arg Kernel.mean (TaperedMean.map_start hf _ leading).symm
  | sinc s => rfl
  | spline u => exact congr_arg Kernel.spline (Upsampler.map_start hf _ _).symm

variable [Add ρ]

theorem skip_map (hf : Linear f) (k : Kernel α ρ) (n : Nat) :
    (k.map f).skip n = (k.skip n).map (map f) := by
  cases k with
  | copy => rfl
  | pick clock => exact Checked.bind_map_same fun clock => rfl
  | mean m => exact Checked.bind_map (m.skip_map hf n) fun m => rfl
  | sinc s => exact Checked.bind_map (s.skip_map hf n) fun s => rfl
  | spline u => exact congr_arg (fun u => Except.ok (Kernel.spline u)) (u.skip_map hf n)

variable [Mul ρ]

theorem fed_map (hf : Linear f) (k : Kernel α ρ) (xs : List α) :
    (k.map f).fed (xs.map f) = ((k.fed xs).1.map f, (k.fed xs).2.map f) := by
  cases k with
  | copy => rfl
  | pick clock =>
    have hfeed := RateConversion.feed_map (g := id) (TickClock.pick_map f) clock xs
    exact congr_arg (fun r => (Kernel.pick r.1, r.2)) hfeed
  | mean m =>
    have hfeed := RateConversion.feed_map (TaperedMean.step_map hf) m xs
    exact congr_arg (fun r => (Kernel.mean r.1, r.2)) hfeed
  | sinc s =>
    exact congr_arg₂ Prod.mk (congr_arg Kernel.sinc (s.after_map xs)) (s.outputs_map hf xs)
  | spline u =>
    have hfeed := RateConversion.feed_map (Upsampler.step_map hf) u xs
    exact congr_arg (fun r => (Kernel.spline r.1, r.2)) hfeed

theorem feed_map (hf : Linear f) (k : Kernel α ρ) (xs : List α) :
    (k.map f).feed (xs.map f) = (k.feed xs).map (Prod.map (map f) (List.map f)) := by
  cases k with
  | copy => exact congr_arg Except.ok (fed_map hf .copy xs)
  | pick clock => exact congr_arg Except.ok (fed_map hf (.pick clock) xs)
  | mean m => exact congr_arg Except.ok (fed_map hf (.mean m) xs)
  | sinc s => exact Checked.bind_map (s.feed_map hf xs) fun r => rfl
  | spline u => exact congr_arg Except.ok (fed_map hf (.spline u) xs)

theorem feedGap_map (hf : Linear f) (hz : KeepsZeros f) (k : Kernel α ρ) (n room : Nat) :
    (k.map f).feedGap n room = (k.feedGap n room).map (Produced.map f) := by
  induction n using Nat.strong_induction_on generalizing k room with
  | _ n ih =>
    rw [feedGap, feedGap, isSilent_map hf hz]
    split_ifs with h0 hsilent
    · rfl
    · refine Checked.bind_map (k.skip_map hf n) fun k' => congr_arg Except.ok ?_
      simp only [Produced.map, List.map_replicate, hf.zero]
    · refine Checked.bind_map (g := Prod.map (map f) (List.map f)) ?_ fun r => ?_
      · rw [← feed_map hf, List.map_replicate, hf.zero]
      · simp only [Prod.map_fst, Prod.map_snd, List.length_map]
        split_ifs with hroom
        · rfl
        · refine Checked.bind_map (ih _ ?_ r.1 _) fun p => congr_arg Except.ok ?_
          · simp only [blockLen]
            omega
          · simp only [Produced.map, List.map_append, loudLen_map hz]

end Kernel

def Buffer.map {α β : Type} (f : α → β) (b : Buffer α) : Buffer β := ⟨b.header, b.samples.map f⟩

theorem Kernel.give_map [Scalar ρ] [Add ρ] [Mul ρ] (hf : Linear f) (k : Kernel α ρ)
    {b : Buffer α} (hz : b.header.gap = true → KeepsZeros f) (room : Nat) :
    (k.map f).give (b.map f) room = (k.give b room).map (Produced.map f) := by
  by_cases hg : b.header.gap = true
  · rw [give, give, if_pos hg, if_pos (show (b.map f).header.gap = true from hg)]
    exact k.feedGap_map hf (hz hg) _ room
  · rw [give, give, if_neg hg, if_neg (show ¬(b.map f).header.gap = true from hg)]
    exact Checked.bind_map (k.feed_map hf b.samples) fun r => rfl

end RateConversion
