import RateConversion.Proofs.Acceptance

/-! A buffer of samples cut into pieces. Transformed one after the other, the pieces give
together what the buffer gives, their stamps tile its stamp, and the state that they leave
cannot be told from the state that it leaves. No law of arithmetic has a part in this. -/

namespace RateConversion

namespace Buffer

variable {α : Type}

def append (p q : Buffer α) : Buffer α :=
  ⟨{ p.header with len := p.header.len + q.header.len }, p.samples ++ q.samples⟩

def joined (p : Buffer α) : List (Buffer α) → Buffer α
  | [] => p
  | q :: qs => p.append (q.joined qs)

/-- Buffers that carry on from an offset, each from the end of the one before it. They have
some time, whichever, and are not marked. -/
def CarryOn : Nat → List (Buffer α) → Prop
  | _, [] => True
  | offset, p :: ps =>
    p.Filled ∧ p.header.offset = offset ∧ p.header.timestamp?.isSome ∧
      p.header.discont = false ∧ CarryOn (offset + p.header.len) ps

structure Cut (whole first : Buffer α) (rest : List (Buffer α)) : Prop where
  header : first.header = { whole.header with len := first.samples.length }
  samples : first.samples ++ rest.flatMap Buffer.samples = whole.samples
  rest : CarryOn (whole.header.offset + first.samples.length) rest

theorem header_joined (p : Buffer α) (ps : List (Buffer α)) :
    (p.joined ps).header = { p.header with len := (p.joined ps).header.len } := by
  cases ps <;> rfl

theorem samples_joined (p : Buffer α) (ps : List (Buffer α)) :
    (p.joined ps).samples = p.samples ++ ps.flatMap Buffer.samples := by
  induction ps generalizing p with
  | nil => simp [joined]
  | cons q qs ih => simp [joined, append, ih]

theorem joined_filled {p : Buffer α} {ps : List (Buffer α)} {offset : Nat} (hp : p.Filled)
    (hps : CarryOn offset ps) : (p.joined ps).Filled := by
  induction ps generalizing p offset with
  | nil => exact hp
  | cons q qs ih =>
    obtain ⟨hq, -, -, -, hqs⟩ := hps
    have hj := (ih hq hqs).length
    refine ⟨hp.data, ?_⟩
    simp only [joined, append, List.length_append, hp.length, hj]

theorem Cut.eq_joined {whole first : Buffer α} {rest : List (Buffer α)} (hw : whole.Filled)
    (h : Cut whole first rest) : whole = first.joined rest ∧ first.Filled := by
  have hfirst : first.Filled := by
    refine ⟨?_, ?_⟩ <;> rw [h.header]
    exact hw.data
  have hsamples := (samples_joined first rest).trans h.samples
  have hlen := (joined_filled hfirst h.rest).length
  refine ⟨?_, hfirst⟩
  obtain ⟨wh, ws⟩ := whole
  have hheader : (first.joined rest).header = wh := by
    rw [header_joined, h.header, ← hlen, hsamples, hw.length]
  cases hj : first.joined rest with
  | mk jh js =>
    rw [hj] at hsamples hheader
    exact congr_arg₂ _ hheader.symm hsamples.symm

end Buffer

def Abut {α : Type} : Nat → List (List α × Stamp) → Nat → Prop
  | a, [], b => a = b
  | a, p :: ps, b =>
    p.2.offset = a ∧ p.2.offsetEnd = a + p.1.length ∧ Abut p.2.offsetEnd ps b

/-- Stamps that say together what one stamp says. -/
structure Tiles {α : Type} (whole : Stamp) (parts : List (List α × Stamp)) : Prop where
  offsets : Abut whole.offset parts whole.offsetEnd
  timestamp : parts.head?.map (fun p => p.2.timestamp?) = some whole.timestamp?
  durations : ∃ ds : List Nat,
    parts.map (fun p => p.2.duration?) = ds.map some ∧ whole.duration? = some ds.sum
  discont : parts.countP (fun p => p.2.discont) = if whole.discont then 1 else 0
  gap : whole.gap = false ∧ ∀ p ∈ parts, p.2.gap = false
  gapStart : whole.gapStart = whole.offsetEnd ∧ ∀ p ∈ parts, p.2.gapStart = p.2.offsetEnd

namespace Converter

variable {α ρ : Type} [Zero α] [Scalar ρ]

theorem exists_duration {d : Converter α ρ}
    (hs : d.segment.start?.isSome) (p : Buffer α) : ∃ n, (d.stampFor p).duration? = some n := by
  obtain ⟨start, hstart⟩ := Option.isSome_iff_exists.mp hs
  exact ⟨_, congr_arg (Option.map _) hstart⟩

theorem enter_len (c : Converter α ρ) (h : Header) (n : Nat) :
    c.enter { h with len := n } = c.enter h := rfl

variable [Add α] [Sub α] [Add ρ] [Mul ρ] [Sample α ρ]
variable {c d : Converter α ρ}

theorem yield_append (hd : d.Valid Kernel.Serves) {p q : Buffer α} (hp : p.Filled)
    (hq : q.Filled) :
    d.kernel.yield (p.header.len + q.header.len) =
      d.kernel.yield p.header.len + (d.taken p).kernel.yield q.header.len := by
  have h1 := hd.kernel.length_fed (p.samples ++ q.samples)
  have h2 := hd.kernel.length_fed p.samples
  have h3 := (hd.kernel.fed p.samples).length_fed q.samples
  rw [(hd.kernel.sound.fed_append p.samples q.samples).2, List.length_append, h2, h3,
    List.length_append, hp.length, hq.length] at h1
  exact h1.symm

theorem taken_valid (hd : d.Valid Kernel.Serves) (p : Buffer α) :
    (d.taken p).Valid Kernel.Serves :=
  ⟨hd.setup, hd.staged, hd.kernel.fed _,
    Segment.emit_ordered (s := { d.segment with nextIn? := some _ }) hd.ordered _⟩

theorem takes_append (hd : d.Valid Kernel.Serves) {p q : Buffer α} (hp : p.Filled)
    (hq : q.Filled) (hoff : q.header.offset = p.header.offset + p.header.len) :
    d.Takes (p.append q) ↔ d.Takes p ∧ (d.taken p).Takes q := by
  have hy := yield_append hd hp hq
  have hnext : (d.taken p).segment.nextOut =
      d.segment.nextOut + d.kernel.yield p.header.len := rfl
  have hlen : (p.append q).header.len = p.header.len + q.header.len := rfl
  have hin : (p.append q).header.offset = p.header.offset := rfl
  constructor
  · intro h
    obtain ⟨h1, h2, h3⟩ := h
    rw [hlen, hy, ← Nat.add_assoc] at h2 h3
    refine ⟨⟨by omega, by omega, h3.mono (fun hs => ?_) (Nat.le_add_right _ _)⟩,
      by omega, by omega, h3⟩
    exact (hd.ordered hs).trans (Nat.le_add_right _ _)
  · rintro ⟨h, h'⟩
    obtain ⟨h1, h2, h3⟩ := h'
    rw [hnext] at h2 h3
    refine ⟨by omega, ?_, ?_⟩ <;> rw [hlen, hy, ← Nat.add_assoc]
    · exact h2
    · exact h3

theorem taken_append (hd : d.Valid Kernel.Serves) {p q : Buffer α} (hp : p.Filled)
    (hq : q.Filled) (hoff : q.header.offset = p.header.offset + p.header.len) :
    (d.taken (p.append q)).Alike ((d.taken p).taken q) := by
  have hy := yield_append hd hp hq
  refine ⟨rfl, rfl, ?_, (hd.kernel.sound.fed_append _ _).1⟩
  have hin : (p.append q).header.offset + (p.append q).header.len =
      q.header.offset + q.header.len := by
    rw [hoff, Nat.add_assoc]
    rfl
  have hemit := Segment.emit_emit d.segment (some (p.header.offset + p.header.len))
    (some (q.header.offset + q.header.len)) (d.kernel.yield p.header.len)
    ((d.taken p).kernel.yield q.header.len)
  change ({ d.segment with
    nextIn? := some ((p.append q).header.offset + (p.append q).header.len) } : Segment).emit
      (d.kernel.yield (p.header.len + q.header.len)) = _
  rw [hin, hy]
  exact hemit.symm

theorem tiles_single (hd : d.Valid Kernel.Serves) (hs : d.segment.start?.isSome) {p : Buffer α}
    (hp : p.Filled) : Tiles (d.stampFor p) [((d.kernel.fed p.samples).2, d.stampFor p)] := by
  have hlen := hd.kernel.length_fed p.samples
  rw [hp.length] at hlen
  obtain ⟨n, hn⟩ := exists_duration hs p
  refine ⟨⟨rfl, ?_, rfl⟩, rfl, ⟨[n], ?_, ?_⟩, ?_, ⟨rfl, ?_⟩, ⟨rfl, ?_⟩⟩
  · rw [hlen]
    rfl
  · rw [List.map_singleton, List.map_singleton, hn]
  · rw [List.sum_singleton, hn]
  · rw [List.countP_singleton]
  · exact List.forall_mem_singleton.mpr rfl
  · exact List.forall_mem_singleton.mpr rfl

theorem discont_append (hd : d.Valid Kernel.Serves) {p q : Buffer α} (hp : p.Filled)
    (hq : q.Filled) :
    (d.stampFor (p.append q)).discont =
        ((d.stampFor p).discont || ((d.taken p).stampFor q).discont) ∧
      ((d.stampFor p).discont && ((d.taken p).stampFor q).discont) = false := by
  have harm := Segment.armed_emit { d.segment with
    nextIn? := some (p.header.offset + p.header.len) } (d.kernel.yield p.header.len)
  have hsecond : ((d.taken p).stampFor q).discont = (d.segment.armed &&
      d.kernel.yield p.header.len == 0 && decide (0 < (d.taken p).kernel.yield q.header.len)) :=
    congr_arg (· && _) harm
  have hwhole : (d.stampFor (p.append q)).discont = (d.segment.armed &&
      decide (0 < d.kernel.yield p.header.len + (d.taken p).kernel.yield q.header.len)) := by
    rw [← yield_append hd hp hq]
    rfl
  have hfirst : (d.stampFor p).discont =
      (d.segment.armed && decide (0 < d.kernel.yield p.header.len)) := rfl
  rw [hsecond, hwhole, hfirst]
  cases d.segment.armed <;> cases d.kernel.yield p.header.len <;> simp

theorem tiles_append (hd : d.Valid Kernel.Serves) (hs : d.segment.start?.isSome)
    {p q : Buffer α} (hp : p.Filled) (hq : q.Filled) {parts : List (List α × Stamp)}
    (h : Tiles ((d.taken p).stampFor q) parts) :
    Tiles (d.stampFor (p.append q)) (((d.kernel.fed p.samples).2, d.stampFor p) :: parts) := by
  obtain ⟨hoff, -, ⟨ds, hds, hsum⟩, hdis, ⟨-, hgap⟩, ⟨-, hstart⟩⟩ := h
  have hy := yield_append hd hp hq
  have hlen := hd.kernel.length_fed p.samples
  rw [hp.length] at hlen
  obtain ⟨n, hn⟩ := exists_duration hs p
  have hend : d.segment.nextOut + d.kernel.yield (p.header.len + q.header.len) =
      d.segment.nextOut + d.kernel.yield p.header.len + (d.taken p).kernel.yield q.header.len := by
    rw [hy, Nat.add_assoc]
  refine ⟨⟨rfl, ?_, ?_⟩, rfl, ⟨n :: ds, ?_, ?_⟩, ?_, ⟨rfl, ?_⟩, ⟨rfl, ?_⟩⟩
  · rw [hlen]
    rfl
  · change Abut _ parts (d.segment.nextOut + d.kernel.yield (p.header.len + q.header.len))
    rw [hend]
    exact hoff
  · rw [List.map_cons, List.map_cons, hn, hds]
  · change d.segment.duration? d.setup.rateOut d.segment.nextOut
      (d.segment.nextOut + d.kernel.yield (p.header.len + q.header.len)) = _
    rw [hend, List.sum_cons]
    exact Segment.duration?_add hd.ordered le_rfl (Nat.le_add_right _ _) (Nat.le_add_right _ _)
      hn hsum
  · obtain ⟨hor, hnot⟩ := discont_append hd hp hq
    rw [List.countP_cons, hdis, hor]
    revert hnot
    cases (d.stampFor p).discont <;> cases ((d.taken p).stampFor q).discont <;> simp
  · exact List.forall_mem_cons.mpr ⟨rfl, hgap⟩
  · exact List.forall_mem_cons.mpr ⟨rfl, hstart⟩

def FitsNext (c : Converter α ρ) (j : Job α) : Prop :=
  ∀ n, c.predict j.buffer.header = .ok n → j.slice.length = n

def Fits (c : Converter α ρ) : List (Job α) → Prop
  | [] => True
  | j :: js => c.FitsNext j ∧
    ∀ t, c.transform j.buffer j.slice = .ok (.ok t) → t.converter.Fits js

theorem transform_of_fits (hc : c.Valid Kernel.Serves) {j : Job α} (hj : j.buffer.Filled)
    (hfit : c.FitsNext j) (he : c.enter j.buffer.header = .ok d)
    (hlen : d.kernel.outputLen j.buffer.header.len = .ok (d.kernel.yield j.buffer.header.len))
    (hfeed : d.kernel.feed j.buffer.samples = .ok (d.kernel.fed j.buffer.samples))
    (ht : d.Takes j.buffer) :
    c.transform j.buffer j.slice = .ok (.ok ⟨d.taken j.buffer,
      (d.kernel.fed j.buffer.samples).2, d.stampFor j.buffer⟩) := by
  have hslice := hfit _ ((predict_eq hc he).trans hlen)
  rw [transform_of_feed hc hj he hlen hfeed ht hslice.ge, List.drop_of_length_le hslice.le,
    List.append_nil]

theorem transform_of_takes (hc : c.Valid Kernel.Serves) {j : Job α} (hj : j.buffer.Filled)
    (hn : j.buffer.header.len < 2 ^ 62) (hfit : c.FitsNext j)
    (he : c.enter j.buffer.header = .ok d) (ht : d.Takes j.buffer) :
    c.transform j.buffer j.slice = .ok (.ok ⟨d.taken j.buffer,
      (d.kernel.fed j.buffer.samples).2, d.stampFor j.buffer⟩) := by
  have hlen := Kernel.outputLen_eq_ok (k := d.kernel) hn
    (Nat.lt_of_le_of_lt (Nat.le_add_left _ _) ht.output)
  have hfeed := (hc.enter Kernel.serves_stable he).kernel.sound.feed_eq_ok (hj.length.symm ▸ hn)
  exact transform_of_fits hc hj hfit he hlen hfeed ht

theorem takes_of_transform (hc : c.Valid Kernel.Serves) {j : Job α} (hj : j.buffer.Filled)
    (hfit : c.FitsNext j) {r : Except (Rejected (Converter α ρ) (List α)) (Transformed α ρ)}
    (hr : c.transform j.buffer j.slice = .ok r) :
    ∃ d, c.enter j.buffer.header = .ok d ∧ d.Takes j.buffer := by
  cases r with
  | ok t =>
    obtain ⟨d, he, ht, -⟩ := eq_of_transform hc hj hr
    exact ⟨d, he, ht⟩
  | error r =>
    simp only [transform] at hr
    rw [if_neg (fun h => h.2 hj.length)] at hr
    obtain ⟨n, hpre, hr⟩ := Checked.bind_eq_ok_iff.mp hr
    rw [if_neg (hfit n hpre).not_lt] at hr
    obtain ⟨_, -, hr⟩ := Checked.bind_eq_ok_iff.mp hr
    cases hr

theorem enter_taken {p : Buffer α} (hs : d.segment.start?.isSome) {h : Header}
    (hoff : h.offset = p.header.offset + p.header.len) (ht : h.timestamp?.isSome)
    (hm : h.discont = false) : (d.taken p).enter h = .ok (d.taken p) := by
  apply enter_of_continuous
  rintro (hd | hd | hd | hd)
  · exact Bool.false_ne_true (hm.symm.trans hd)
  · exact Option.isSome_iff_ne_none.mp ht hd
  · exact Option.isSome_iff_ne_none.mp hs hd
  · exact hd (congrArg some hoff.symm)

variable [Element α]

def accepted (p : List α × Stamp) : Reply (List α) := .transformed p.1 p.2

theorem run_transform {j : Job α} {rs : List (Request (Job α))} {t : Transformed α ρ}
    (ht : c.transform j.buffer j.slice = .ok (.ok t)) :
    c.run (.transform j :: rs) =
      (t.converter.run rs).map fun r => (r.1, accepted (t.slice, t.stamp) :: r.2) := by
  rw [run, respond, ht]
  change (t.converter.run rs >>= fun r => _) = _
  cases t.converter.run rs <;> rfl

theorem takes_of_run_cons (hc : c.Valid Kernel.Serves) {j : Job α} (hj : j.buffer.Filled)
    (hfit : c.FitsNext j) (he : c.enter j.buffer.header = .ok d) {rs : List (Request (Job α))}
    {r : Converter α ρ × List (Reply (List α))} (hr : c.run (.transform j :: rs) = .ok r) :
    d.Takes j.buffer := by
  obtain ⟨p, hp, -⟩ := Checked.bind_eq_ok_iff.mp hr
  obtain ⟨t, ht, -⟩ := Checked.bind_eq_ok_iff.mp hp
  obtain ⟨d', he', htakes⟩ := takes_of_transform hc hj hfit ht
  cases he.symm.trans he'
  exact htakes

theorem takes_of_run {first : Job α} {rest : List (Job α)} (hc : c.Valid Kernel.Serves)
    (he : c.enter first.buffer.header = .ok d) (hs : d.segment.start?.isSome)
    (hfirst : first.buffer.Filled)
    (hrest : Buffer.CarryOn (first.buffer.header.offset + first.buffer.header.len)
      (rest.map Job.buffer))
    (hn : (first.buffer.joined (rest.map Job.buffer)).header.len < 2 ^ 62)
    (hfit : c.Fits (first :: rest)) {r : Converter α ρ × List (Reply (List α))}
    (hr : c.run ((first :: rest).map .transform) = .ok r) :
    d.Takes (first.buffer.joined (rest.map Job.buffer)) := by
  induction rest generalizing c d first r with
  | nil => exact takes_of_run_cons hc hfirst hfit.1 he hr
  | cons next rest ih =>
    obtain ⟨hnext, hoff, htime, hmark, hcarry⟩ := hrest
    obtain ⟨hfit, hfits⟩ := hfit
    have hd := hc.enter Kernel.serves_stable he
    have hlen : first.buffer.header.len +
        (next.buffer.joined (rest.map Job.buffer)).header.len < 2 ^ 62 := hn
    have htakes := takes_of_run_cons hc hfirst hfit he hr
    have htrans := transform_of_takes hc hfirst (by omega) hfit he htakes
    rw [List.map_cons, run_transform htrans] at hr
    have hqoff : (next.buffer.joined (rest.map Job.buffer)).header.offset =
        first.buffer.header.offset + first.buffer.header.len := by
      rw [Buffer.header_joined]
      exact hoff
    refine (takes_append hd hfirst (Buffer.joined_filled hnext hcarry) hqoff).mpr ⟨htakes, ?_⟩
    -- What is left of the run starts in the state after the first piece.
    cases hr' : (d.taken first.buffer).run ((next :: rest).map .transform) with
    | ok r' =>
      exact ih (taken_valid hd first.buffer) (enter_taken hs hoff htime hmark) hs hnext
        (hoff ▸ hcarry) (by omega) (hfits _ htrans) hr'
    | error f =>
      rw [hr'] at hr
      cases hr

theorem run_of_takes {first : Job α} {rest : List (Job α)} (hc : c.Valid Kernel.Serves)
    (he : c.enter first.buffer.header = .ok d) (hs : d.segment.start?.isSome)
    (hfirst : first.buffer.Filled)
    (hrest : Buffer.CarryOn (first.buffer.header.offset + first.buffer.header.len)
      (rest.map Job.buffer))
    (hn : (first.buffer.joined (rest.map Job.buffer)).header.len < 2 ^ 62)
    (hfit : c.Fits (first :: rest)) (ht : d.Takes (first.buffer.joined (rest.map Job.buffer))) :
    ∃ e parts, c.run ((first :: rest).map .transform) = .ok (e, parts.map accepted) ∧
      parts.flatMap Prod.fst =
        (d.kernel.fed (first.buffer.joined (rest.map Job.buffer)).samples).2 ∧
      Tiles (d.stampFor (first.buffer.joined (rest.map Job.buffer))) parts ∧
      (d.taken (first.buffer.joined (rest.map Job.buffer))).Alike e := by
  induction rest generalizing c d first with
  | nil =>
    have htrans := transform_of_takes hc hfirst hn hfit.1 he ht
    refine ⟨_, [((d.kernel.fed first.buffer.samples).2, d.stampFor first.buffer)],
      run_transform htrans, ?_, tiles_single (hc.enter Kernel.serves_stable he) hs hfirst,
      .refl _⟩
    exact List.append_nil _
  | cons next rest ih =>
    obtain ⟨hnext, hoff, htime, hmark, hcarry⟩ := hrest
    obtain ⟨hfit, hfits⟩ := hfit
    have hd := hc.enter Kernel.serves_stable he
    have hq := Buffer.joined_filled hnext hcarry
    have hqoff : (next.buffer.joined (rest.map Job.buffer)).header.offset =
        first.buffer.header.offset + first.buffer.header.len := by
      rw [Buffer.header_joined]
      exact hoff
    have hlen : first.buffer.header.len +
        (next.buffer.joined (rest.map Job.buffer)).header.len < 2 ^ 62 := hn
    obtain ⟨htakes, hthen⟩ := (takes_append hd hfirst hq hqoff).mp ht
    have htrans := transform_of_takes hc hfirst (by omega) hfit he htakes
    obtain ⟨e, parts, hrun, hout, htiles, halike⟩ := ih (taken_valid hd first.buffer)
      (enter_taken hs hoff htime hmark) hs hnext (hoff ▸ hcarry) (by omega)
      (hfits _ htrans) hthen
    refine ⟨e, ((d.kernel.fed first.buffer.samples).2, d.stampFor first.buffer) :: parts, ?_,
      ?_, tiles_append hd hs hfirst hq htiles, (taken_append hd hfirst hq hqoff).trans halike⟩
    · rw [List.map_cons, run_transform htrans, hrun]
      rfl
    · rw [List.flatMap_cons, hout]
      exact (hd.kernel.sound.fed_append _ _).2.symm

/-- Chunking is invisible. The pieces of a buffer meet no fault exactly when the buffer meets
none. Then they give together what it gives, their stamps tile its stamp, and no later requests
tell the states apart. -/
theorem chunking_invisible (hc : c.Reachable) {whole first : Job α} {rest : List (Job α)}
    (hwhole : whole.buffer.Filled) (htime : whole.buffer.header.timestamp?.isSome)
    (hmem : whole.buffer.Addressable)
    (hcut : whole.buffer.Cut first.buffer (rest.map Job.buffer))
    (hfit : c.FitsNext whole) (hfits : c.Fits (first :: rest)) :
    (∀ r, c.run ((first :: rest).map .transform) = .ok r →
      ∃ t, c.transform whole.buffer whole.slice = .ok (.ok t)) ∧
    ∀ t, c.transform whole.buffer whole.slice = .ok (.ok t) →
      ∃ d parts, c.run ((first :: rest).map .transform) = .ok (d, parts.map accepted) ∧
        parts.flatMap Prod.fst = t.slice ∧ Tiles t.stamp parts ∧
        t.converter.Indistinguishable d := by
  have hv := hc.valid Kernel.serves_stable
  obtain ⟨hjoined, hfirst⟩ := hcut.eq_joined hwhole
  have hn : whole.buffer.header.len < 2 ^ 62 := hwhole.length ▸ hmem.length_lt
  have henter : c.enter first.buffer.header = c.enter whole.buffer.header := by
    rw [hcut.header, enter_len]
  have hrest : Buffer.CarryOn (first.buffer.header.offset + first.buffer.header.len)
      (rest.map Job.buffer) := by
    have := hcut.rest
    rw [hcut.header]
    exact this
  refine ⟨fun r hr => ?_, fun t ht => ?_⟩
  · obtain ⟨p, hp, -⟩ := Checked.bind_eq_ok_iff.mp hr
    obtain ⟨t, ht, -⟩ := Checked.bind_eq_ok_iff.mp hp
    obtain ⟨d, he, -⟩ := takes_of_transform hv hfirst hfits.1 ht
    have hs := start_of_enter (h := whole.buffer.header) htime (henter.symm.trans he)
    rw [hjoined] at hn
    have htakes := takes_of_run hv he hs hfirst hrest hn hfits hr
    rw [← hjoined] at htakes hn
    exact ⟨_, transform_of_takes hv hwhole hn hfit (henter.symm.trans he) htakes⟩
  · obtain ⟨d, he, htakes, -, -⟩ := (transform_eq_ok_iff hv hwhole hn).mp ht
    cases (transform_of_takes hv hwhole hn hfit he htakes).symm.trans ht
    have hs := start_of_enter htime he
    rw [hjoined] at htakes hn
    obtain ⟨e, parts, hrun, hout, htiles, halike⟩ :=
      run_of_takes hv (henter.trans he) hs hfirst hrest hn hfits htakes
    rw [← hjoined] at hout htiles halike
    exact ⟨e, parts, hrun, hout, htiles, halike.indistinguishable⟩

def doubling : Setup where
  config :=
    { rateIn := .one, rateOut := .two, type := .f64, quality := 1 }
  conversion := .up 2 .linear

def timed (offset time room : Nat) (xs : List Float) : Job Float :=
  ⟨⟨{ len := xs.length, offset, timestamp? := some time }, xs⟩, List.replicate room 0⟩

/-- Three samples in three pieces, of which the second is empty and the third has a time of
its own. -/
theorem chunking_invisible_of_three_pieces :
    ∃ t d parts,
      (ofSetup doubling).transform (timed 7 5 4 [2, 3, 4]).buffer (timed 7 5 4 [2, 3, 4]).slice =
        .ok (.ok t) ∧
      (ofSetup doubling).run
          ([timed 7 5 0 [2], timed 8 0 0 [], timed 8 1 4 [3, 4]].map .transform) =
        .ok (d, parts.map accepted) ∧
      parts.flatMap Prod.fst = t.slice ∧ Tiles t.stamp parts := by
  have hc : (ofSetup doubling : Converter Float Float).Reachable :=
    .made (show ofConfig doubling.config = .ok (ofSetup doubling) from rfl)
  obtain ⟨t, ht⟩ : ∃ t, (ofSetup doubling).transform (timed 7 5 4 [2, 3, 4]).buffer
      (timed 7 5 4 [2, 3, 4]).slice = .ok (.ok t) := ⟨_, rfl⟩
  have hcut : Buffer.Cut (timed 7 5 4 [2, 3, 4]).buffer (timed 7 5 0 [2]).buffer
      ([timed 8 0 0 [], timed 8 1 4 [3, 4]].map Job.buffer) := by
    refine ⟨rfl, rfl, ⟨⟨rfl, rfl⟩, rfl, rfl, rfl, ⟨⟨rfl, rfl⟩, rfl, rfl, rfl, trivial⟩⟩⟩
  have hfits : (ofSetup doubling : Converter Float Float).Fits
      [timed 7 5 0 [2], timed 8 0 0 [], timed 8 1 4 [3, 4]] := by
    refine ⟨fun n hn => by cases hn; rfl, fun t ht => ?_⟩
    cases ht
    refine ⟨fun n hn => by cases hn; rfl, fun t ht => ?_⟩
    cases ht
    exact ⟨fun n hn => by cases hn; rfl, fun _ _ => trivial⟩
  obtain ⟨d, parts, h1, h2, h3, -⟩ := (chunking_invisible hc (⟨rfl, rfl⟩ : Buffer.Filled _) rfl
    (show Buffer.Addressable _ by unfold Buffer.Addressable; decide) hcut
    (fun n hn => by cases hn; rfl) hfits).2 t ht
  exact ⟨t, d, parts, ht, h1, h2, h3⟩

end Converter

end RateConversion
