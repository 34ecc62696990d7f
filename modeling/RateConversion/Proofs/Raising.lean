import RateConversion.Proofs.Blocks
import RateConversion.Proofs.Chunking
import RateConversion.Proofs.Refusals
import RateConversion.Proofs.TimeGrid

/-! A stream whose rate is raised. Each part of the output is made of blocks that are led by
the next samples of the input, and it is stamped with the offset that its first leader has on
the finer grid and with the time that is counted from the start of the stream. The run meets
an overflow exactly when the end of the last block is past the words. -/

namespace RateConversion

namespace Scale

theorem mul_le_largest {offset factor rate : Nat} (hr : 0 < rate)
    (hrate : factor * rate ≤ 500000000)
    (hfit : nearest offset nanosPerSecond rate ≤ largest) : offset * factor ≤ largest := by
  obtain ⟨-, hhigh⟩ := nearest_bounds offset nanosPerSecond hr
  have hmul := Nat.mul_le_mul_left rate hfit
  have htime : offset * nanosPerSecond < rate * (largest + 1) := by
    rw [Nat.mul_succ]
    omega
  by_contra hlarge
  have hle : rate * (largest + 1) ≤ offset * nanosPerSecond := by
    calc rate * (largest + 1) ≤ rate * (offset * factor) :=
          Nat.mul_le_mul_left _ (Nat.lt_of_not_le hlarge)
      _ = offset * (factor * rate) := by ring
      _ ≤ offset * nanosPerSecond := Nat.mul_le_mul_left _ (hrate.trans (by decide))
  omega

end Scale

namespace Grid

theorem timeOfTick_mul_mul {factor rate : Nat} (hf : 0 < factor) (hr : 0 < rate) (tick : Nat) :
    timeOfTick (factor * rate) (tick * factor) = timeOfTick rate tick :=
  congr_arg (min · Scale.largest) (Scale.nearest_mul_mul hf hr tick nanosPerSecond)

theorem timeOfTick_zero {rate : Nat} (hr : 0 < rate) : timeOfTick rate 0 = 0 := by
  have hhalf : rate / 2 < rate := Nat.div_lt_self hr Nat.one_lt_two
  rw [timeOfTick, Scale.round, Nat.zero_mul, Nat.zero_add, Nat.div_eq_of_lt hhalf, Nat.zero_min]

/-- The sample that comes `n` samples after an offset has a place on the grid that is finer
by a factor, and a time. -/
structure Reaches (factor rate offset n : Nat) : Prop where
  offset_lt : (offset + n) * factor < 0x10000000000000000
  time_lt : timeOfTick rate offset + timeOfTick rate n < 0x10000000000000000

theorem Reaches.mono {factor rate offset m n : Nat} (h : Reaches factor rate offset n)
    (hmn : m ≤ n) : Reaches factor rate offset m := by
  have hoffset := Nat.mul_le_mul_right factor (Nat.add_le_add_left hmn offset)
  have htime := timeOfTick_mono rate hmn
  exact ⟨hoffset.trans_lt h.offset_lt, (Nat.add_le_add_left htime _).trans_lt h.time_lt⟩

end Grid

theorem Grid.Reaches.of_append {α : Type} {factor rate offset lead : Nat} {xs ys : List α}
    (h : Reaches factor rate offset ((xs ++ ys).length - lead)) :
    Reaches factor rate offset (xs.length - lead) := by
  apply h.mono
  rw [List.length_append]
  omega

theorem Buffer.Filled.offset_append {α : Type} {p : Buffer α} (hp : p.Filled) {offset : Nat}
    {xs : List α} (hoff : p.header.offset = offset + xs.length) :
    p.header.offset + p.header.len = offset + (xs ++ p.samples).length := by
  rw [hoff, List.length_append, hp.length, Nat.add_assoc]

/-- A part of a raised stream, from the sample `m` after its offset on: the samples `ks` lead
its blocks. -/
structure RaisedPart {α : Type} (factor rate offset m : Nat) (ks : List α)
    (p : List α × Stamp) : Prop where
  blocks : Blocks factor ks p.1
  begins : p.2.offset = (offset + m) * factor
  ends : p.2.offsetEnd = (offset + (m + ks.length)) * factor
  timestamp : p.2.timestamp? = some (Grid.timeOfTick rate offset + Grid.timeOfTick rate m)
  discont : p.2.discont = true → m = 0
  reaches : Grid.Reaches factor rate offset (m + ks.length)

inductive RaisedParts {α : Type} (factor rate offset : Nat) :
    Nat → List α → List (List α × Stamp) → Prop
  | nil {m : Nat} : RaisedParts factor rate offset m [] []
  | cons {m : Nat} {ks ls : List α} {p : List α × Stamp} {ps : List (List α × Stamp)}
    (head : RaisedPart factor rate offset m ks p)
    (tail : RaisedParts factor rate offset (m + ks.length) ls ps) :
    RaisedParts factor rate offset m (ks ++ ls) (p :: ps)

namespace Converter

variable {α ρ : Type} [Zero α] [Add α] [Sub α] [Mul ρ] [Scalar ρ] [Sample α ρ]
variable {c d : Converter α ρ} {s : Setup} {factor offset : Nat} {i : Interpolation}

structure Raised (s : Setup) (factor : Nat) (i : Interpolation) (offset : Nat) (xs : List α)
    (d : Converter α ρ) : Prop where
  valid : d.Valid Kernel.Serves
  setup : d.setup = s
  factor_le : 2 ≤ factor
  rate : s.rateOut = factor * s.rateIn
  kernel : d.kernel = .spline (feed Upsampler.step (.start factor i) xs).1
  start : d.segment.start? = some (Grid.timeOfTick s.rateIn offset)
  origin : d.segment.origin = offset * factor
  nextOut : d.segment.nextOut = (offset + (xs.length - i.lead)) * factor
  armed : d.segment.armed = true → xs.length - i.lead = 0

theorem Raised.factor_pos {xs : List α} (h : d.Raised s factor i offset xs) : 0 < factor :=
  Nat.lt_of_lt_of_le Nat.zero_lt_two h.factor_le

theorem Raised.timeOfTick_sub {xs : List α} (h : d.Raised s factor i offset xs) (n : Nat) :
    Grid.timeOfTick d.setup.rateOut ((offset + n) * factor - d.segment.origin) =
      Grid.timeOfTick s.rateIn n := by
  rw [h.setup, h.rate, h.origin, ← Nat.sub_mul, Nat.add_sub_cancel_left,
    Grid.timeOfTick_mul_mul h.factor_pos s.rateIn_pos]

variable [Add ρ]

theorem exists_enter_raised (hs : s.Coherent) (hconv : s.conversion = .up factor i)
    (hrate : s.rateOut ≤ 500000000) {h : Header} (ht : s.OnTime h) :
    ∃ d : Converter α ρ, (ofSetup s).enter h = .ok d ∧ d.Raised s factor i h.offset [] := by
  have hr := hs.relates
  rw [hconv] at hr
  obtain ⟨hf, hrel⟩ := hr
  have hpos : 0 < factor := by omega
  have hword : h.offset * factor ≤ Scale.largest :=
    Scale.mul_le_largest s.rateIn_pos (hrel ▸ hrate) ht.unsaturated
  have horigin : (s.opened h).origin = h.offset * factor := by
    have hstart := hs.startsAt ht
    rw [hconv] at hstart
    exact hstart.trans (Nat.min_eq_left hword)
  have hdelay : s.conversion.delay = 0 := by rw [hconv]; rfl
  have hnext : (s.opened h).nextOut = h.offset * factor :=
    (congr_arg ((s.opened h).origin + ·) hdelay).trans horigin
  have hidle : (ofSetup s : Converter α ρ).Discontinuous h := .inr (.inr (.inl rfl))
  have henter : (ofSetup s : Converter α ρ).enter h = .ok ((ofSetup s).opened h) := by
    refine (enter_of_discontinuous hidle).mpr ⟨?_, rfl⟩
    change (s.opened h).nextOut < _
    rw [hnext]
    exact Nat.lt_succ_of_le hword
  refine ⟨_, henter, ?_⟩
  have hvalid : (ofSetup s : Converter α ρ).Valid Kernel.Serves :=
    valid_ofSetup Kernel.serves_stable hs
  refine ⟨hvalid.enter Kernel.serves_stable henter, rfl, hf, hrel, ?_, ?_, horigin, ?_,
    fun _ => Nat.zero_sub _⟩
  · change (ofSetup s : Converter α ρ).kernel.reset _ = _
    rw [ofSetup_kernel, hconv]
    rfl
  · have halign := hs.align_onTime ht
    change h.timestamp?.map (Grid.align s.rateIn s.rateOut s.conversion.direction) = _
    rw [ht.time, Option.map_some, halign, horigin, hrel,
      Grid.timeOfTick_mul_mul hpos s.rateIn_pos]
  · change (s.opened h).nextOut = _
    rw [hnext, List.length_nil, Nat.zero_sub, Nat.add_zero]

namespace Raised

variable {xs : List α} {b : Buffer α}

theorem blocks (h : d.Raised s factor i offset xs) (ys : List α) :
    ∃ ks, Blocks factor ks (d.kernel.fed ys).2 ∧
      xs.take (xs.length - i.lead) ++ ks = (xs ++ ys).take ((xs ++ ys).length - i.lead) ∧
      xs.length - i.lead + ks.length = (xs ++ ys).length - i.lead := by
  obtain ⟨ks, hks, hsum⟩ := Upsampler.blocks_start (ρ := ρ) i h.factor_pos xs ys
  have hlen := congr_arg List.length hsum
  rw [List.length_append, List.length_take, List.length_take] at hlen
  rw [h.kernel]
  refine ⟨ks, hks, hsum, ?_⟩
  omega

theorem nextOut_add (h : d.Raised s factor i offset xs) (hb : b.Filled) :
    d.segment.nextOut + d.kernel.yield b.header.len =
      (offset + ((xs ++ b.samples).length - i.lead)) * factor := by
  obtain ⟨ks, hks, -, hcount⟩ := h.blocks b.samples
  have hlen := h.valid.kernel.length_fed b.samples
  rw [hb.length, hks.length_eq] at hlen
  rw [h.nextOut, ← hlen, ← Nat.add_mul, Nat.add_assoc, hcount]

theorem takes_iff (h : d.Raised s factor i offset xs) (hb : b.Filled)
    (hoff : b.header.offset = offset + xs.length) :
    d.Takes b ↔ Grid.Reaches factor s.rateIn offset ((xs ++ b.samples).length - i.lead) := by
  have hend := h.nextOut_add hb
  constructor
  · rintro ⟨-, hout, htimed⟩
    have hlt := (htimed _ h.start).2
    rw [hend] at hout
    rw [hend, h.timeOfTick_sub] at hlt
    exact ⟨hout, hlt⟩
  · rintro ⟨hout, hlt⟩
    refine ⟨?_, hend ▸ hout, fun start hstart => ?_⟩
    · have hlead := Upsampler.lead_le_two i
      have hhalf := Nat.mul_le_mul_left (offset + ((xs ++ b.samples).length - i.lead)) h.factor_le
      rw [List.length_append, hb.length] at hout hhalf
      omega
    · cases h.start.symm.trans hstart
      rw [hend, h.timeOfTick_sub, h.origin]
      exact ⟨Nat.mul_le_mul_right _ (Nat.le_add_right _ _), hlt⟩

theorem outputLen (h : d.Raised s factor i offset xs) (hb : b.Filled)
    (hreach : Grid.Reaches factor s.rateIn offset ((xs ++ b.samples).length - i.lead)) :
    d.kernel.outputLen b.header.len = .ok (d.kernel.yield b.header.len) := by
  have hend := h.nextOut_add hb
  have hlead := Upsampler.lead_le_two i
  have hout := hreach.offset_lt
  have hhalf := Nat.mul_le_mul_left (offset + ((xs ++ b.samples).length - i.lead)) h.factor_le
  rw [List.length_append, hb.length] at hout hhalf hend
  have hi := (Upsampler.feed_step (u := .start factor i) h.factor_pos xs).2.1
  rw [h.kernel] at hend ⊢
  refine Upsampler.outputLenFrom_eq_ok_iff.mpr ⟨rfl, ?_, ?_⟩
  · rw [hi]
    change _ + min _ i.lead < _
    omega
  · change (Kernel.spline _ : Kernel α ρ).yield _ < _
    omega

theorem part (h : d.Raised s factor i offset xs) (hb : b.Filled)
    (hreach : Grid.Reaches factor s.rateIn offset ((xs ++ b.samples).length - i.lead)) :
    ∃ ks, xs.take (xs.length - i.lead) ++ ks =
        (xs ++ b.samples).take ((xs ++ b.samples).length - i.lead) ∧
      xs.length - i.lead + ks.length = (xs ++ b.samples).length - i.lead ∧
      RaisedPart factor s.rateIn offset (xs.length - i.lead) ks
        ((d.kernel.fed b.samples).2, d.stampFor b) := by
  obtain ⟨ks, hks, hsum, hcount⟩ := h.blocks b.samples
  refine ⟨ks, hsum, hcount, hks, h.nextOut, ?_, ?_, ?_, hcount ▸ hreach⟩
  · rw [hcount]
    exact h.nextOut_add hb
  · change d.segment.time? d.setup.rateOut d.segment.nextOut = _
    rw [Segment.time?, h.start, Option.map_some, h.nextOut, h.timeOfTick_sub]
  · intro hmark
    exact h.armed (Bool.and_eq_true_iff.mp hmark).1

theorem taken (h : d.Raised s factor i offset xs) (hb : b.Filled) :
    (d.taken b).Raised s factor i offset (xs ++ b.samples) := by
  have hend := h.nextOut_add hb
  refine ⟨taken_valid h.valid b, h.setup, h.factor_le, h.rate, ?_, h.start, h.origin, hend,
    fun harm => ?_⟩
  · change (d.kernel.fed b.samples).1 = _
    rw [h.kernel, feed_append]
    rfl
  · -- While the segment is armed nothing has come out, so no sample has led a block.
    have harmed : (d.segment.armed && d.kernel.yield b.header.len == 0) = true :=
      (Segment.armed_emit _ _).symm.trans harm
    obtain ⟨hbefore, hzero⟩ := Bool.and_eq_true_iff.mp harmed
    have hnext := h.nextOut
    rw [h.armed hbefore] at hnext
    rw [beq_iff_eq.mp hzero, hnext] at hend
    have := Nat.eq_of_mul_eq_mul_right h.factor_pos hend
    omega

end Raised

theorem transform_eq_overflow (hc : c.Valid Kernel.Serves) {j : Job α} (hj : j.buffer.Filled)
    (hfit : c.FitsNext j) (he : c.enter j.buffer.header = .ok d) (ht : ¬d.Takes j.buffer) :
    c.transform j.buffer j.slice = .error .overflow := by
  have haccepts := (hc.failsAsDocumented j.buffer j.slice).accepts (fun h => h.2 hj.length)
    fun n hn => (hfit n hn).ge
  generalize hr : c.transform j.buffer j.slice = r at haccepts
  cases haccepts with
  | ok h =>
    obtain ⟨d', he', ht'⟩ := takes_of_transform hc hj hfit hr
    cases he.symm.trans he'
    exact absurd ht' ht
  | overflow => rfl

theorem transform_raised (hc : c.Valid Kernel.Serves) {j : Job α} (hj : j.buffer.Filled)
    (hfit : c.FitsNext j) (he : c.enter j.buffer.header = .ok d) {xs : List α}
    (hd : d.Raised s factor i offset xs) (hoff : j.buffer.header.offset = offset + xs.length)
    (hreach : Grid.Reaches factor s.rateIn offset ((xs ++ j.buffer.samples).length - i.lead)) :
    ∃ ks ys stamp, c.transform j.buffer j.slice = .ok (.ok ⟨d.taken j.buffer, ys, stamp⟩) ∧
      xs.take (xs.length - i.lead) ++ ks =
        (xs ++ j.buffer.samples).take ((xs ++ j.buffer.samples).length - i.lead) ∧
      xs.length - i.lead + ks.length = (xs ++ j.buffer.samples).length - i.lead ∧
      RaisedPart factor s.rateIn offset (xs.length - i.lead) ks (ys, stamp) := by
  have hfeed : d.kernel.feed j.buffer.samples = .ok (d.kernel.fed j.buffer.samples) := by
    rw [hd.kernel]
    rfl
  have htrans := transform_of_fits hc hj hfit he (hd.outputLen hj hreach) hfeed
    ((hd.takes_iff hj hoff).mpr hreach)
  obtain ⟨ks, hsum, hcount, hpart⟩ := hd.part hj hreach
  exact ⟨ks, _, _, htrans, hsum, hcount, hpart⟩

variable [Element α] {first : Job α} {rest : List (Job α)} {xs all : List α}

theorem run_of_transform_error {j : Job α} {rs : List (Request (Job α))} {f : Fault}
    (ht : c.transform j.buffer j.slice = .error f) : c.run (.transform j :: rs) = .error f := by
  rw [run, respond, ht]
  rfl

theorem run_eq_overflow (hc : c.Valid Kernel.Serves) (he : c.enter first.buffer.header = .ok d)
    (hd : d.Raised s factor i offset xs) (hfirst : first.buffer.Filled)
    (hoff : first.buffer.header.offset = offset + xs.length)
    (hrest : Buffer.CarryOn (first.buffer.header.offset + first.buffer.header.len)
      (rest.map Job.buffer))
    (hfits : c.Fits (first :: rest))
    (hall : xs ++ (first.buffer.samples ++ rest.flatMap fun j => j.buffer.samples) = all)
    (hreach : ¬Grid.Reaches factor s.rateIn offset (all.length - i.lead)) :
    c.run ((first :: rest).map .transform) = .error .overflow := by
  induction rest generalizing c d first xs with
  | nil =>
    apply run_of_transform_error
    apply transform_eq_overflow hc hfirst hfits.1 he
    rw [hd.takes_iff hfirst hoff]
    rwa [← hall, List.flatMap_nil, List.append_nil] at hreach
  | cons next rest ih =>
    by_cases hhead : Grid.Reaches factor s.rateIn offset
        ((xs ++ first.buffer.samples).length - i.lead)
    · obtain ⟨hnext, hcont, htime, hmark, hcarry⟩ := hrest
      obtain ⟨ks, ys, stamp, htrans, -⟩ := transform_raised hc hfirst hfits.1 he hd hoff hhead
      have hs : d.segment.start?.isSome := by rw [hd.start]; rfl
      have hraised := hd.taken hfirst
      have hrun := ih hraised.valid (enter_taken hs hcont htime hmark) hraised hnext
        (hcont.trans (hfirst.offset_append hoff)) (hcont ▸ hcarry) (hfits.2 _ htrans)
        (by rw [← hall, List.append_assoc, List.flatMap_cons])
      rw [List.map_cons, run_transform htrans, hrun]
      rfl
    · apply run_of_transform_error
      exact transform_eq_overflow hc hfirst hfits.1 he ((hd.takes_iff hfirst hoff).not.mpr hhead)

theorem run_of_reaches (hc : c.Valid Kernel.Serves) (he : c.enter first.buffer.header = .ok d)
    (hd : d.Raised s factor i offset xs) (hfirst : first.buffer.Filled)
    (hoff : first.buffer.header.offset = offset + xs.length)
    (hrest : Buffer.CarryOn (first.buffer.header.offset + first.buffer.header.len)
      (rest.map Job.buffer))
    (hfits : c.Fits (first :: rest))
    (hall : xs ++ (first.buffer.samples ++ rest.flatMap fun j => j.buffer.samples) = all)
    (hreach : Grid.Reaches factor s.rateIn offset (all.length - i.lead)) :
    ∃ e ks parts, c.run ((first :: rest).map .transform) = .ok (e, parts.map accepted) ∧
      xs.take (xs.length - i.lead) ++ ks = all.take (all.length - i.lead) ∧
      RaisedParts factor s.rateIn offset (xs.length - i.lead) ks parts := by
  -- The samples of each buffer are added to those that the raised segment has taken.
  induction rest generalizing c d first xs with
  | nil =>
    rw [List.flatMap_nil, List.append_nil] at hall
    subst hall
    obtain ⟨ks, ys, stamp, htrans, hsum, -, hpart⟩ :=
      transform_raised hc hfirst hfits.1 he hd hoff hreach
    have hparts := RaisedParts.cons hpart .nil
    rw [List.append_nil] at hparts
    exact ⟨_, ks, [(ys, stamp)], run_transform htrans, hsum, hparts⟩
  | cons next rest ih =>
    obtain ⟨hnext, hcont, htime, hmark, hcarry⟩ := hrest
    have hrejoin : xs ++ first.buffer.samples ++ (next.buffer.samples ++
        rest.flatMap fun j => j.buffer.samples) = all := by
      rw [← hall, List.append_assoc, List.flatMap_cons]
    obtain ⟨ks, ys, stamp, htrans, hsum, hcount, hpart⟩ := transform_raised hc hfirst hfits.1 he
      hd hoff (Grid.Reaches.of_append (hrejoin ▸ hreach))
    have hs : d.segment.start?.isSome := by rw [hd.start]; rfl
    have hraised := hd.taken hfirst
    obtain ⟨e, ls, parts, hrun, hsum', hparts⟩ := ih hraised.valid
      (enter_taken hs hcont htime hmark) hraised hnext (hcont.trans (hfirst.offset_append hoff))
      (hcont ▸ hcarry) (hfits.2 _ htrans) hrejoin
    refine ⟨e, ks ++ ls, (ys, stamp) :: parts, ?_, ?_, .cons hpart (hcount ▸ hparts)⟩
    · rw [List.map_cons, run_transform htrans, hrun]
      rfl
    · rw [← List.append_assoc, hsum, hsum']

theorem raises (hs : s.Coherent) (hconv : s.conversion = .up factor i)
    (hrate : s.rateOut ≤ 500000000) (ht : s.OnTime first.buffer.header)
    (hfirst : first.buffer.Filled)
    (hrest : Buffer.CarryOn (first.buffer.header.offset + first.buffer.header.len)
      (rest.map Job.buffer))
    (hfits : (ofSetup s : Converter α ρ).Fits (first :: rest))
    (hall : ((first :: rest).flatMap fun j => j.buffer.samples) = all) :
    (¬Grid.Reaches factor s.rateIn first.buffer.header.offset (all.length - i.lead) →
      (ofSetup s : Converter α ρ).run ((first :: rest).map .transform) = .error .overflow) ∧
    (Grid.Reaches factor s.rateIn first.buffer.header.offset (all.length - i.lead) →
      ∃ d, ∃ parts : List (List α × Stamp),
        (ofSetup s : Converter α ρ).run ((first :: rest).map .transform) =
          .ok (d, parts.map accepted) ∧
        RaisedParts factor s.rateIn first.buffer.header.offset 0
          (all.take (all.length - i.lead)) parts) := by
  obtain ⟨d, he, hd⟩ := exists_enter_raised (α := α) (ρ := ρ) hs hconv hrate ht
  have hc : (ofSetup s : Converter α ρ).Valid Kernel.Serves :=
    valid_ofSetup Kernel.serves_stable hs
  rw [List.flatMap_cons] at hall
  refine ⟨run_eq_overflow hc he hd hfirst rfl hrest hfits hall, fun hreach => ?_⟩
  obtain ⟨e, ks, parts, hrun, hsum, hparts⟩ :=
    run_of_reaches hc he hd hfirst rfl hrest hfits hall hreach
  rw [List.take_nil, List.nil_append] at hsum
  rw [List.length_nil, Nat.zero_sub, hsum] at hparts
  exact ⟨e, parts, hrun, hparts⟩

end Converter

end RateConversion
