import Mathlib.Logic.Equiv.Basic
import RateConversion.Proofs.Reachability
import RateConversion.Proofs.SampleMaps

/-! Runs under a map of samples. A map that keeps the arithmetic takes a run of data to a run of
data: the converter for the one type and the one for the other are made, accept, turn away
and refuse alike, and the one puts out the image of what the other does. -/

namespace RateConversion

section Retype

variable (σ : ElementType → ElementType)

def Config.retype (c : Config) : Config := { c with type := σ c.type }

def Setup.retype (s : Setup) : Setup := ⟨s.config.retype σ, s.conversion⟩

def ConfigError.retype : ConfigError → ConfigError
  | .elementMismatch expected requested => .elementMismatch (σ expected) (σ requested)
  | why => why

variable {σ} {c : Config}

theorem Config.conversion_retype (h : c.unitSize? = none) :
    (c.retype σ).conversion = c.conversion := by
  simp only [conversion, checkUnitSize, retype, h]
  rfl

theorem Config.eq_badQuality_of_resolve {num den : Nat} {why : ConfigError}
    (h : c.resolve num den = .error why) : why = c.badQuality := by
  simp only [resolve] at h
  cases hd : c.direction with
  | passthrough =>
    rw [hd] at h
    dsimp only at h
    split_ifs at h
    cases h
    rfl
  | upsampling =>
    rw [hd] at h
    cases hi : Interpolation.ofQuality? c.quality <;> rw [hi] at h <;> cases h
    rfl
  | downsampling =>
    rw [hd] at h
    cases hi : Decimation.ofQuality? c.quality <;> rw [hi] at h <;> cases h
    rfl

theorem Config.retype_of_conversion {why : ConfigError} (h : c.unitSize? = none)
    (hc : c.conversion = .error why) : why.retype σ = why := by
  simp only [conversion, checkUnitSize, h] at hc
  change (if c.ratio.1 ≠ 1 ∧ c.ratio.2 ≠ 1 then _ else _) = _ at hc
  split_ifs at hc
  · cases hc
    rfl
  · rw [eq_badQuality_of_resolve hc]
    rfl

theorem Setup.ofConfig_retype (h : c.unitSize? = none) :
    ofConfig (c.retype σ) = ((ofConfig c).map (retype σ)).mapError (ConfigError.retype σ) := by
  simp only [ofConfig, Config.conversion_retype h]
  cases hc : c.conversion with
  | error why => exact congr_arg Except.error (Config.retype_of_conversion h hc).symm
  | ok conversion => rfl

end Retype

def exchange (α β : Type) [Element α] [Element β] : ElementType → ElementType :=
  Equiv.swap (Element.type α) (Element.type β)

section Exchange

variable {α β : Type} [Element α] [Element β]

theorem exchange_left : exchange α β (Element.type α) = Element.type β := Equiv.swap_apply_left _ _

theorem exchange_eq_iff (t : ElementType) :
    exchange α β t = Element.type β ↔ t = Element.type α := by
  rw [← exchange_left (α := α) (β := β)]
  exact (Equiv.swap (Element.type α) (Element.type β)).apply_eq_iff_eq

theorem Converter.check_retype {config : Config} (h : config.unitSize? = none) :
    check β (config.retype (exchange α β)) =
      ((check α config).map (Setup.retype (exchange α β))).mapError
        (ConfigError.retype (exchange α β)) := by
  simp only [check]
  by_cases ht : config.type = Element.type α
  · have ht' : (config.retype (exchange α β)).type = Element.type β :=
      (exchange_eq_iff config.type).mpr ht
    rw [if_pos ht, if_pos ht', Setup.ofConfig_retype h]
  · have ht' : ¬(config.retype (exchange α β)).type = Element.type β :=
      fun h' => ht ((exchange_eq_iff config.type).mp h')
    rw [if_neg ht, if_neg ht']
    exact congr_arg (fun t => Except.error (ConfigError.elementMismatch t _)) exchange_left.symm

end Exchange

def Job.map {α β : Type} (f : α → β) (job : Job α) : Job β := ⟨job.buffer.map f, job.slice.map f⟩

def Refused.through {σ τ : Type} (g : σ → τ) (e : ConfigError → ConfigError) :
    Except (Refused σ) σ → Except (Refused τ) τ
  | .ok state => .ok (g state)
  | .error r => .error ⟨g r.state, e r.why⟩

theorem settle_through {σ τ β γ : Type} (g : σ → τ) (h : β → γ) (e : ConfigError → ConfigError)
    (x : Except (Refused σ) σ) :
    (settle (Refused.through g e x) : τ × Reply γ) = Prod.map g (Reply.map h e) (settle x) := by
  cases x <;> rfl

def Zeros.retype {α : Type} [Zero α] (β : Type) [Zero β] (z : Zeros α) : Zeros β :=
  Zeros.empty.upTo z.samples.length

theorem Zeros.retype_upTo {α β : Type} [Zero α] [Zero β] (z : Zeros α) (n : Nat) :
    (z.upTo n).retype β = (z.retype β).upTo n := by
  simp only [retype, upTo, empty, List.nil_append, List.length_nil, Nat.sub_zero,
    List.length_append, List.length_replicate, List.replicate_add]

section Images

variable {α β : Type} [Element α] [Element β] (f : α → β)

def Request.image : Request (Job α) → Request (Job β) :=
  map (Job.map f) (Config.retype (exchange α β))

def Reply.image : Reply (List α) → Reply (List β) :=
  map (List.map f) (ConfigError.retype (exchange α β))

variable [Zero α] [Zero β] {ρ : Type} [Scalar ρ]

def Converter.image (c : Converter α ρ) : Converter β ρ where
  setup := c.setup.retype (exchange α β)
  staged? := c.staged?.map (Setup.retype (exchange α β))
  kernel := c.kernel.map f
  table? := c.table?
  zeros := c.zeros.retype β
  segment := c.segment

def Transformed.image (t : Transformed α ρ) : Transformed β ρ :=
  ⟨t.converter.image f, t.slice.map f, t.stamp⟩

def Transformed.through : Except (Rejected (Converter α ρ) (List α)) (Transformed α ρ) →
    Except (Rejected (Converter β ρ) (List β)) (Transformed β ρ)
  | .ok t => .ok (t.image f)
  | .error r => .error ⟨r.state.image f, r.slice.map f, r.why⟩

end Images

namespace Request

def Undeclared {τ : Type} : Request τ → Prop
  | .configure config => config.unitSize? = none
  | _ => True

def IsGap {α : Type} : Request (Job α) → Prop
  | .transform job => job.buffer.header.gap = true
  | _ => False

end Request

namespace Converter

def Undeclared {α ρ : Type} [Zero α] [Scalar ρ] (c : Converter α ρ) : Prop :=
  c.pending.config.unitSize? = none

variable {α β ρ : Type} [Element α] [Element β] [Zero α] [Zero β] [Scalar ρ] {f : α → β}

theorem pending_image (c : Converter α ρ) :
    (c.image f).pending = c.pending.retype (exchange α β) := by
  simp only [pending, image]
  cases c.staged? <;> rfl

theorem predict_image (c : Converter α ρ) (h : Header) : (c.image f).predict h = c.predict h := by
  simp only [predict, pending_image]
  simp only [image, Kernel.outputLen_map]
  rfl

theorem setQuality_image {c : Converter α ρ} (hc : c.Undeclared) (q : Nat) :
    (c.image f).setQuality q =
      Refused.through (image f) (ConfigError.retype (exchange α β)) (c.setQuality q) := by
  have hq : (c.image f).pending.withQuality q =
      ((c.pending.withQuality q).map (Setup.retype (exchange α β))).mapError
        (ConfigError.retype (exchange α β)) := by
    rw [pending_image]
    exact Setup.ofConfig_retype (σ := exchange α β) (c := { c.pending.config with quality := q }) hc
  simp only [setQuality, hq]
  cases c.pending.withQuality q <;> rfl

theorem setZeroLatency_image (c : Converter α ρ) (b : Bool) :
    (c.image f).setZeroLatency b = (c.setZeroLatency b).image f := by
  simp only [setZeroLatency, pending_image]
  rfl

variable [Add α] [Sub α] [Sample α ρ] [Add β] [Sub β] [Sample β ρ]

theorem rebuild_image (hf : Linear f) (c : Converter α ρ) :
    (c.image f).rebuild = c.rebuild.image f := by
  simp only [rebuild, image]
  rw [show (c.setup.retype (exchange α β)).conversion = c.setup.conversion from rfl,
    Kernel.build_map hf]
  rfl

theorem image_ofSetup (hf : Linear f) (s : Setup) :
    (ofSetup s : Converter α ρ).image f = ofSetup (s.retype (exchange α β)) :=
  (rebuild_image hf _).symm

theorem ofConfig_image (hf : Linear f) {config : Config} (h : config.unitSize? = none) :
    (ofConfig (config.retype (exchange α β)) : Except ConfigError (Converter β ρ)) =
      ((ofConfig config : Except ConfigError (Converter α ρ)).map (image f)).mapError
        (ConfigError.retype (exchange α β)) := by
  simp only [ofConfig, check_retype h]
  cases check α config with
  | error why => rfl
  | ok s => exact congr_arg Except.ok (image_ofSetup hf s).symm

theorem reset_image (hf : Linear f) (c : Converter α ρ) :
    (c.image f).reset = c.reset.image f := by
  simp only [reset, image, Kernel.reset_map hf]

theorem configure_image (hf : Linear f) (c : Converter α ρ) {config : Config}
    (h : config.unitSize? = none) :
    (c.image f).configure (config.retype (exchange α β)) =
      Refused.through (image f) (ConfigError.retype (exchange α β)) (c.configure config) := by
  simp only [configure, check_retype h]
  cases check α config with
  | error why => rfl
  | ok s =>
    refine congr_arg Except.ok ?_
    rw [← reset_image hf, ← rebuild_image hf]
    rfl

theorem adopt_image (hf : Linear f) (c : Converter α ρ) :
    (c.image f).adopt = c.adopt.image f := by
  obtain ⟨setup, staged?, kernel, table?, zeros, segment⟩ := c
  cases staged? with
  | none => rfl
  | some s =>
    have hrebuild := rebuild_image hf (⟨s, none, kernel, table?, zeros, segment⟩ : Converter α ρ)
    change (if s.conversion = setup.conversion then _ else _ : Converter β ρ) =
      (if s.conversion = setup.conversion then _ else _ : Converter α ρ).image f
    split_ifs
    · rfl
    · exact hrebuild

theorem enter_image (hf : Linear f) (c : Converter α ρ) (h : Header) :
    (c.image f).enter h = (c.enter h).map (image f) := by
  by_cases hc : c.segment.continues h = true
  · rw [enter, enter, if_pos hc, if_pos (show (c.image f).segment.continues h = true from hc)]
    rfl
  · rw [enter, enter, if_neg hc, if_neg (show ¬(c.image f).segment.continues h = true from hc)]
    simp only [openSegment, adopt_image hf]
    refine Checked.bind_map_same fun segment => congr_arg Except.ok ?_
    simp only [image, Kernel.reset_map hf]
    rfl

theorem restocked_image (hf : Linear f) (d : Converter α ρ) {b : Buffer α}
    (hz : b.header.gap = true → KeepsZeros f) :
    (d.image f).restocked (b.map f) = (d.restocked b).retype β := by
  simp only [restocked, Kernel.restock]
  cases hg : b.header.gap with
  | true =>
    rw [if_pos (show (b.map f).header.gap = true from hg), if_pos rfl, image,
      Kernel.isSilent_map hf (hz hg)]
    split_ifs
    · rfl
    · exact (Zeros.retype_upTo _ _).symm
  | false =>
    have hdata : ¬(b.map f).header.gap = true := by
      rw [Buffer.map, hg]
      exact Bool.false_ne_true
    rw [if_neg hdata]
    rfl

variable [Add ρ] [Mul ρ]

theorem proceed_image (hf : Linear f) (d : Converter α ρ) {b : Buffer α}
    (hz : b.header.gap = true → KeepsZeros f) (n : Nat) :
    (d.image f).proceed (b.map f) n =
      (d.proceed b n).map (Prod.map (image f) (Prod.map (List.map f) id)) := by
  simp only [proceed, restocked_image hf d hz]
  simp only [image, Kernel.outputLen_map]
  refine Checked.bind_map_same fun nextIn => Checked.bind_map_same fun len =>
    Checked.bind_map_same fun _ => Checked.bind_map (d.kernel.give_map hf hz n) fun p => ?_
  simp only [Produced.map, List.length_map]
  exact Checked.bind_map_same fun _ => Checked.bind_map_same fun r => rfl

theorem transform_image (hf : Linear f) (c : Converter α ρ) {b : Buffer α}
    (hz : b.header.gap = true → KeepsZeros f) (slice : List α) :
    (c.image f).transform (b.map f) (slice.map f) =
      (c.transform b slice).map (Transformed.through f) := by
  simp only [transform, predict_image, Buffer.map, List.length_map]
  split_ifs
  · rfl
  · refine Checked.bind_map_same fun expected => ?_
    split_ifs
    · rfl
    · refine Checked.bind_map (g := Prod.map (image f) (Prod.map (List.map f) id)) ?_ fun r => ?_
      · rw [absorb_eq, absorb_eq]
        exact Checked.bind_map (enter_image hf c b.header) fun d => proceed_image hf d hz expected
      · simp only [Prod.map_fst, Prod.map_snd, ← List.map_drop, ← List.map_append]
        rfl

theorem respond_image (hf : Linear f) {c : Converter α ρ} (hc : c.Undeclared)
    {q : Request (Job α)} (hq : q.Undeclared) (hg : q.IsGap → KeepsZeros f) :
    (c.image f).respond (q.image f) = (c.respond q).map (Prod.map (image f) (Reply.image f)) := by
  cases q with
  | transform job =>
    refine Checked.bind_map (transform_image hf c hg job.slice) fun t => ?_
    cases t <;> rfl
  | predict h =>
    simp only [Request.image, Request.map, respond, predict_image]
    exact Checked.bind_map_same fun n => rfl
  | required n => exact Checked.bind_map_same (x := c.requiredLen n) fun n => rfl
  | setQuality q =>
    simp only [Request.image, Request.map, respond, setQuality_image hc]
    exact congr_arg Except.ok (settle_through _ _ _ _)
  | setZeroLatency b =>
    exact congr_arg (fun d => Except.ok (d, Reply.done)) (setZeroLatency_image c b)
  | configure config =>
    simp only [Request.image, Request.map, respond, configure_image hf c hq]
    exact congr_arg Except.ok (settle_through _ _ _ _)
  | reset => exact congr_arg (fun d => Except.ok (d, Reply.done)) (reset_image hf c)
  | split m => exact Checked.bind_map_same (x := c.splitStamp m) fun parts => rfl

theorem Undeclared.respond {c d : Converter α ρ} (hc : c.Undeclared) {q : Request (Job α)}
    (hq : q.Undeclared) {y : Reply (List α)} (h : c.respond q = .ok (d, y)) : d.Undeclared := by
  cases step_of_respond h with
  | kept | reset => exact hc
  | transformed ht =>
    rw [Undeclared, pending_of_transform ht]
    exact hc
  | quality hs =>
    have hconfig := (Setup.ofConfig_eq_ok_iff.mp hs).1
    exact (congr_arg Config.unitSize? hconfig).trans hc
  | latency b => exact hc
  | configured hs =>
    have hconfig := (check_eq_ok hs).1
    exact (congr_arg Config.unitSize? hconfig).trans hq

/-- A map that keeps the arithmetic can be applied before a run or after it. -/
theorem run_image (hf : Linear f) {c : Converter α ρ} (hc : c.Undeclared)
    {rs : List (Request (Job α))} (hrs : ∀ q ∈ rs, q.Undeclared)
    (hg : ∀ q ∈ rs, q.IsGap → KeepsZeros f) :
    (c.image f).run (rs.map (Request.image f)) =
      (c.run rs).map (Prod.map (image f) (List.map (Reply.image f))) := by
  induction rs generalizing c with
  | nil => rfl
  | cons q rs ih =>
    have hq := hrs q List.mem_cons_self
    refine Checked.bind_map_of_ok (respond_image hf hc hq (hg q List.mem_cons_self)) fun p hp => ?_
    have hrest := ih (hc.respond hq hp) (fun q hmem => hrs q (List.mem_cons_of_mem _ hmem))
      fun q hmem => hg q (List.mem_cons_of_mem _ hmem)
    exact Checked.bind_map hrest fun r => rfl

end Converter

end RateConversion
