import RateConversion.Proofs.Images
import RateConversion.Proofs.Ratio

/-! Which configurations are accepted, what they resolve to, and which fault is reported when
there are several. The checks of a computation are the list of the faults that it looks for,
in their order. A fault is a property of configurations or of stream descriptions alone, and
says no more of the checks before it than that they have passed. -/

namespace RateConversion

section Faults

variable {ε α β : Type}

/-- A fault is the errors that report it; none if there is no such fault. -/
def Absent (fault : ε → Prop) : Prop := ∀ e, ¬fault e

/-- An error reports the first fault of a list that is there. -/
def FirstFault : List (ε → Prop) → ε → Prop
  | [], _ => False
  | fault :: faults, e => fault e ∨ Absent fault ∧ FirstFault faults e

def Reports (x : Except ε α) (faults : List (ε → Prop)) : Prop :=
  ∀ e, x = .error e ↔ FirstFault faults e

theorem absent_firstFault_iff {faults : List (ε → Prop)} :
    Absent (FirstFault faults) ↔ ∀ fault ∈ faults, Absent fault := by
  induction faults with
  | nil => exact ⟨fun _ _ h => absurd h List.not_mem_nil, fun _ _ => id⟩
  | cons fault faults ih =>
    rw [List.forall_mem_cons, ← ih]
    constructor
    · intro h
      have hfault : Absent fault := fun e he => h e (.inl he)
      exact ⟨hfault, fun e he => h e (.inr ⟨hfault, he⟩)⟩
    · rintro ⟨hfault, hrest⟩ e (he | ⟨-, he⟩)
      · exact hfault e he
      · exact hrest e he

theorem firstFault_append {faults faults' : List (ε → Prop)} {e : ε} :
    FirstFault (faults ++ faults') e ↔
      FirstFault faults e ∨ Absent (FirstFault faults) ∧ FirstFault faults' e := by
  induction faults with
  | nil => simp [FirstFault, Absent]
  | cons fault faults ih =>
    have habsent : Absent (FirstFault (fault :: faults)) ↔
        Absent fault ∧ Absent (FirstFault faults) := by
      rw [absent_firstFault_iff, absent_firstFault_iff, List.forall_mem_cons]
    rw [habsent, List.cons_append]
    simp only [FirstFault, ih]
    tauto

theorem exists_of_bind_ok {x : Except ε α} {f : α → Except ε β} {b : β}
    (h : (x >>= f) = .ok b) : ∃ a, x = .ok a ∧ f a = .ok b := by
  cases x with
  | error e => cases h
  | ok a => exact ⟨a, rfl, h⟩

namespace Reports

variable {x : Except ε α} {f : α → Except ε β} {faults faults' : List (ε → Prop)}
  {fault fault' : ε → Prop}

theorem exists_ok_iff (h : Reports x faults) :
    (∃ a, x = .ok a) ↔ ∀ fault ∈ faults, Absent fault := by
  rw [← absent_firstFault_iff]
  cases x with
  | ok a => exact ⟨fun _ e he => (nomatch (h e).mpr he), fun _ => ⟨a, rfl⟩⟩
  | error e => exact ⟨fun ⟨_, ha⟩ => (nomatch ha), fun ha => absurd ((h e).mp rfl) (ha e)⟩

theorem absent_of_ok {a : α} (h : Reports x [fault]) (hx : x = .ok a) : Absent fault :=
  h.exists_ok_iff.mp ⟨a, hx⟩ fault (List.mem_singleton_self fault)

theorem of_ok (a : α) : Reports (.ok a : Except ε α) [] := fun _ => ⟨nofun, nofun⟩

theorem single (h : ∀ e, x = .error e ↔ fault e) : Reports x [fault] := by
  intro e
  simp [FirstFault, h e]

theorem bind (hx : Reports x faults) (hf : ∀ a, x = .ok a → Reports (f a) faults') :
    Reports (x >>= f) (faults ++ faults') := by
  intro e
  rw [firstFault_append]
  cases x with
  | error e' =>
    have he' := (hx e').mp rfl
    have hno : ¬Absent (FirstFault faults) := fun h => h e' he'
    rw [← hx e]
    constructor
    · intro h
      cases h
      exact .inl rfl
    · rintro (h | ⟨h, -⟩)
      · cases h
        rfl
      · exact absurd h hno
  | ok a =>
    have hnone : Absent (FirstFault faults) := fun e' he' => nomatch (hx e').mpr he'
    rw [show (Except.ok a >>= f) = f a from rfl, hf a rfl e]
    exact ⟨fun h => .inr ⟨hnone, h⟩, fun h => h.elim (fun h => absurd h (hnone e)) And.right⟩

theorem guard {p : Prop} [Decidable p] {y : Except ε α} {e₀ : ε}
    (hfault : ∀ e, fault e ↔ p ∧ e = e₀) (hy : ¬p → Reports y faults) :
    Reports (if p then .error e₀ else y) (fault :: faults) := by
  intro e
  by_cases hp : p
  · have hfound : ¬Absent fault := fun h => h e₀ ((hfault e₀).mpr ⟨hp, rfl⟩)
    rw [if_pos hp, FirstFault, hfault e]
    constructor
    · intro he
      cases he
      exact .inl ⟨hp, rfl⟩
    · rintro (⟨-, rfl⟩ | ⟨h, -⟩)
      · rfl
      · exact absurd h hfound
  · have hnone : Absent fault := fun e he => hp ((hfault e).mp he).1
    rw [if_neg hp, FirstFault, hy hp e]
    exact ⟨fun h => .inr ⟨hnone, h⟩, fun h => h.elim (fun h => absurd h (hnone e)) And.right⟩

theorem congr (h : Reports x (fault' :: faults)) (hfault : ∀ e, fault e ↔ fault' e) :
    Reports x (fault :: faults) := by
  rwa [show fault = fault' from funext fun e => propext (hfault e)]

end Reports

end Faults

/-! The faults of a configuration, and what each of them leaves when it is absent. -/

inductive ElementType.SizeFault (t : ElementType) (stated? : Option Nat) : ConfigError → Prop
  | intro {n : Nat} (stated : stated? = some n) (ne : n ≠ t.unitSize) :
    SizeFault t stated? (.unitSize t n t.unitSize)

inductive RatioFault (rateIn rateOut : Rate) : ConfigError → Prop
  | intro (ndvd : ¬rateIn.hz ∣ rateOut.hz) (ndvd' : ¬rateOut.hz ∣ rateIn.hz) :
    RatioFault rateIn rateOut (.nonIntegerRatio rateIn.hz rateOut.hz)

inductive Config.QualityFault (c : Config) : ConfigError → Prop
  | intro (lt : 3 < c.quality) : QualityFault c (.unsupportedQuality c.quality c.direction)

theorem ElementType.absent_sizeFault_iff {t : ElementType} {stated? : Option Nat} :
    Absent (t.SizeFault stated?) ↔ ∀ n, stated? = some n → n = t.unitSize := by
  constructor
  · intro h n hn
    by_contra hne
    exact h _ ⟨hn, hne⟩
  · rintro h _ ⟨hn, hne⟩
    exact hne (h _ hn)

theorem ElementType.absent_sizeFault_or {t : ElementType} {stated? stated'? : Option Nat}
    (h : Absent (t.SizeFault stated?)) (h' : Absent (t.SizeFault stated'?)) :
    Absent (t.SizeFault (stated?.or stated'?)) := by
  cases stated? with
  | none => exact h'
  | some n => exact h

theorem absent_ratioFault_iff {rateIn rateOut : Rate} :
    Absent (RatioFault rateIn rateOut) ↔
      rateIn.hz ∣ rateOut.hz ∨ rateOut.hz ∣ rateIn.hz := by
  constructor
  · intro h
    by_contra hno
    exact h _ ⟨fun hd => hno (.inl hd), fun hd => hno (.inr hd)⟩
  · rintro h _ ⟨hno, hno'⟩
    exact h.elim hno hno'

theorem Config.absent_qualityFault_iff {c : Config} :
    Absent c.QualityFault ↔ c.quality ≤ 3 := by
  constructor
  · intro h
    by_contra hlt
    exact h _ ⟨by omega⟩
  · rintro h _ ⟨hlt⟩
    omega

/-! The checks of a configuration. -/

theorem div_gcd_eq_one_iff {m n : Nat} (hm : 0 < m) : m / Nat.gcd m n = 1 ↔ m ∣ n := by
  have hdvd := Nat.gcd_dvd_left m n
  rw [Nat.div_eq_iff_eq_mul_left (Nat.gcd_pos_of_pos_left n hm) hdvd, one_mul, eq_comm,
    Nat.gcd_eq_left_iff_dvd]

theorem Interpolation.ofQuality?_eq_none_iff {n : Nat} : ofQuality? n = none ↔ 3 < n := by
  match n with
  | 0 | 1 | 2 | 3 => simp [ofQuality?]
  | n + 4 => simp [ofQuality?]

theorem Decimation.ofQuality?_eq_none_iff {n : Nat} : ofQuality? n = none ↔ 3 < n := by
  match n with
  | 0 | 1 | 2 | 3 => simp [ofQuality?]
  | n + 4 => simp [ofQuality?]

theorem Interpolation.quality_of_ofQuality? {n : Nat} {i : Interpolation}
    (h : ofQuality? n = some i) : i.quality = n := by
  match n with
  | 0 | 1 | 2 | 3 => cases h; rfl
  | n + 4 => cases h

theorem Decimation.quality_of_ofQuality? {n : Nat} {d : Decimation}
    (h : ofQuality? n = some d) : d.quality = n := by
  match n with
  | 0 | 1 | 2 | 3 => cases h; rfl
  | n + 4 => cases h

namespace Config

theorem checkUnitSize_reports (c : Config) :
    Reports c.checkUnitSize [c.type.SizeFault c.unitSize?] := by
  apply Reports.single
  intro e
  simp only [checkUnitSize]
  constructor
  · intro h
    split at h
    · rename_i n hn
      split at h <;> cases h
      exact ⟨hn, ‹_›⟩
    · cases h
  · rintro ⟨hn, hne⟩
    rw [hn]
    exact if_neg hne

theorem ratio_reduced_iff (c : Config) :
    (c.ratio.1 ≠ 1 ∧ c.ratio.2 ≠ 1) ↔
      ¬c.rateIn.hz ∣ c.rateOut.hz ∧ ¬c.rateOut.hz ∣ c.rateIn.hz := by
  have hout : c.ratio.1 = 1 ↔ _ := div_gcd_eq_one_iff c.rateOut.pos
  have hin : c.ratio.2 = 1 ↔ c.rateIn.hz ∣ c.rateOut.hz := by
    simp only [ratio]
    rw [Nat.gcd_comm]
    exact div_gcd_eq_one_iff c.rateIn.pos
  rw [ne_eq, ne_eq, hout, hin]
  exact and_comm

theorem resolve_reports (c : Config) (num den : Nat) :
    Reports (c.resolve num den) [c.QualityFault] := by
  apply Reports.single
  intro e
  constructor
  · intro h
    obtain rfl := eq_badQuality_of_resolve h
    refine .intro ?_
    by_contra hle
    simp only [resolve] at h
    split at h
    · rw [if_pos (show c.quality ≤ maxQuality by unfold maxQuality; omega)] at h
      cases h
    · split at h
      · cases h
      · rename_i hnone
        exact hle (Interpolation.ofQuality?_eq_none_iff.mp hnone)
    · split at h
      · cases h
      · rename_i hnone
        exact hle (Decimation.ofQuality?_eq_none_iff.mp hnone)
  · rintro ⟨hlt⟩
    have hmax : ¬c.quality ≤ maxQuality := by unfold maxQuality; omega
    simp only [resolve, if_neg hmax, Interpolation.ofQuality?_eq_none_iff.mpr hlt,
      Decimation.ofQuality?_eq_none_iff.mpr hlt]
    split <;> rfl

theorem conversion_reports (c : Config) :
    Reports c.conversion
      [c.type.SizeFault c.unitSize?, RatioFault c.rateIn c.rateOut, c.QualityFault] := by
  refine c.checkUnitSize_reports.bind fun _ _ => ?_
  refine Reports.guard (fun e => ?_) fun _ => c.resolve_reports _ _
  change RatioFault c.rateIn c.rateOut e ↔ (c.ratio.1 ≠ 1 ∧ c.ratio.2 ≠ 1) ∧ e = _
  rw [c.ratio_reduced_iff]
  constructor
  · rintro ⟨hin, hout⟩
    exact ⟨⟨hin, hout⟩, rfl⟩
  · rintro ⟨⟨hin, hout⟩, rfl⟩
    exact ⟨hin, hout⟩

theorem resolve_of_conversion {c : Config} {k : Conversion} (h : c.conversion = .ok k) :
    ∃ num den, c.resolve num den = .ok k := by
  obtain ⟨_, -, h⟩ := exists_of_bind_ok h
  dsimp only at h
  split at h
  · cases h
  · exact ⟨_, _, h⟩

theorem exists_conversion_iff {c : Config} :
    (∃ k, c.conversion = .ok k) ↔
      (∀ n, c.unitSize? = some n → n = c.type.unitSize) ∧
        (c.rateIn.hz ∣ c.rateOut.hz ∨ c.rateOut.hz ∣ c.rateIn.hz) ∧ c.quality ≤ 3 := by
  rw [c.conversion_reports.exists_ok_iff, List.forall_mem_cons, List.forall_mem_cons,
    List.forall_mem_singleton, ElementType.absent_sizeFault_iff, absent_ratioFault_iff,
    absent_qualityFault_iff]

inductive Selects (c : Config) : Conversion → Prop
  | copy (eq : c.rateIn.hz = c.rateOut.hz) : Selects c .copy
  | up {factor : Nat} {i : Interpolation} (lt : c.rateIn.hz < c.rateOut.hz) (two_le : 2 ≤ factor)
    (mul : factor * c.rateIn.hz = c.rateOut.hz) (quality : i.quality = c.quality) :
    Selects c (.up factor i)
  | down {factor : Nat} {d : Decimation} (lt : c.rateOut.hz < c.rateIn.hz) (two_le : 2 ≤ factor)
    (mul : factor * c.rateOut.hz = c.rateIn.hz) (quality : d.quality = c.quality) :
    Selects c (.down factor d c.zeroLatency)

theorem selects_of_conversion {c : Config} {k : Conversion} (h : c.conversion = .ok k) :
    c.Selects k := by
  have hrel := conversion_relates h
  obtain ⟨num, den, hk⟩ := resolve_of_conversion h
  simp only [resolve] at hk
  split at hk
  · split at hk <;> cases hk
    exact .copy hrel.symm
  · rename_i hdir
    split at hk <;> cases hk
    rename_i hi
    exact .up (rateIn_lt_of_upsampling hdir) hrel.1 hrel.2.symm
      (Interpolation.quality_of_ofQuality? hi)
  · rename_i hdir
    split at hk <;> cases hk
    rename_i hd
    exact .down (rateOut_lt_of_downsampling hdir) hrel.1 hrel.2.symm
      (Decimation.quality_of_ofQuality? hd)

end Config

/-! The faults of two stream descriptions. Those of the unit size and of the ratio are about
the types and rates that the descriptions have; those of what is missing come before them. -/

namespace Caps

def HasRate (c : Caps) (r : Rate) : Prop := c.rate?.map UInt32.toNat = some r.hz

inductive RateFault (c : Caps) : ConfigError → Prop
  | missing (stated : c.rate? = none) : RateFault c .missingRate
  | zero (stated : c.rate? = some 0) : RateFault c .zeroRate

def RatioFault (c c' : Caps) (e : ConfigError) : Prop :=
  ∃ r r', c.HasRate r ∧ c'.HasRate r' ∧ RateConversion.RatioFault r r' e

variable {c c' : Caps}

theorem rate_eq_ok_iff {r : Rate} : c.rate = .ok r ↔ c.HasRate r := by
  obtain ⟨rate?, _, _⟩ := c
  obtain ⟨hz, hpos, hlt⟩ := r
  simp only [rate, HasRate]
  cases rate? with
  | none => simp
  | some w =>
    by_cases hw : 0 < w.toNat
    · simp [Rate.ofWord?, hw]
    · have : w.toNat ≠ hz := by omega
      simp [Rate.ofWord?, hw, this]

theorem rate_reports (c : Caps) : Reports c.rate [c.RateFault] := by
  apply Reports.single
  intro e
  simp only [rate]
  constructor
  · intro h
    split at h
    · cases h
      exact .missing ‹_›
    · rename_i w hw
      split at h <;> cases h
      rename_i hnone
      have hzero : ¬0 < w.toNat := by
        intro hpos
        simp [Rate.ofWord?, hpos] at hnone
      obtain rfl : w = 0 := UInt32.toNat_inj.mp (Nat.eq_zero_of_not_pos hzero)
      exact .zero hw
  · rintro (hno | hzero)
    · rw [hno]
    · rw [hzero]
      rfl

theorem HasRate.unique {r r' : Rate} (h : c.HasRate r) (h' : c.HasRate r') : r = r' :=
  Except.ok.inj ((rate_eq_ok_iff.mpr h).symm.trans (rate_eq_ok_iff.mpr h'))

theorem absent_rateFault_iff : Absent c.RateFault ↔ ∃ r, c.HasRate r := by
  rw [← List.forall_mem_singleton (p := Absent), ← c.rate_reports.exists_ok_iff]
  simp only [rate_eq_ok_iff]

theorem HasRate.ratioFault_iff {r r' : Rate} (h : c.HasRate r) (h' : c'.HasRate r')
    (e : ConfigError) : c.RatioFault c' e ↔ RateConversion.RatioFault r r' e := by
  constructor
  · rintro ⟨s, s', hs, hs', he⟩
    obtain rfl := hs.unique h
    obtain rfl := hs'.unique h'
    exact he
  · exact fun he => ⟨r, r', h, h', he⟩

end Caps

namespace Config

theorem declare_reports (c : Config) (stated? : Option Nat) :
    Reports (c.declare stated?) [c.type.SizeFault stated?] := by
  cases stated? with
  | none =>
    refine .single fun e => ⟨nofun, ?_⟩
    rintro ⟨hn, -⟩
    cases hn
  | some n =>
    exact (checkUnitSize_reports { c with unitSize? := some n }).bind fun _ _ => .of_ok _

theorem declare_eq_ok {c c' : Config} {stated? : Option Nat} (h : c.declare stated? = .ok c') :
    c' = { c with unitSize? := stated?.or c.unitSize? } := by
  cases stated? with
  | none =>
    cases h
    rfl
  | some n =>
    obtain ⟨_, -, h⟩ := exists_of_bind_ok h
    cases h
    rfl

end Config

section Target

variable [Target]

theorem ElementType.ofFormat?_eq_some_iff {text : String} {t : ElementType} :
    ofFormat? text = some t ↔ t.format = text := by
  constructor
  · intro h
    simpa using List.find?_some h
  · rintro rfl
    exact ofFormat?_format t

theorem ElementType.ofFormat?_eq_none_iff {text : String} :
    ofFormat? text = none ↔ ∀ t : ElementType, t.format ≠ text := by
  rw [Option.eq_none_iff_forall_ne_some]
  exact forall_congr' fun t => not_congr ofFormat?_eq_some_iff

namespace Caps

def HasType (c : Caps) (t : ElementType) : Prop := c.format? = some t.format

inductive TypeFault (c : Caps) : ConfigError → Prop
  | missing (stated : c.format? = none) : TypeFault c .missingFormat
  | unsupported {text : String} (stated : c.format? = some text)
    (ne : ∀ t : ElementType, t.format ≠ text) : TypeFault c (.unsupportedFormat text)

inductive MismatchFault (c c' : Caps) : ConfigError → Prop
  | intro {t t' : ElementType} (type : c.HasType t) (type' : c'.HasType t') (ne : t ≠ t') :
    MismatchFault c c' (.formatMismatch t t')

def SizeFault (c : Caps) (e : ConfigError) : Prop :=
  ∃ t, c.HasType t ∧ t.SizeFault c.unitSize? e

variable {c c' : Caps}

theorem type_eq_ok_iff {t : ElementType} : c.type = .ok t ↔ c.HasType t := by
  obtain ⟨_, format?, _⟩ := c
  simp only [type, HasType]
  cases format? with
  | none => simp
  | some text =>
    rw [Option.some_inj, eq_comm (a := text), ← ElementType.ofFormat?_eq_some_iff]
    simp only [ElementType.ofFormat]
    cases ElementType.ofFormat? text <;> simp

theorem type_reports (c : Caps) : Reports c.type [c.TypeFault] := by
  apply Reports.single
  intro e
  simp only [type]
  constructor
  · intro h
    split at h
    · cases h
      exact .missing ‹_›
    · rename_i text htext
      simp only [ElementType.ofFormat] at h
      split at h <;> cases h
      rename_i hnone
      exact .unsupported htext (ElementType.ofFormat?_eq_none_iff.mp hnone)
  · rintro (hno | ⟨htext, hne⟩)
    · rw [hno]
    · rw [htext]
      dsimp only
      rw [ElementType.ofFormat, ElementType.ofFormat?_eq_none_iff.mpr hne]

theorem HasType.unique {t t' : ElementType} (h : c.HasType t) (h' : c.HasType t') : t = t' :=
  Except.ok.inj ((type_eq_ok_iff.mpr h).symm.trans (type_eq_ok_iff.mpr h'))

theorem absent_typeFault_iff : Absent c.TypeFault ↔ ∃ t, c.HasType t := by
  rw [← List.forall_mem_singleton (p := Absent), ← c.type_reports.exists_ok_iff]
  simp only [type_eq_ok_iff]

theorem HasType.mismatchFault_iff {t t' : ElementType} (h : c.HasType t) (h' : c'.HasType t')
    (e : ConfigError) : MismatchFault c c' e ↔ t ≠ t' ∧ e = .formatMismatch t t' := by
  constructor
  · rintro ⟨ht, ht', hne⟩
    obtain rfl := ht.unique h
    obtain rfl := ht'.unique h'
    exact ⟨hne, rfl⟩
  · rintro ⟨hne, rfl⟩
    exact ⟨h, h', hne⟩

theorem HasType.sizeFault_iff {t : ElementType} (h : c.HasType t) (e : ConfigError) :
    c.SizeFault e ↔ t.SizeFault c.unitSize? e := by
  constructor
  · rintro ⟨t', ht', he⟩
    obtain rfl := ht'.unique h
    exact he
  · exact fun he => ⟨t, h, he⟩

end Caps

namespace Config

theorem ofCaps_reports (input output : Caps) :
    Reports (ofCaps input output)
      [input.RateFault, output.RateFault, input.TypeFault, output.TypeFault,
        input.MismatchFault output, input.SizeFault, output.SizeFault,
        input.RatioFault output] := by
  refine input.rate_reports.bind fun rateIn hin => ?_
  refine output.rate_reports.bind fun rateOut hout => ?_
  refine input.type_reports.bind fun t ht => ?_
  refine output.type_reports.bind fun t' ht' => ?_
  rw [Caps.rate_eq_ok_iff] at hin hout
  rw [Caps.type_eq_ok_iff] at ht ht'
  refine .guard (ht.mismatchFault_iff ht') fun heq => ?_
  obtain rfl : t = t' := not_not.mp heq
  refine ((declare_reports _ _).congr ht.sizeFault_iff).bind fun c hc => ?_
  obtain rfl := declare_eq_ok hc
  refine ((declare_reports _ _).congr ht'.sizeFault_iff).bind fun c hc' => ?_
  obtain rfl := declare_eq_ok hc'
  -- The sizes have been checked and the quality is 0, so only the ratio is left to fail.
  have hin_size : Absent (t.SizeFault input.unitSize?) := (declare_reports _ _).absent_of_ok hc
  have hout_size : Absent (t.SizeFault output.unitSize?) := (declare_reports _ _).absent_of_ok hc'
  have hsize : Absent (t.SizeFault (output.unitSize?.or (input.unitSize?.or none))) := by
    rw [Option.or_none]
    exact ElementType.absent_sizeFault_or hout_size hin_size
  intro e
  rw [(conversion_reports _).bind (fun _ _ => .of_ok _) e, FirstFault,
    hin.ratioFault_iff hout]
  constructor
  · rintro (he | ⟨-, he | ⟨-, he | ⟨-, he⟩⟩⟩)
    · exact absurd he (hsize e)
    · exact .inl he
    · exact absurd he (absent_qualityFault_iff.mpr (Nat.zero_le 3) e)
    · exact he.elim
  · rintro (he | ⟨-, he⟩)
    · exact .inr ⟨hsize, .inl he⟩
    · exact he.elim

/-- What two descriptions agree on: the rate of each, their type, and the unit size that was
stated last. -/
structure AgreedBy (input output : Caps) (c : Config) : Prop where
  rateIn : input.HasRate c.rateIn
  rateOut : output.HasRate c.rateOut
  typeIn : input.HasType c.type
  typeOut : output.HasType c.type
  quality : c.quality = 0
  zeroLatency : c.zeroLatency = false
  unitSize : c.unitSize? = output.unitSize?.or input.unitSize?

theorem agreedBy_of_ofCaps {input output : Caps} {c : Config}
    (h : ofCaps input output = .ok c) : AgreedBy input output c := by
  obtain ⟨rateIn, hin, h⟩ := exists_of_bind_ok h
  obtain ⟨rateOut, hout, h⟩ := exists_of_bind_ok h
  obtain ⟨t, ht, h⟩ := exists_of_bind_ok h
  obtain ⟨t', ht', h⟩ := exists_of_bind_ok h
  split at h
  · cases h
  · rename_i heq
    obtain rfl : t = t' := not_not.mp heq
    obtain ⟨c', hc', h⟩ := exists_of_bind_ok h
    obtain ⟨c'', hc'', h⟩ := exists_of_bind_ok h
    obtain ⟨_, -, h⟩ := exists_of_bind_ok h
    obtain rfl := declare_eq_ok hc'
    obtain rfl := declare_eq_ok hc''
    cases h
    exact
      { rateIn := Caps.rate_eq_ok_iff.mp hin
        rateOut := Caps.rate_eq_ok_iff.mp hout
        typeIn := Caps.type_eq_ok_iff.mp ht
        typeOut := Caps.type_eq_ok_iff.mp ht'
        quality := rfl
        zeroLatency := rfl
        unitSize := by rw [Option.or_none] }

end Config

structure Caps.Describes (c : Caps) (r : Rate) (t : ElementType) : Prop where
  rate : c.HasRate r
  type : c.HasType t
  unitSize : ∀ n, c.unitSize? = some n → n = t.unitSize

namespace Config

theorem exists_ofCaps_iff {input output : Caps} :
    (∃ c, ofCaps input output = .ok c) ↔
      ∃ rateIn rateOut t, input.Describes rateIn t ∧ output.Describes rateOut t ∧
        (rateIn.hz ∣ rateOut.hz ∨ rateOut.hz ∣ rateIn.hz) := by
  rw [(ofCaps_reports input output).exists_ok_iff]
  simp only [List.forall_mem_cons, List.not_mem_nil, IsEmpty.forall_iff, implies_true, and_true,
    Caps.absent_rateFault_iff, Caps.absent_typeFault_iff]
  constructor
  · rintro ⟨⟨rateIn, hin⟩, ⟨rateOut, hout⟩, ⟨t, ht⟩, ⟨t', ht'⟩, hmatch, hsize, hsize', hratio⟩
    obtain rfl : t = t' := by
      by_contra hne
      exact hmatch _ ⟨ht, ht', hne⟩
    refine ⟨rateIn, rateOut, t, ⟨hin, ht, ?_⟩, ⟨hout, ht', ?_⟩, ?_⟩
    · exact ElementType.absent_sizeFault_iff.mp fun e he => hsize e ⟨t, ht, he⟩
    · exact ElementType.absent_sizeFault_iff.mp fun e he => hsize' e ⟨t, ht', he⟩
    · exact absent_ratioFault_iff.mp fun e he => hratio e ⟨_, _, hin, hout, he⟩
  · rintro ⟨rateIn, rateOut, t, ⟨hin, ht, hsize⟩, ⟨hout, ht', hsize'⟩, hratio⟩
    rw [← ElementType.absent_sizeFault_iff] at hsize hsize'
    rw [← absent_ratioFault_iff] at hratio
    refine ⟨⟨_, hin⟩, ⟨_, hout⟩, ⟨_, ht⟩, ⟨_, ht'⟩, fun e he => ?_, fun e he => ?_, fun e he => ?_,
      fun e he => ?_⟩
    · exact ((ht.mismatchFault_iff ht' e).mp he).1 rfl
    · exact hsize e ((ht.sizeFault_iff e).mp he)
    · exact hsize' e ((ht'.sizeFault_iff e).mp he)
    · exact hratio e ((hin.ratioFault_iff hout e).mp he)

/-- A configuration has a conversion exactly when it is valid, and the conversion is the one
that the exact ratio of its rates and its quality select. Two descriptions have a configuration
exactly when they are whole, of one type, and their rates are a whole multiple apart. What is
refused is refused for the first fault there is. -/
theorem accepts_exactly :
    (∀ c : Config,
      ((∃ k, c.conversion = .ok k) ↔
        (∀ n, c.unitSize? = some n → n = c.type.unitSize) ∧
          (c.rateIn.hz ∣ c.rateOut.hz ∨ c.rateOut.hz ∣ c.rateIn.hz) ∧ c.quality ≤ 3) ∧
      (∀ k, c.conversion = .ok k → c.Selects k) ∧
      ∀ e, c.conversion = .error e ↔
        FirstFault
          [c.type.SizeFault c.unitSize?, RatioFault c.rateIn c.rateOut, c.QualityFault] e) ∧
    ∀ input output : Caps,
      ((∃ c, ofCaps input output = .ok c) ↔
        ∃ rateIn rateOut t, input.Describes rateIn t ∧ output.Describes rateOut t ∧
          (rateIn.hz ∣ rateOut.hz ∨ rateOut.hz ∣ rateIn.hz)) ∧
      (∀ c, ofCaps input output = .ok c → AgreedBy input output c) ∧
      ∀ e, ofCaps input output = .error e ↔
        FirstFault
          [input.RateFault, output.RateFault, input.TypeFault, output.TypeFault,
            input.MismatchFault output, input.SizeFault, output.SizeFault,
            input.RatioFault output] e := by
  refine ⟨fun c => ⟨?_, fun k => selects_of_conversion, c.conversion_reports⟩,
    fun input output =>
      ⟨exists_ofCaps_iff, fun c => agreedBy_of_ofCaps, ofCaps_reports input output⟩⟩
  exact exists_conversion_iff

end Config

end Target

/-! Of three faults the first is reported. -/

example :
    Config.conversion
        { rateIn := .two, rateOut := .three, type := .f64, quality := 4, unitSize? := some 4 } =
      .error (.unitSize .f64 4 8) := by
  decide

end RateConversion
