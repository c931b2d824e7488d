import NervesSystem.HpfLimiter

namespace NervesSystem.HpfLimiter
open SecondOrder Libm

section Loop
variable {K : Type*} [Field K]

/-- The sections have the coefficients `c` and the taps `t`. -/
structure Follows (bq : Section → Biquad K) (c : Section → Coeffs K) (t : Section → Taps K) :
    Prop where
  coeffs : ∀ s, (bq s).toCoeffs = c s
  taps : ∀ s, (bq s).toTaps = t s

variable {bq : Section → Biquad K} {c : Section → Coeffs K} {t : Section → Taps K} {v : K}
  {s : Section}

theorem filterStep_out (h : Follows bq c t) : (filterStep (bq, v) s).2 = (c s).out (t s) v := by
  rw [← h.coeffs, ← h.taps]
  rfl

theorem filterStep_follows (h : Follows bq c t) : Follows (filterStep (bq, v) s).1 c
    (Function.update t s ((t s).push v ((c s).out (t s) v))) := by
  rw [← filterStep_out h]
  refine ⟨fun s' => ?_, fun s' => ?_⟩ <;> rcases eq_or_ne s' s with rfl | hs
  · simpa only [filterStep, Function.update_self] using h.coeffs s'
  · simpa only [filterStep, Function.update_of_ne hs] using h.coeffs s'
  · simp only [filterStep, Function.update_self, ← h.taps, Taps.push]
  · simpa only [filterStep, Function.update_of_ne hs] using h.taps s'

/-- The loop over the sections is the series of them. -/
theorem foldl_filterStep (h : Follows bq c t) (l : List Section) :
    (l.foldl filterStep (bq, v)).2 = (series c l t v).2 ∧
      Follows (l.foldl filterStep (bq, v)).1 c (series c l t v).1 := by
  induction l generalizing bq t v with
  | nil => exact ⟨rfl, h⟩
  | cons s l ih =>
    rw [List.foldl_cons, ← Prod.mk.eta (p := filterStep (bq, v) s), filterStep_out h]
    exact ih (filterStep_follows h)

end Loop

section Given
variable {K : Type*}

theorem block_zero (mem : Mem K) (a : Option ℕ) : block mem 0 a = [] := by
  cases a <;> rfl

/-- The first samples of a block, all under the controls that it started with. -/
def given (ctl : Controls K) (mem : Mem K) (inp k : ℕ) : List (Controls K × K) :=
  (block mem k (some inp)).map fun v => (ctl, v)

theorem given_succ {ctl : Controls K} {mem : Mem K} {inp k : ℕ} :
    given ctl mem inp (k + 1) = given ctl mem inp k ++ [(ctl, mem (inp + k))] := by
  simp only [given, block, List.range_succ, List.map_append, List.map_cons, List.map_nil]

end Given

section Clamp
variable {K : Type*} [Field K] [LinearOrder K]

/-- What has been clamped stays as it is, also where the clamp from above undercuts the one from
below. -/
theorem Bands.clamp_clamp (sr : K) (b : Bands K) : (b.clamp sr).clamp sr = b.clamp sr := by
  have hcut : min (max (min (max b.cut 20) (sr * 0.45)) 20) (sr * 0.45) =
      min (max b.cut 20) (sr * 0.45) := by
    rcases le_total (max b.cut 20) (sr * 0.45) with h | h
    · rw [min_eq_left h, max_eq_left (le_max_right _ _), min_eq_left h]
    · rw [min_eq_right h, min_eq_right (le_max_left _ _)]
  simp only [clamp, hcut, min_assoc, min_self, max_assoc, max_self]

theorem controlsMoved_eq_false {p : Plugin K} {mem : Mem K} :
    controlsMoved p mem = false ↔ p.primed = true ∧ (controls p mem).toBands = p.cache := by
  simp only [controlsMoved, Bool.or_eq_false_iff, Bool.not_eq_false', decide_eq_false_iff_not,
    not_not, Bands.ext_iff, controls, and_assoc]

end Clamp

variable {K : Type*} [Field K] [LinearOrder K] [Libm K]

section Reference

/-- The taps that the reference ends with. -/
def settled (l : List Section) (sr : K) : (Section → Taps K) → List (Controls K × K) →
    Section → Taps K
  | t, [] => t
  | t, (c, v) :: stream => settled l sr (series (c.coeffs sr) l t v).1 stream

variable {l : List Section} {sr : K} {t : Section → Taps K} {s s' : List (Controls K × K)}

theorem settled_append : settled l sr t (s ++ s') = settled l sr (settled l sr t s) s' := by
  induction s generalizing t with
  | nil => rfl
  | cons cv s ih => exact ih

theorem reference_append :
    reference l sr t (s ++ s') = reference l sr t s ++ reference l sr (settled l sr t s) s' := by
  induction s generalizing t with
  | nil => rfl
  | cons cv s ih => exact congrArg _ ih

end Reference

section Cache
variable {p : Plugin K} {mem : Mem K}

theorem Bands.coeffs_clamp (sr : K) (b : Bands K) : (b.clamp sr).coeffs sr = b.coeffs sr := by
  funext s
  simp only [coeffs, clamp_clamp]

/-- The instance with its coefficients fresh from the controls. -/
def retuned (p : Plugin K) (mem : Mem K) : Plugin K :=
  { p with
    bq := fun s => { p.bq s with toCoeffs := (controls p mem).coeffs p.sr s }
    cache := (controls p mem).clamp p.sr
    primed := true }

theorem recompute_eq : recompute p mem = retuned p mem := by
  have hmin (x n : K) : (if x > n then n else x) = min x n := by rw [min_comm, min_def_lt]
  simp only [recompute, retuned, hmin, ← max_def_lt]
  congr 1
  funext s
  cases s <;> rfl

/-- The cache holds clamped controls and the sections have their coefficients. -/
structure Tuned (p : Plugin K) : Prop where
  clamped : p.cache.clamp p.sr = p.cache
  coeffs : ∀ s, (p.bq s).toCoeffs = p.cache.coeffs p.sr s

/-- What `run` makes of the instance before its loop. -/
def refresh (p : Plugin K) (mem : Mem K) : Plugin K :=
  if controlsMoved p mem then recompute p mem else p

/-- A cache that is in step makes no difference. -/
theorem refresh_eq (mem : Mem K) (h : p.primed = true → Tuned p) :
    refresh p mem = retuned p mem := by
  cases hm : controlsMoved p mem with
  | true => rw [refresh, hm, if_pos rfl, recompute_eq]
  | false =>
    -- Controls that equal the cache are as clamped as the cache is.
    obtain ⟨hp, hc⟩ := controlsMoved_eq_false.mp hm
    have ht := h hp
    rw [refresh, hm, if_neg Bool.false_ne_true]
    simp only [retuned, hc, ht.clamped, ← ht.coeffs]
    rw [← hp]

end Cache

section Block
variable {ctl : Controls K} {t : Section → Taps K} {p : Plugin K} {mem : Mem K}
  {inp out n k : ℕ}

/-- The limiter as `run` prepares it. -/
def ceilOf (ctl : Controls K) : K :=
  let ceil := if ctl.ceil < 0.05 then 0.05 else ctl.ceil
  if ceil > 1 then 1 else ceil

theorem limit_eq (v : K) :
    ceilOf ctl * tanh (v * ctl.gain * (1 / ceilOf ctl)) = ctl.limit v := by
  have hceil : ceilOf ctl = min (max ctl.ceil 0.05) 1 := by
    rw [ceilOf, ← max_def_lt, min_comm, min_def_lt]
  rw [Controls.limit, hceil, mul_one_div]

/-- The loop body of `run` under the controls `ctl`. -/
def turn (ctl : Controls K) (inp out : ℕ) : Plugin K × Mem K → ℕ → Plugin K × Mem K :=
  sample inp out ctl.gain (ceilOf ctl) (1 / ceilOf ctl)

/-- After `k` samples of a block of `n`: the sections are where the reference is, the samples to
come are untouched, and the buffer holds what the reference puts out. -/
structure Progress (ctl : Controls K) (t : Section → Taps K) (p : Plugin K) (mem : Mem K)
    (inp out n k : ℕ) (pm : Plugin K × Mem K) : Prop where
  plugin : pm.1 = { p with bq := pm.1.bq }
  follows : Follows pm.1.bq (ctl.coeffs p.sr) (settled sections p.sr t (given ctl mem inp k))
  ahead : ∀ i, k ≤ i → i < n → pm.2 (inp + i) = mem (inp + i)
  output : block pm.2 k (some out) = reference sections p.sr t (given ctl mem inp k)

/-- The buffers are one or have no cell in common. -/
def Apart (inp out n : ℕ) : Prop := inp = out ∨ inp + n ≤ out ∨ out + n ≤ inp

theorem Progress.turn {pm : Plugin K × Mem K} (h : Progress ctl t p mem inp out n k pm)
    (hk : k < n) (ha : Apart inp out n) :
    Progress ctl t p mem inp out n (k + 1) (turn ctl inp out pm k) := by
  obtain ⟨hv, hf⟩ := foldl_filterStep (v := pm.2 (inp + k)) h.follows sections
  rw [h.ahead k le_rfl hk] at hv hf
  -- The sample that goes out is the one the reference adds.
  have hout : ceilOf ctl * tanh ((sections.foldl filterStep (pm.1.bq, mem (inp + k))).2 *
      ctl.gain * (1 / ceilOf ctl)) = ctl.limit (series (ctl.coeffs p.sr) sections
        (settled sections p.sr t (given ctl mem inp k)) (mem (inp + k))).2 := by
    rw [limit_eq, hv]
  constructor
  · exact congrArg (fun q : Plugin K => { q with
      bq := (sections.foldl filterStep (pm.1.bq, pm.2 (inp + k))).1 }) h.plugin
  · rw [given_succ, settled_append]
    simpa only [HpfLimiter.turn, sample, h.ahead k le_rfl hk, settled] using hf
  · intro i hi hn
    have hne : inp + i ≠ out + k := by
      rcases ha with rfl | ha | ha <;> omega
    simp only [HpfLimiter.turn, sample, Function.update_of_ne hne, h.ahead i (by omega) hn]
  · rw [given_succ, reference_append, ← h.output]
    simp only [block, List.range_succ, List.map_append, List.map_cons, List.map_nil, reference,
      HpfLimiter.turn, sample, Function.update_self, h.ahead k le_rfl hk, hout]
    congr 1
    apply List.map_congr_left
    intro i hi
    have hne : out + i ≠ out + k := by
      have := List.mem_range.mp hi
      omega
    rw [Function.update_of_ne hne]

theorem progress (mem : Mem K) (hf : Follows p.bq (ctl.coeffs p.sr) t) (ha : Apart inp out n)
    (hk : k ≤ n) :
    Progress ctl t p mem inp out n k ((List.range k).foldl (turn ctl inp out) (p, mem)) := by
  induction k with
  | zero => exact ⟨rfl, hf, fun i _ _ => rfl, rfl⟩
  | succ k ih =>
    rw [List.range_succ, List.foldl_append]
    exact (ih (Nat.le_of_succ_le hk)).turn hk ha

end Block

section Session

/-- Audio ports are connected when there are samples, in a way the plugin can work with. -/
def Sane (h : Host K) : Call K → Prop
  | .run n => n = 0 ∨ ∃ inp out, h.plugin.port .input = some inp ∧
      h.plugin.port .output = some out ∧ Apart inp out n
  | _ => True

/-- A session whose every call is sane when it is made. -/
def Proper (sr : ℕ) (mem : Mem K) (calls : List (Call K)) : Prop :=
  Trace.Guarded step (fun h c => ∀ s, h = some s → Sane s c) (some (.new sr mem)) calls

/-- The instance stands where the reference stands after what was played. -/
structure Faithful (sr : K) (h : Host K) : Prop where
  rate : h.plugin.sr = sr
  tuned : h.plugin.primed = true → Tuned h.plugin
  taps : ∀ s, (h.plugin.bq s).toTaps = settled sections sr 0 h.played s
  heard : h.heard = reference sections sr 0 h.played

variable {sr : K} {h : Host K} {p : Plugin K} {b : Bands K} {n : ℕ}

theorem tuned_of_clamp (hc : p.cache = b.clamp p.sr)
    (hb : ∀ s, (p.bq s).toCoeffs = b.coeffs p.sr s) : Tuned p := by
  constructor
  · rw [hc, Bands.clamp_clamp]
  · simpa only [hc, Bands.coeffs_clamp] using hb

theorem Faithful.new (sr : ℕ) (mem : Mem K) : Faithful (sr : K) (.new sr mem) where
  rate := rfl
  tuned := fun hp => by cases hp
  taps := fun _ => rfl
  heard := rfl

theorem Faithful.connectPort (hf : Faithful sr h) (port : ℕ) (data : Option ℕ) :
    Faithful sr { h with plugin := connectPort h.plugin port data } := by
  unfold HpfLimiter.connectPort
  split
  · exact ⟨hf.rate, fun hp => ⟨(hf.tuned hp).clamped, (hf.tuned hp).coeffs⟩, hf.taps, hf.heard⟩
  · exact hf

/-- Whatever was played before is forgotten. -/
theorem Faithful.activate (hf : Faithful sr h) :
    Faithful sr { h with plugin := activate h.plugin, played := [], heard := [] } where
  rate := hf.rate
  tuned := fun hp => by cases hp
  taps := fun _ => rfl
  heard := rfl

theorem run_eq {inp out : ℕ} {mem : Mem K} (hi : p.port .input = some inp)
    (ho : p.port .output = some out) (hn : n ≠ 0) : run p mem n =
      some ((List.range n).foldl (turn (controls p mem) inp out) (refresh p mem, mem)) := by
  simp only [HpfLimiter.run, if_neg hn, hi, ho]
  rfl

theorem Faithful.run (hf : Faithful sr h) (hn : Sane h (.run n)) :
    ∃ h', call h (.run n) = some h' ∧ Faithful sr h' := by
  obtain rfl := hf.rate
  have hre := refresh_eq h.mem hf.tuned
  set p := refresh h.plugin h.mem
  set ctl := controls h.plugin h.mem
  have hrate : p.sr = h.plugin.sr := by rw [hre, retuned]
  have hcache : p.cache = ctl.clamp p.sr := by rw [hre, retuned]
  have hfol : Follows p.bq (ctl.coeffs p.sr) (settled sections p.sr 0 h.played) := by
    rw [hre]
    exact ⟨fun _ => rfl, hf.taps⟩
  -- An empty block may still bring the coefficients up to date.
  rcases eq_or_ne n 0 with rfl | h0
  · refine ⟨⟨p, h.mem, h.played, h.heard⟩, ?_, hrate, fun _ => tuned_of_clamp hcache hfol.coeffs,
      hrate ▸ hfol.taps, hf.heard⟩
    simp only [HpfLimiter.call, HpfLimiter.run, block_zero, List.map_nil, List.append_nil]
    rfl
  obtain ⟨inp, out, hi, ho, ha⟩ := hn.resolve_left h0
  have hpr := progress h.mem hfol ha le_rfl
  set pm := (List.range n).foldl (turn ctl inp out) (p, h.mem)
  have hsr : pm.1.sr = h.plugin.sr := by rw [hpr.plugin, hrate]
  refine ⟨⟨pm.1, pm.2, h.played ++ given ctl h.mem inp n, h.heard ++ block pm.2 n (some out)⟩,
    ?_, hsr, fun _ => ?_, ?_, ?_⟩
  · rw [HpfLimiter.call, run_eq hi ho h0, hi, ho]
    rfl
  · apply tuned_of_clamp (b := ctl.toBands)
    · rw [hsr, ← hrate, hpr.plugin, hcache]
    · rw [hsr, ← hrate]
      exact hpr.follows.coeffs
  · rw [settled_append, ← hrate]
    exact hpr.follows.taps
  · rw [reference_append, hf.heard, hpr.output, hrate]

theorem Faithful.call (hf : Faithful sr h) {c : Call K} (hc : Sane h c) :
    ∃ h', call h c = some h' ∧ Faithful sr h' := by
  cases c with
  | connectPort port data => exact ⟨_, rfl, hf.connectPort port data⟩
  | activate => exact ⟨_, rfl, hf.activate⟩
  | run n => exact hf.run hc
  | write mem => exact ⟨_, rfl, hf.rate, hf.tuned, hf.taps, hf.heard⟩

theorem Proper.faithful {sr : ℕ} {mem : Mem K} {calls : List (Call K)}
    (hc : Proper sr mem calls) : ∃ h, session sr mem calls = some h ∧ Faithful (sr : K) h := by
  apply Trace.Guarded.invariant (I := fun o => ∃ h, o = some h ∧ Faithful (sr : K) h) _ hc
  · exact ⟨_, rfl, .new sr mem⟩
  · rintro _ c - ⟨h, rfl, hf⟩ hok
    exact hf.call (hok h rfl)

/-- Caching and blocks do not show. What is heard since the last activation is what the reference
makes of the samples played since then, and so it is the same for two hosts that play the same. -/
theorem heard_reference (sr : ℕ) (mem : Mem K) (calls : List (Call K))
    (hc : Proper sr mem calls) : ∃ h, session sr mem calls = some h ∧
      h.heard = reference sections (sr : K) 0 h.played ∧
      ∀ mem' calls', Proper sr mem' calls' → ∃ h', session sr mem' calls' = some h' ∧
        (h'.played = h.played → h'.heard = h.heard) := by
  obtain ⟨h, hs, hf⟩ := hc.faithful
  refine ⟨h, hs, hf.heard, fun mem' calls' hc' => ?_⟩
  obtain ⟨h', hs', hf'⟩ := hc'.faithful
  exact ⟨h', hs', fun he => by rw [hf'.heard, he, hf.heard]⟩

/-- Two samples played after the activation, in place. -/
theorem heard_reference_sample : ∃ h, session 48000 (fun _ => (1 / 2 : ℝ))
    [.connectPort 10 (some 0), .connectPort 11 (some 0), .run 1, .activate, .run 2] = some h ∧
      h.played.length = 2 ∧
      h.heard = reference sections ((48000 : ℕ) : ℝ) 0 h.played ∧
      ∀ mem' calls', Proper 48000 mem' calls' → ∃ h', session 48000 mem' calls' = some h' ∧
        (h'.played = h.played → h'.heard = h.heard) := by
  have hproper : Proper 48000 (fun _ => (1 / 2 : ℝ))
      [.connectPort 10 (some 0), .connectPort 11 (some 0), .run 1, .activate, .run 2] := by
    refine ⟨fun s _ => trivial, fun s _ => trivial, fun s hs => .inr ⟨0, 0, ?_, ?_, .inl rfl⟩,
      fun s _ => trivial, fun s hs => .inr ⟨0, 0, ?_, ?_, .inl rfl⟩, trivial⟩
    all_goals
      obtain rfl := Option.some.inj hs
      rfl
  obtain ⟨h, hs, hheard⟩ := heard_reference 48000 _ _ hproper
  refine ⟨h, hs, ?_, hheard⟩
  obtain rfl := Option.some.inj hs
  rfl

end Session

end NervesSystem.HpfLimiter
