import NervesSystem.HpfStable

namespace NervesSystem.HpfLimiter
open SecondOrder Real

/-- The controls leave the equaliser flat. -/
structure Flat (b : Bands ℝ) : Prop where
  wdb : b.wdb = 0
  pdb : b.pdb = 0
  adb : b.adb = 0
  whz : 0 < b.whz
  phz : 0 < b.phz
  ahz : 0 < b.ahz

/-- The defaults of the controls are flat. -/
theorem flat_unconnected {p : Plugin ℝ} {mem : Mem ℝ}
    (hp : ∀ q, q ≠ .input → q ≠ .output → p.port q = none) :
    Flat (controls p mem).toBands := by
  constructor <;> simp [controls, val, hp]

def highpasses : List Section := [.hp1, .hp2]

def equaliser : List Section := [.warmth, .presence, .air]

section Unity
variable {sr fc q : ℝ} {b : Bands ℝ} {s : Section}

theorem peaking_unity (h0 : 0 ≤ sin (w0 sr fc)) (hq : 0 < q) :
    (bqPeaking sr fc q 0).normalize.Unity := by
  have ha : (bqPeaking sr fc q 0).a0 = 1 + sin (w0 sr fc) / (2 * q) := by simp [bqPeaking, w0]
  have hpos : 0 < (bqPeaking sr fc q 0).a0 := by
    rw [ha]
    positivity
  apply Ratio.unity hpos.ne' <;> simp [bqPeaking]

theorem lowshelf_unity (h0 : 0 ≤ sin (w0 sr fc)) (hq : 0 < q) :
    (bqLowshelf sr fc q 0).normalize.Unity := by
  have ha : (bqLowshelf sr fc q 0).a0 = 2 + 2 * (sin (w0 sr fc) / (2 * q)) := by
    simp [bqLowshelf, w0, one_add_one_eq_two]
  have hpos : 0 < (bqLowshelf sr fc q 0).a0 := by
    rw [ha]
    positivity
  apply Ratio.unity hpos.ne' <;> simp [bqLowshelf]

theorem highshelf_unity (h0 : 0 ≤ sin (w0 sr fc)) (hq : 0 < q) :
    (bqHighshelf sr fc q 0).normalize.Unity := by
  have ha : (bqHighshelf sr fc q 0).a0 = 2 + 2 * (sin (w0 sr fc) / (2 * q)) := by
    simp [bqHighshelf, w0, one_add_one_eq_two]
  have hpos : 0 < (bqHighshelf sr fc q 0).a0 := by
    rw [ha]
    positivity
  apply Ratio.unity hpos.ne' <;> simp [bqHighshelf]

theorem sin_w0_min_nonneg (hsr : 0 ≤ sr) (hf : 0 < fc) :
    0 ≤ sin (w0 sr (min fc (sr * 0.45))) := by
  rcases hsr.eq_or_lt with rfl | hsr
  · simp [w0]
  · exact (sin_w0_pos (lt_min hf (by positivity)) (min_le_right _ _)).le

theorem Flat.unity (hb : Flat b) (hsr : 0 ≤ sr) (hs : s ∈ equaliser) : (b.coeffs sr s).Unity := by
  have hpq : 0 < (b.clamp sr).pq := lt_max_of_lt_right (by norm_num)
  have hshelf : (0 : ℝ) < shelfQ := by norm_num [shelfQ]
  simp only [equaliser, List.mem_cons, List.not_mem_nil, or_false] at hs
  rcases hs with rfl | rfl | rfl
  · rw [Bands.coeffs, Bands.ratio, show (b.clamp sr).wdb = 0 from hb.wdb]
    exact lowshelf_unity (sin_w0_min_nonneg hsr hb.whz) hshelf
  · rw [Bands.coeffs, Bands.ratio, show (b.clamp sr).pdb = 0 from hb.pdb]
    exact peaking_unity (sin_w0_min_nonneg hsr hb.phz) hpq
  · rw [Bands.coeffs, Bands.ratio, show (b.clamp sr).adb = 0 from hb.adb]
    exact highshelf_unity (sin_w0_min_nonneg hsr hb.ahz) hshelf

end Unity

section Stream
variable {sr : ℝ} {t t' : Section → Taps ℝ} {stream : List (Controls ℝ × ℝ)}

/-- A flat equaliser has put out what it was given, and so it does under every flat control. -/
theorem reference_flat (hsr : 0 ≤ sr) (hflat : ∀ cv ∈ stream, Flat cv.1.toBands)
    (ht : ∀ s ∈ highpasses, t s = t' s) (hl : ∀ s ∈ equaliser, (t s).Level) :
    reference sections sr t stream = reference highpasses sr t' stream := by
  induction stream generalizing t t' with
  | nil => rfl
  | cons cv stream ih =>
    obtain ⟨c, v⟩ := cv
    obtain ⟨hc, hflat⟩ := List.forall_mem_cons.mp hflat
    obtain ⟨hv, ht'⟩ := series_congr (c := c.coeffs sr) (v := v) (List.Subset.refl _) ht
    have hl' : ∀ s ∈ equaliser,
        ((series (c.coeffs sr) highpasses t v).1 s).Level := by
      intro s hs
      rw [series_of_notMem (by revert hs; cases s <;> decide)]
      exact hl s hs
    obtain ⟨hu, hlevel⟩ := series_unity (c := c.coeffs sr)
      (v := (series (c.coeffs sr) highpasses t' v).2) (List.Subset.refl _)
      (fun s => hc.unity hsr) hl'
    have hsections : sections = highpasses ++ equaliser := rfl
    simp only [reference, hsections, series_append, hv, hu]
    congr 1
    apply ih hflat _ hlevel
    intro s hs
    rw [series_of_notMem (by revert hs; cases s <;> decide)]
    exact ht' s hs

end Stream

/-- A flat equaliser is not heard: the high-passes, the gain and the limiter are all there is. -/
theorem heard_flat (sr : ℕ) (mem : Mem ℝ) (calls : List (Call ℝ)) (hc : Proper sr mem calls)
    (hflat : ∀ h, session sr mem calls = some h → ∀ cv ∈ h.played, Flat cv.1.toBands) :
    ∃ h, session sr mem calls = some h ∧ h.heard = reference highpasses (sr : ℝ) 0 h.played := by
  obtain ⟨h, hs, hf⟩ := hc.faithful
  refine ⟨h, hs, hf.heard.trans ?_⟩
  exact reference_flat sr.cast_nonneg (hflat h hs) (fun _ _ => rfl) fun _ _ => Taps.level_zero

theorem heard_flat_sample : ∃ h, session 48000 (fun _ => (1 / 2 : ℝ))
    [.connectPort 10 (some 0), .connectPort 11 (some 0), .run 2] = some h ∧
      h.heard = reference highpasses ((48000 : ℕ) : ℝ) 0 h.played := by
  apply heard_flat
  · refine ⟨fun s _ => trivial, fun s _ => trivial, fun s hs => .inr ⟨0, 0, ?_, ?_, .inl rfl⟩,
      trivial⟩
    all_goals
      obtain rfl := Option.some.inj hs
      rfl
  -- No control is connected, and the defaults are flat.
  · intro h hs cv hcv
    obtain rfl := Option.some.inj hs
    obtain ⟨v, -, rfl⟩ := List.mem_map.mp hcv
    apply flat_unconnected
    intro q hi ho
    cases q <;> first | rfl | contradiction

end NervesSystem.HpfLimiter
