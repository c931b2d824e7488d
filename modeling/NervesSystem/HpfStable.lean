import NervesSystem.HpfStream

namespace NervesSystem.HpfLimiter
open SecondOrder Real

section Libm
variable (x y : ℝ)

@[simp] theorem libm_pi : (Libm.pi : ℝ) = π := rfl
@[simp] theorem libm_sin : Libm.sin x = sin x := rfl
@[simp] theorem libm_cos : Libm.cos x = cos x := rfl
@[simp] theorem libm_pow : Libm.pow x y = x ^ y := rfl
@[simp] theorem libm_sqrt : Libm.sqrt x = √x := rfl

end Libm

section Angle
variable {sr fc w db q : ℝ}

theorem amp_pos (db : ℝ) : 0 < amp db := rpow_pos_of_pos (by norm_num) _

theorem sin_w0_pos (hf : 0 < fc) (hn : fc ≤ sr * 0.45) : 0 < sin (w0 sr fc) := by
  have hsr : 0 < sr := by
    by_contra h
    linarith
  apply sin_pos_of_pos_of_lt_pi
  · exact div_pos (by positivity) hsr
  · rw [w0, div_lt_iff₀ hsr]
    nlinarith [pi_pos]

theorem sin_w0_pos_iff (sr fc : ℝ) :
    0 < sin (w0 sr fc) ↔ 0 < Int.fract (fc / sr) ∧ Int.fract (fc / sr) < 1 / 2 := by
  have hsin : sin (w0 sr fc) = sin (2 * π * Int.fract (fc / sr)) := by
    rw [w0, ← sin_sub_int_mul_two_pi _ ⌊fc / sr⌋, Int.fract]
    ring_nf
  have h0 := Int.fract_nonneg (fc / sr)
  have h1 := Int.fract_lt_one (fc / sr)
  rw [hsin]
  constructor
  · intro h
    have hne : Int.fract (fc / sr) ≠ 0 := by
      intro hz
      simp [hz] at h
    refine ⟨lt_of_le_of_ne h0 hne.symm, ?_⟩
    -- Past half a turn the sine is that of an angle from -π on.
    by_contra hhalf
    rw [← sin_sub_two_pi] at h
    exact absurd h (sin_nonpos_of_nonpos_of_neg_pi_le (by nlinarith [pi_pos])
      (by nlinarith [pi_pos])).not_gt
  · rintro ⟨hpos, hhalf⟩
    exact sin_pos_of_pos_of_lt_pi (by positivity) (by nlinarith [pi_pos])

theorem abs_cos_lt_one (h : 0 < sin w) : |cos w| < 1 := by
  rw [← sq_lt_one_iff_abs_lt_one]
  nlinarith [sin_sq_add_cos_sq w]

end Angle

section Sections
variable {sr fc q db : ℝ}

theorem highpass_stable_iff (hq : 0 < q) :
    (bqHighpass sr fc q).a0 ≠ 0 ∧ (bqHighpass sr fc q).normalize.Stable ↔
      0 < sin (w0 sr fc) := by
  have ht : 0 < sin (w0 sr fc) / (2 * q) ↔ 0 < sin (w0 sr fc) :=
    div_pos_iff_of_pos_right (by positivity)
  rw [← ht]
  apply Ratio.stable_iff (p := 1) (n := cos (w0 sr fc)) rfl _ rfl one_pos
  · exact fun h => abs_cos_lt_one (ht.mp h)
  · simp [bqHighpass, abs_mul, w0]

theorem peaking_stable_iff (db : ℝ) (hq : 0 < q) :
    (bqPeaking sr fc q db).a0 ≠ 0 ∧ (bqPeaking sr fc q db).normalize.Stable ↔
      0 < sin (w0 sr fc) := by
  have ht : 0 < sin (w0 sr fc) / (2 * q) / amp db ↔ 0 < sin (w0 sr fc) := by
    rw [div_pos_iff_of_pos_right (amp_pos db), div_pos_iff_of_pos_right (by positivity)]
  rw [← ht]
  apply Ratio.stable_iff (p := 1) (n := cos (w0 sr fc)) rfl _ rfl one_pos
  · exact fun h => abs_cos_lt_one (ht.mp h)
  · simp [bqPeaking, abs_mul, w0]

/-- Both ends of what the shelves put around their cosine. -/
theorem shelf_pos {A c : ℝ} (hA : 0 < A) (hc : |c| ≤ 1) : 0 < (A + 1) + (A - 1) * c := by
  obtain ⟨hlo, hhi⟩ := abs_le.mp hc
  rcases hlo.eq_or_lt with rfl | hlo
  · linarith
  · nlinarith

theorem abs_shelf_lt {A c : ℝ} (hA : 0 < A) (hc : |c| < 1) :
    |(A - 1) + (A + 1) * c| < (A + 1) + (A - 1) * c := by
  obtain ⟨hlo, hhi⟩ := abs_lt.mp hc
  rw [abs_lt]
  constructor <;> nlinarith

theorem shelf_tail_pos_iff (db : ℝ) (hq : 0 < q) :
    0 < 2 * √(amp db) * (sin (w0 sr fc) / (2 * q)) ↔ 0 < sin (w0 sr fc) := by
  rw [mul_pos_iff_of_pos_left (by have := amp_pos db; positivity),
    div_pos_iff_of_pos_right (by positivity)]

theorem lowshelf_stable_iff (db : ℝ) (hq : 0 < q) :
    (bqLowshelf sr fc q db).a0 ≠ 0 ∧ (bqLowshelf sr fc q db).normalize.Stable ↔
      0 < sin (w0 sr fc) := by
  rw [← shelf_tail_pos_iff db hq]
  apply Ratio.stable_iff (n := (amp db - 1) + (amp db + 1) * cos (w0 sr fc)) rfl _ rfl
    (shelf_pos (amp_pos db) (abs_cos_le_one _))
  · exact fun h => abs_shelf_lt (amp_pos db) (abs_cos_lt_one ((shelf_tail_pos_iff db hq).mp h))
  · simp [bqLowshelf, abs_mul, w0, amp]

theorem highshelf_stable_iff (db : ℝ) (hq : 0 < q) :
    (bqHighshelf sr fc q db).a0 ≠ 0 ∧ (bqHighshelf sr fc q db).normalize.Stable ↔
      0 < sin (w0 sr fc) := by
  have hp := shelf_pos (c := -cos (w0 sr fc)) (amp_pos db) (by simpa using abs_cos_le_one _)
  rw [mul_neg, ← sub_eq_add_neg] at hp
  rw [← shelf_tail_pos_iff db hq]
  apply Ratio.stable_iff (n := (amp db - 1) - (amp db + 1) * cos (w0 sr fc)) rfl _ rfl hp
  · intro h
    have hc := abs_cos_lt_one ((shelf_tail_pos_iff db hq).mp h)
    simpa [sub_eq_add_neg] using abs_shelf_lt (amp_pos db) ((abs_neg _).trans_lt hc)
  · simp [bqHighshelf, abs_mul, w0, amp]

end Sections

section Plugin
variable {p : Plugin ℝ} {mem : Mem ℝ} {sr : ℝ} {b : Bands ℝ}

/-- The sections stand or fall with the angles of their frequencies. -/
theorem clamped_stable_iff (hsr : 0 < sr) : (∀ s, ((b.clamp sr).ratio sr s).a0 ≠ 0 ∧
    ((b.clamp sr).ratio sr s).normalize.Stable) ↔ ∀ f ∈ [b.whz, b.phz, b.ahz],
      0 < sin (w0 sr (min f (sr * 0.45))) := by
  have hcut : 0 < sin (w0 sr (b.clamp sr).cut) :=
    sin_w0_pos (lt_min (lt_max_of_lt_right (by norm_num)) (by positivity)) (min_le_right _ _)
  have hpq : 0 < (b.clamp sr).pq := lt_max_of_lt_right (by norm_num)
  have hshelf : (0 : ℝ) < shelfQ := by norm_num [shelfQ]
  simp only [List.forall_mem_cons, List.not_mem_nil, false_implies, implies_true, and_true]
  constructor
  · intro h
    exact ⟨(lowshelf_stable_iff _ hshelf).mp (h .warmth),
      (peaking_stable_iff _ hpq).mp (h .presence),
      (highshelf_stable_iff _ hshelf).mp (h .air)⟩
  · rintro ⟨hw, hp, ha⟩ s
    cases s with
    | hp1 => exact (highpass_stable_iff (by norm_num)).mpr hcut
    | hp2 => exact (highpass_stable_iff (by norm_num)).mpr hcut
    | warmth => exact (lowshelf_stable_iff _ hshelf).mpr hw
    | presence => exact (peaking_stable_iff _ hpq).mpr hp
    | air => exact (highshelf_stable_iff _ hshelf).mpr ha

/-- What `recompute` leaves in a section: quotients by an `a0` that is not zero, with every pole
inside the unit circle. -/
structure LeavesStable (p : Plugin ℝ) (mem : Mem ℝ) (s : Section) : Prop where
  a0 : (((controls p mem).clamp p.sr).ratio p.sr s).a0 ≠ 0
  quotient : ((recompute p mem).bq s).toCoeffs =
    (((controls p mem).clamp p.sr).ratio p.sr s).normalize
  stable : ((recompute p mem).bq s).Stable

theorem leavesStable_iff {s : Section} : LeavesStable p mem s ↔
    (((controls p mem).clamp p.sr).ratio p.sr s).a0 ≠ 0 ∧
      (((controls p mem).clamp p.sr).ratio p.sr s).normalize.Stable := by
  have hq : ((recompute p mem).bq s).toCoeffs =
      (((controls p mem).clamp p.sr).ratio p.sr s).normalize := by
    rw [recompute_eq]
    rfl
  constructor
  · intro h
    exact ⟨h.a0, hq ▸ h.stable⟩
  · rintro ⟨h0, hs⟩
    exact ⟨h0, hq, hq ▸ hs⟩

/-- The sections are all stable just when the frequencies of the bands, cut off at `0.45 * sr` and
taken modulo the sample rate, lie strictly between 0 and half of it. -/
theorem recompute_stable_iff (p : Plugin ℝ) (mem : Mem ℝ) (hsr : 0 < p.sr) :
    (∀ s, LeavesStable p mem s) ↔
      ∀ f ∈ [val p mem .warmthHz 250, val p mem .presenceHz 2500, val p mem .airHz 8000],
        0 < Int.fract (min f (p.sr * 0.45) / p.sr) ∧
          Int.fract (min f (p.sr * 0.45) / p.sr) < 1 / 2 := by
  simp only [leavesStable_iff, ← sin_w0_pos_iff]
  exact clamped_stable_iff hsr

theorem recompute_stable_default : (0 : ℝ) < (instantiate 48000 : Plugin ℝ).sr ∧
    ((∀ s, LeavesStable (instantiate 48000) (fun _ => 0) s) ↔
      ∀ f ∈ [val (instantiate 48000) (fun _ => (0 : ℝ)) .warmthHz 250,
          val (instantiate 48000) (fun _ => 0) .presenceHz 2500,
          val (instantiate 48000) (fun _ => 0) .airHz 8000],
        0 < Int.fract (min f ((instantiate 48000 : Plugin ℝ).sr * 0.45) /
            (instantiate 48000 : Plugin ℝ).sr) ∧
          Int.fract (min f ((instantiate 48000 : Plugin ℝ).sr * 0.45) /
            (instantiate 48000 : Plugin ℝ).sr) < 1 / 2) := by
  have hsr : (0 : ℝ) < (instantiate 48000 : Plugin ℝ).sr := by
    simp [instantiate]
  exact ⟨hsr, recompute_stable_iff (instantiate 48000) (fun _ => 0) hsr⟩

theorem recompute_stable_of_pos (hsr : 0 < p.sr) (hw : 0 < val p mem .warmthHz 250)
    (hp : 0 < val p mem .presenceHz 2500) (ha : 0 < val p mem .airHz 8000) (s : Section) :
    LeavesStable p mem s := by
  have hsin (f : ℝ) (hf : 0 < f) : 0 < sin (w0 p.sr (min f (p.sr * 0.45))) :=
    sin_w0_pos (lt_min hf (by positivity)) (min_le_right _ _)
  rw [leavesStable_iff]
  refine (clamped_stable_iff hsr).mpr ?_ s
  simp only [List.forall_mem_cons, List.not_mem_nil, false_implies, implies_true, and_true]
  exact ⟨hsin _ hw, hsin _ hp, hsin _ ha⟩

/-- A presence frequency of 0 Hz leaves a pole on the unit circle. -/
theorem presence_unstable :
    (0 : ℝ) < (connectPort (instantiate 48000 : Plugin ℝ) 3 (some 0)).sr ∧
      ¬ ∀ s, LeavesStable (connectPort (instantiate 48000) 3 (some 0)) (fun _ => 0) s := by
  have hsr : (0 : ℝ) < (connectPort (instantiate 48000 : Plugin ℝ) 3 (some 0)).sr := by
    simp [connectPort, Port.all, instantiate]
  refine ⟨hsr, fun h => ?_⟩
  simp only [leavesStable_iff, clamped_stable_iff hsr] at h
  have hpos := h 0 (by simp [controls, val, connectPort, Port.all])
  rw [min_eq_left (by positivity)] at hpos
  simp [w0] at hpos

end Plugin

end NervesSystem.HpfLimiter
