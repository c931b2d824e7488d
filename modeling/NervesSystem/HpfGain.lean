import NervesSystem.HpfStable

namespace NervesSystem.HpfLimiter
open SecondOrder Real

variable {sr fc q db : ℝ}

/-- The point of the unit circle that belongs to the frequency `fc`. -/
noncomputable def point (sr fc : ℝ) : ℂ := Complex.exp (w0 sr fc * Complex.I)

theorem norm_point (sr fc : ℝ) : ‖point sr fc‖ = 1 := Complex.norm_exp_ofReal_mul_I _

theorem point_eq (sr fc : ℝ) : point sr fc = cos (w0 sr fc) + sin (w0 sr fc) * Complex.I :=
  Complex.exp_ofReal_mul_I _

theorem point_sq (sr fc : ℝ) : point sr fc ^ 2 = 2 * cos (w0 sr fc) * point sr fc - 1 := by
  have hcs : (cos (w0 sr fc) : ℂ) ^ 2 + (sin (w0 sr fc) : ℂ) ^ 2 = 1 := by
    exact_mod_cast cos_sq_add_sin_sq (w0 sr fc)
  rw [point_eq]
  linear_combination (sin (w0 sr fc) : ℂ) ^ 2 * Complex.I_sq - hcs

theorem amp_sq (db : ℝ) : amp db ^ 2 = 10 ^ (db / 20) := by
  rw [amp, ← rpow_natCast, ← rpow_mul (by norm_num)]
  congr 1
  push_cast
  ring

section Filters

theorem bqHighpass_eq (sr fc q : ℝ) : bqHighpass sr fc q =
    { a0 := 1 + sin (w0 sr fc) / (2 * q)
      b0 := (1 + cos (w0 sr fc)) * 0.5
      b1 := -(1 + cos (w0 sr fc))
      b2 := (1 + cos (w0 sr fc)) * 0.5
      a1 := -2 * cos (w0 sr fc)
      a2 := 1 - sin (w0 sr fc) / (2 * q) } := rfl

theorem bqPeaking_eq (sr fc q db : ℝ) : bqPeaking sr fc q db =
    { a0 := 1 + sin (w0 sr fc) / (2 * q) / amp db
      b0 := 1 + sin (w0 sr fc) / (2 * q) * amp db
      b1 := -2 * cos (w0 sr fc)
      b2 := 1 - sin (w0 sr fc) / (2 * q) * amp db
      a1 := -2 * cos (w0 sr fc)
      a2 := 1 - sin (w0 sr fc) / (2 * q) / amp db } := rfl

theorem lowshelf_response (db : ℝ) (h0 : 0 < sin (w0 sr fc)) (hq : 0 < q) :
    (bqLowshelf sr fc q db).normalize.HasResponse (1 : ℝ) ((10 : ℝ) ^ (db / 20) : ℝ) ∧
      (bqLowshelf sr fc q db).normalize.HasResponse (-1 : ℝ) (1 : ℝ) := by
  obtain ⟨ha, hs⟩ := (lowshelf_stable_iff db hq).mpr h0
  constructor
  · apply Ratio.hasResponse_ofReal ha hs abs_one
    simp only [bqLowshelf, libm_pow, ← amp_sq, amp]
    ring
  · apply Ratio.hasResponse_ofReal ha hs (by simp)
    simp only [bqLowshelf]
    ring

theorem highshelf_response (db : ℝ) (h0 : 0 < sin (w0 sr fc)) (hq : 0 < q) :
    (bqHighshelf sr fc q db).normalize.HasResponse (1 : ℝ) (1 : ℝ) ∧
      (bqHighshelf sr fc q db).normalize.HasResponse (-1 : ℝ) ((10 : ℝ) ^ (db / 20) : ℝ) := by
  obtain ⟨ha, hs⟩ := (highshelf_stable_iff db hq).mpr h0
  constructor
  · apply Ratio.hasResponse_ofReal ha hs abs_one
    simp only [bqHighshelf]
    ring
  · apply Ratio.hasResponse_ofReal ha hs (by simp)
    simp only [bqHighshelf, libm_pow, ← amp_sq, amp]
    ring

theorem peaking_response (db : ℝ) (h0 : 0 < sin (w0 sr fc)) (hq : 0 < q) :
    (bqPeaking sr fc q db).normalize.HasResponse (1 : ℝ) (1 : ℝ) ∧
      (bqPeaking sr fc q db).normalize.HasResponse (-1 : ℝ) (1 : ℝ) ∧
      (bqPeaking sr fc q db).normalize.HasResponse (point sr fc) ((10 : ℝ) ^ (db / 20) : ℝ) := by
  obtain ⟨ha, hs⟩ := (peaking_stable_iff db hq).mpr h0
  refine ⟨?_, ?_, ?_⟩
  · apply Ratio.hasResponse_ofReal ha hs abs_one
    simp only [bqPeaking]
    ring
  · apply Ratio.hasResponse_ofReal ha hs (by simp)
    simp only [bqPeaking]
    ring
  · apply Ratio.hasResponse ha hs (norm_point sr fc)
    have hz := point_sq sr fc
    have hA : (amp db : ℂ) ≠ 0 := Complex.ofReal_ne_zero.mpr (amp_pos db).ne'
    rw [← amp_sq, bqPeaking_eq]
    generalize sin (w0 sr fc) = s, cos (w0 sr fc) = c, point sr fc = z at hz ⊢
    push_cast
    have hAA : (amp db : ℂ) ^ 2 * (s / (2 * q) / amp db) = s / (2 * q) * amp db := by
      rw [pow_two, mul_assoc, mul_div_cancel₀ _ hA, mul_comm]
    linear_combination (1 - (amp db : ℂ) ^ 2) * hz - (z ^ 2 - 1) * hAA

theorem highpass_response (h0 : 0 < sin (w0 sr fc)) (hq : 0 < q) :
    (bqHighpass sr fc q).normalize.HasResponse (1 : ℝ) (0 : ℝ) ∧
      (bqHighpass sr fc q).normalize.HasResponse (-1 : ℝ) (1 : ℝ) ∧
      (bqHighpass sr fc q).normalize.HasResponse (point sr fc) (q * Complex.I) := by
  obtain ⟨ha, hs⟩ := (highpass_stable_iff hq).mpr h0
  refine ⟨?_, ?_, ?_⟩
  · apply Ratio.hasResponse_ofReal ha hs abs_one
    simp only [bqHighpass]
    ring
  · apply Ratio.hasResponse_ofReal ha hs (by simp)
    simp only [bqHighpass]
    ring
  · apply Ratio.hasResponse ha hs (norm_point sr fc)
    have hz := point_sq sr fc
    have he := point_eq sr fc
    have hcs : (cos (w0 sr fc) : ℂ) ^ 2 + (sin (w0 sr fc) : ℂ) ^ 2 = 1 := by
      exact_mod_cast cos_sq_add_sin_sq (w0 sr fc)
    have hq' : (q : ℂ) ≠ 0 := Complex.ofReal_ne_zero.mpr hq.ne'
    rw [bqHighpass_eq]
    generalize sin (w0 sr fc) = s, cos (w0 sr fc) = c, point sr fc = z at hz he hcs ⊢
    push_cast
    have hs : (q : ℂ) * (s / (2 * q)) = s / 2 := by
      field_simp
    linear_combination ((1 + c) / 2 - q * Complex.I - s * Complex.I / 2) * hz +
      (z - s * Complex.I) * hcs - (s ^ 2 + s * Complex.I * c) * he - c * s ^ 2 * Complex.I_sq -
      Complex.I * (z ^ 2 - 1) * hs

end Filters

/-- What the filters are for: `1` is the frequency 0, `-1` half the sample rate. -/
structure Voiced (sr fc q db : ℝ) : Prop where
  lowshelf_dc : (bqLowshelf sr fc q db).normalize.HasResponse 1 ((10 : ℝ) ^ (db / 20) : ℝ)
  lowshelf_nyquist : (bqLowshelf sr fc q db).normalize.HasResponse (-1) 1
  highshelf_dc : (bqHighshelf sr fc q db).normalize.HasResponse 1 1
  highshelf_nyquist :
    (bqHighshelf sr fc q db).normalize.HasResponse (-1) ((10 : ℝ) ^ (db / 20) : ℝ)
  peaking_dc : (bqPeaking sr fc q db).normalize.HasResponse 1 1
  peaking_nyquist : (bqPeaking sr fc q db).normalize.HasResponse (-1) 1
  peaking_center : (bqPeaking sr fc q db).normalize.HasResponse
    (Complex.exp ((2 * π * fc / sr : ℝ) * Complex.I)) ((10 : ℝ) ^ (db / 20) : ℝ)
  highpass_dc : (bqHighpass sr fc q).normalize.HasResponse 1 0
  highpass_nyquist : (bqHighpass sr fc q).normalize.HasResponse (-1) 1
  highpass_corner : ∃ g : ℂ, (bqHighpass sr fc q).normalize.HasResponse
    (Complex.exp ((2 * π * fc / sr : ℝ) * Complex.I)) g ∧ ‖g‖ = q

/-- Every filter has the gain that its parameters name, for all of them. -/
theorem filters_voiced (db : ℝ) (hf : 0 < fc) (hn : fc ≤ 0.45 * sr) (hq : 0 < q) :
    Voiced sr fc q db := by
  have h0 : 0 < sin (w0 sr fc) := sin_w0_pos hf (by linarith)
  obtain ⟨hl, hl'⟩ := lowshelf_response db h0 hq
  obtain ⟨hh, hh'⟩ := highshelf_response db h0 hq
  obtain ⟨hp, hp', hpc⟩ := peaking_response db h0 hq
  obtain ⟨hb, hb', hbc⟩ := highpass_response h0 hq
  exact ⟨by simpa using hl, by simpa using hl', by simpa using hh, by simpa using hh',
    by simpa using hp, by simpa using hp', hpc, by simpa using hb, by simpa using hb', _, hbc,
    by simp [abs_of_pos hq]⟩

theorem filters_voiced_sample : Voiced 48000 2500 1 6 :=
  filters_voiced 6 (by norm_num) (by norm_num) one_pos

end NervesSystem.HpfLimiter
