import Mathlib.Analysis.Complex.Norm
import Mathlib.Tactic.LinearCombination
import Mathlib.Tactic.FieldSimp

namespace NervesSystem.SecondOrder

/-- Two quadratic polynomials in `z⁻¹`, the numerator and the denominator of a filter. -/
structure Ratio (K : Type*) where
  b0 : K
  b1 : K
  b2 : K
  a0 : K
  a1 : K
  a2 : K

/-- The coefficients of a second-order section, those of `y` with the leading one being 1. -/
structure Coeffs (K : Type*) where
  b0 : K
  b1 : K
  b2 : K
  a1 : K
  a2 : K

/-- The last two inputs and outputs of a section in direct form. -/
structure Taps (K : Type*) where
  x1 : K
  x2 : K
  y1 : K
  y2 : K

namespace Taps
variable {K : Type*} {t : Taps K}

def push (t : Taps K) (v y : K) : Taps K := ⟨v, t.x1, y, t.y1⟩

/-- The section has put out what it was given. -/
structure Level (t : Taps K) : Prop where
  y1 : t.y1 = t.x1
  y2 : t.y2 = t.x2

theorem Level.push (ht : t.Level) (v : K) : (t.push v v).Level := ⟨rfl, ht.y1⟩

instance [Zero K] : Zero (Taps K) := ⟨⟨0, 0, 0, 0⟩⟩

theorem level_zero [Zero K] : (0 : Taps K).Level := ⟨rfl, rfl⟩

end Taps

section Field
variable {K : Type*} [Field K]

def Ratio.normalize (r : Ratio K) : Coeffs K :=
  ⟨r.b0 / r.a0, r.b1 / r.a0, r.b2 / r.a0, r.a1 / r.a0, r.a2 / r.a0⟩

/-- The difference equation. -/
def Coeffs.out (c : Coeffs K) (t : Taps K) (v : K) : K :=
  c.b0 * v + c.b1 * t.x1 + c.b2 * t.x2 - c.a1 * t.y1 - c.a2 * t.y2

/-- Numerator and denominator agree, so that the section passes its input on. -/
structure Coeffs.Unity (c : Coeffs K) : Prop where
  b0 : c.b0 = 1
  b1 : c.b1 = c.a1
  b2 : c.b2 = c.a2

variable {c : Coeffs K} {r : Ratio K} {t : Taps K}

theorem Coeffs.Unity.out (hc : c.Unity) (ht : t.Level) (v : K) : c.out t v = v := by
  simp only [Coeffs.out, hc.b0, hc.b1, hc.b2, ht.y1, ht.y2]
  ring

theorem Ratio.unity (h0 : r.a0 ≠ 0) (hb : r.b0 = r.a0) (h1 : r.b1 = r.a1) (h2 : r.b2 = r.a2) :
    r.normalize.Unity :=
  ⟨by simp only [normalize, hb, div_self h0], by simp only [normalize, h1],
    by simp only [normalize, h2]⟩

end Field

section Series
variable {K ι : Type*} [Field K] [DecidableEq ι]

/-- Sections one after another, each on its own taps. -/
def series (c : ι → Coeffs K) : List ι → (ι → Taps K) → K → (ι → Taps K) × K
  | [], t, v => (t, v)
  | i :: l, t, v =>
    let y := (c i).out (t i) v
    series c l (Function.update t i ((t i).push v y)) y

variable {c : ι → Coeffs K} {l l' : List ι} {t t' : ι → Taps K} {v : K} {i : ι}

theorem series_append : series c (l ++ l') t v =
    series c l' (series c l t v).1 (series c l t v).2 := by
  induction l generalizing t v with
  | nil => rfl
  | cons i l ih => exact ih

theorem series_of_notMem (hi : i ∉ l) : (series c l t v).1 i = t i := by
  induction l generalizing t v with
  | nil => rfl
  | cons j l ih =>
    rw [List.mem_cons, not_or] at hi
    rw [series, ih hi.2, Function.update_of_ne hi.1]

/-- The taps of other sections do not matter. -/
theorem series_congr (hl : l ⊆ l') (h : ∀ i ∈ l', t i = t' i) :
    (series c l t v).2 = (series c l t' v).2 ∧
      ∀ i ∈ l', (series c l t v).1 i = (series c l t' v).1 i := by
  induction l generalizing t t' v with
  | nil => exact ⟨rfl, h⟩
  | cons j l ih =>
    obtain ⟨hj, hl⟩ := List.cons_subset.mp hl
    simp only [series, ← h j hj]
    apply ih hl
    intro i hi
    by_cases hij : i = j
    · simp only [hij, Function.update_self]
    · simp only [Function.update_of_ne hij, h i hi]

/-- A series of sections that pass their input on passes it on. -/
theorem series_unity (hl : l ⊆ l') (hc : ∀ i ∈ l', (c i).Unity) (ht : ∀ i ∈ l', (t i).Level) :
    (series c l t v).2 = v ∧ ∀ i ∈ l', ((series c l t v).1 i).Level := by
  induction l generalizing t with
  | nil => exact ⟨rfl, ht⟩
  | cons j l ih =>
    obtain ⟨hj, hl⟩ := List.cons_subset.mp hl
    simp only [series, (hc j hj).out (ht j hj)]
    apply ih hl
    intro i hi
    by_cases hij : i = j
    · simpa only [hij, Function.update_self] using (ht j hj).push v
    · simpa only [Function.update_of_ne hij] using ht i hi

end Series

section Stable

/-- The triangle of coefficients whose poles lie within the unit circle. -/
structure Coeffs.Stable (c : Coeffs ℝ) : Prop where
  a2 : |c.a2| < 1
  a1 : |c.a1| < 1 + c.a2

variable {c : Coeffs ℝ} {r : Ratio ℝ} {p n t : ℝ}

theorem Coeffs.Stable.root_lt (h : c.Stable) {x : ℝ} (hx : x ^ 2 + c.a1 * x + c.a2 = 0) :
    |x| < 1 := by
  obtain ⟨-, h2⟩ := abs_lt.mp h.a2
  obtain ⟨hlo, hhi⟩ := abs_lt.mp h.a1
  rw [abs_lt]
  constructor
  -- From -1 down and from 1 up the denominator is positive.
  · by_contra hn
    nlinarith [mul_nonneg (show 0 ≤ -1 - x by linarith) (show 0 ≤ -x - c.a2 by linarith)]
  · by_contra hn
    nlinarith [mul_nonneg (show 0 ≤ x - 1 by linarith) (show 0 ≤ x - c.a2 by linarith)]

/-- Every pole lies strictly inside the unit circle. -/
theorem Coeffs.Stable.norm_pole_lt (h : c.Stable) {z : ℂ}
    (hz : z ^ 2 + c.a1 * z + c.a2 = 0) : ‖z‖ < 1 := by
  have hre : z.re ^ 2 - z.im ^ 2 + c.a1 * z.re + c.a2 = 0 := by
    have := congrArg Complex.re hz
    simp [pow_two] at this
    linarith
  have him : z.im * (2 * z.re + c.a1) = 0 := by
    have := congrArg Complex.im hz
    simp [pow_two] at this
    linarith
  have hnorm : ‖z‖ ^ 2 = z.re ^ 2 + z.im ^ 2 := by
    rw [← Complex.normSq_eq_norm_sq, Complex.normSq_apply]
    ring
  have hlt : ‖z‖ ^ 2 < 1 := by
    rcases mul_eq_zero.mp him with hi | hi
    · have hx := h.root_lt (x := z.re) (by simpa [hi] using hre)
      rw [hnorm, hi]
      nlinarith [abs_lt.mp hx]
    -- Two conjugate poles, whose product is a2.
    · have ha1 : c.a1 = -2 * z.re := by linarith
      have ha2 : c.a2 = z.re ^ 2 + z.im ^ 2 := by
        rw [ha1] at hre
        linarith
      rw [hnorm, ← ha2]
      exact (abs_lt.mp h.a2).2
  nlinarith [norm_nonneg z]

/-- The transfer function. -/
noncomputable def Coeffs.response (c : Coeffs ℝ) (z : ℂ) : ℂ :=
  (c.b0 + c.b1 * z⁻¹ + c.b2 * z⁻¹ ^ 2) / (1 + c.a1 * z⁻¹ + c.a2 * z⁻¹ ^ 2)

/-- The transfer function has no pole at `z` and the value `g`. -/
structure Coeffs.HasResponse (c : Coeffs ℝ) (z g : ℂ) : Prop where
  pole : 1 + c.a1 * z⁻¹ + c.a2 * z⁻¹ ^ 2 ≠ 0
  eq : c.response z = g

theorem Coeffs.Stable.denominator_ne_zero (h : c.Stable) {z : ℂ} (hz : ‖z‖ = 1) :
    1 + c.a1 * z⁻¹ + c.a2 * z⁻¹ ^ 2 ≠ 0 := by
  have hz0 : z ≠ 0 := norm_ne_zero_iff.mp (by rw [hz]; exact one_ne_zero)
  intro hpole
  field_simp at hpole
  have hlt : ‖z‖ < 1 := h.norm_pole_lt (by linear_combination hpole)
  exact hlt.ne hz

/-- On the unit circle the response of a stable section can be read off its polynomials. -/
theorem Ratio.hasResponse (h0 : r.a0 ≠ 0) (hs : r.normalize.Stable) {z g : ℂ} (hz : ‖z‖ = 1)
    (hg : r.b0 * z ^ 2 + r.b1 * z + r.b2 = g * (r.a0 * z ^ 2 + r.a1 * z + r.a2)) :
    r.normalize.HasResponse z g := by
  have hz0 : z ≠ 0 := norm_ne_zero_iff.mp (by rw [hz]; exact one_ne_zero)
  have h0' : (r.a0 : ℂ) ≠ 0 := Complex.ofReal_ne_zero.mpr h0
  have hpole := hs.denominator_ne_zero hz
  refine ⟨hpole, (div_eq_iff hpole).mpr ?_⟩
  simp only [normalize, Complex.ofReal_div]
  field_simp
  linear_combination hg

/-- At the frequency 0 and at half the sample rate the response is real. -/
theorem Ratio.hasResponse_ofReal (h0 : r.a0 ≠ 0) (hs : r.normalize.Stable) {x g : ℝ}
    (hx : |x| = 1) (hg : r.b0 * x ^ 2 + r.b1 * x + r.b2 = g * (r.a0 * x ^ 2 + r.a1 * x + r.a2)) :
    r.normalize.HasResponse x g := by
  apply hasResponse h0 hs
  · rw [Complex.norm_real, Real.norm_eq_abs, hx]
  · exact_mod_cast congrArg Complex.ofReal hg

/-- The sections of an equaliser have `p + t` and `p - t` at the ends of their denominator. -/
theorem Ratio.stable_iff (h0 : r.a0 = p + t) (h1 : |r.a1| = 2 * |n|) (h2 : r.a2 = p - t)
    (hp : 0 < p) (hn : 0 < t → |n| < p) : r.a0 ≠ 0 ∧ r.normalize.Stable ↔ 0 < t := by
  constructor
  · rintro ⟨hne, ha2, -⟩
    simp only [normalize, abs_div, div_lt_one (abs_pos.mpr hne)] at ha2
    rw [← sq_lt_sq, h0, h2] at ha2
    nlinarith
  · intro ht
    have hpos : 0 < r.a0 := by rw [h0]; linarith
    refine ⟨hpos.ne', ?_, ?_⟩
    · simp only [normalize, abs_div, abs_of_pos hpos]
      rw [div_lt_one hpos, h0, h2, abs_lt]
      constructor <;> linarith
    · simp only [normalize, abs_div, abs_of_pos hpos]
      rw [div_lt_iff₀ hpos, add_mul, div_mul_cancel₀ _ hpos.ne', h0, h1, h2]
      linarith [hn ht]

end Stable

end NervesSystem.SecondOrder
