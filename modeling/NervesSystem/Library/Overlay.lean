import Mathlib.Data.List.Basic

namespace NervesSystem

variable {α : Type*}

/-- Elements written over the start of a region leave the rest of it. -/
def overlay (xs region : List α) : List α := xs ++ region.drop xs.length

variable {xs ys zs : List α}

theorem prefix_overlay (xs ys : List α) : xs <+: overlay xs ys := List.prefix_append _ _

theorem length_overlay (xs ys : List α) : (overlay xs ys).length = max xs.length ys.length := by
  rw [overlay, List.length_append, List.length_drop]
  omega

/-- A write changes nothing if and only if what it writes is already there. -/
theorem overlay_eq_self : overlay xs ys = ys ↔ xs <+: ys := by
  constructor
  · intro h
    exact ⟨ys.drop xs.length, h⟩
  · rintro ⟨t, rfl⟩
    rw [overlay, List.drop_left]

/-- A write that was broken off leaves no trace once it is made as a whole. -/
theorem overlay_overlay (h : xs <+: zs) (ys : List α) :
    overlay zs (overlay xs ys) = overlay zs ys := by
  have hle : xs.length ≤ zs.length := h.length_le
  simp only [overlay]
  rw [List.drop_append, List.drop_eq_nil_of_le hle, List.nil_append, List.drop_drop,
    Nat.add_sub_of_le hle]

theorem overlay_replicate (xs : List α) (n : ℕ) (v : α) :
    overlay xs (List.replicate n v) = xs ++ List.replicate (n - xs.length) v := by
  rw [overlay, List.drop_replicate]

end NervesSystem
