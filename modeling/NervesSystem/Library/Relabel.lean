import Mathlib.Logic.Function.Basic

namespace NervesSystem

variable {ι α : Type*}

/-- Rename the keys of a map and translate its values, key by key. -/
def relabel (e : ι → ι) (g : ι → α → α) (f : ι → α) : ι → α := fun i => g i (f (e i))

section Relabel
variable {e : ι → ι} {g : ι → α → α} {f : ι → α}

theorem relabel_apply (i : ι) : relabel e g f i = g i (f (e i)) := rfl

/-- A renamed update is an update at the renamed key. -/
theorem relabel_update [DecidableEq ι] (he : Function.Involutive e) (i : ι) (a : α) :
    relabel e g (Function.update f i a) = Function.update (relabel e g f) (e i) (g (e i) a) := by
  funext j
  by_cases h : j = e i
  · rw [h, relabel, he i, Function.update_self, Function.update_self]
  · have hj : e j ≠ i := fun hj => h (by rw [← hj, he j])
    rw [Function.update_of_ne h, relabel, relabel, Function.update_of_ne hj]

theorem relabel_relabel (he : Function.Involutive e) (hg : ∀ i a, g i (g (e i) a) = a) :
    relabel e g (relabel e g f) = f := by
  funext i
  rw [relabel, relabel, he i, hg]

end Relabel

end NervesSystem
