import Mathlib.Algebra.BigOperators.Fin
import Mathlib.Algebra.Order.BigOperators.Group.Finset
import Mathlib.Data.List.FinRange
import Mathlib.Data.List.Flatten

namespace NervesSystem

/-- One queue for each rank. -/
abbrev Lanes (n : ℕ) (α : Type*) := Fin n → List α

namespace Lanes

variable {n : ℕ} {α : Type*} {l : Lanes n α} {p q : Fin n} {a : α} {rank : α → Fin n}
  {came gone : List α}

def push (l : Lanes n α) (p : Fin n) (a : α) : Lanes n α :=
  Function.update l p (l p ++ [a])

def pop (l : Lanes n α) (p : Fin n) : Lanes n α :=
  Function.update l p (l p).tail

def total (l : Lanes n α) : ℕ := ∑ p, (l p).length

/-- The highest rank that has anything waiting. -/
structure IsTop (l : Lanes n α) (p : Fin n) : Prop where
  ne_nil : l p ≠ []
  above : ∀ q, p < q → l q = []

theorem total_update (l : Lanes n α) (p : Fin n) (xs : List α) :
    total (Function.update l p xs) + (l p).length = total l + xs.length := by
  have hcomp : (fun q => (Function.update l p xs q).length) =
      Function.update (fun q => (l q).length) p xs.length := by
    funext q
    exact Function.apply_update (fun _ => List.length) l p xs q
  have hold := Finset.sum_erase_add Finset.univ (fun q => (l q).length) (Finset.mem_univ p)
  rw [total, hcomp, Finset.sum_update_of_mem (Finset.mem_univ p), Finset.sdiff_singleton_eq_erase,
    total]
  omega

theorem total_push (l : Lanes n α) (p : Fin n) (a : α) : total (push l p a) = total l + 1 := by
  have h := total_update l p (l p ++ [a])
  rw [List.length_append, List.length_singleton] at h
  rw [push]
  omega

theorem total_pop (h : l p ≠ []) : total (pop l p) + 1 = total l := by
  have hu := total_update l p (l p).tail
  have hpos := List.length_pos_iff.mpr h
  rw [List.length_tail] at hu
  rw [pop]
  omega

theorem length_le_total (l : Lanes n α) (p : Fin n) : (l p).length ≤ total l :=
  Finset.single_le_sum (f := fun q => (l q).length) (fun _ _ => Nat.zero_le _) (Finset.mem_univ p)

theorem total_eq_zero : total l = 0 ↔ ∀ p, l p = [] := by
  simp [total, List.length_eq_zero_iff]

theorem push_same (l : Lanes n α) (p : Fin n) (a : α) : push l p a p = l p ++ [a] :=
  Function.update_self ..

theorem push_of_ne (a : α) (h : q ≠ p) : push l p a q = l q := Function.update_of_ne h ..

theorem pop_same (l : Lanes n α) (p : Fin n) : pop l p p = (l p).tail := Function.update_self ..

theorem pop_of_ne (h : q ≠ p) : pop l p q = l q := Function.update_of_ne h ..

/-- Within each rank, what waits is what has come and not yet gone, in its order. -/
def Serves (rank : α → Fin n) (came gone : List α) (l : Lanes n α) : Prop :=
  ∀ p, came.filter (rank · = p) = gone.filter (rank · = p) ++ l p

theorem Serves.nil : Serves rank [] [] fun _ => [] :=
  fun _ => rfl

theorem Serves.push (h : Serves rank came gone l) (a : α) :
    Serves rank (came ++ [a]) gone (push l (rank a) a) := by
  intro p
  rw [List.filter_append, h p, List.append_assoc]
  congr 1
  by_cases hp : rank a = p
  · subst hp
    simp [push_same]
  · rw [push_of_ne a (Ne.symm hp)]
    simp [hp]

theorem Serves.rank_of_mem (h : Serves rank came gone l) (ha : a ∈ l p) : rank a = p := by
  have hmem : a ∈ came.filter (rank · = p) := by
    rw [h p]
    exact List.mem_append_right _ ha
  simpa using (List.mem_filter.mp hmem).2

theorem Serves.pop (h : Serves rank came gone l) {t : List α} (hp : l p = a :: t) :
    Serves rank came (gone ++ [a]) (pop l p) := by
  have ha : rank a = p := h.rank_of_mem (hp ▸ List.mem_cons_self)
  intro q
  rw [h q, List.filter_append, List.append_assoc]
  congr 1
  by_cases hq : q = p
  · subst hq
    simp [pop_same, hp, ha]
  · rw [pop_of_ne hq]
    simp [ha, Ne.symm hq]

theorem flatMap_single {ks : List (Fin n)} (hk : ks.Nodup) (hp : p ∈ ks) (xs : List α) :
    ks.flatMap (fun q => if q = p then xs else []) = xs := by
  induction ks with
  | nil => simp at hp
  | cons k ks ih =>
    obtain ⟨hkn, hk⟩ := List.nodup_cons.mp hk
    rw [List.flatMap_cons]
    by_cases hkp : k = p
    · subst hkp
      have hrest : ks.flatMap (fun q => if q = k then xs else []) = [] := by
        apply List.flatMap_eq_nil_iff.mpr
        intro q hq
        have hne : q ≠ k := fun he => hkn (he ▸ hq)
        exact if_neg hne
      rw [if_pos rfl, hrest, List.append_nil]
    · rw [if_neg hkp, List.nil_append]
      exact ih hk ((List.mem_cons.mp hp).resolve_left (Ne.symm hkp))

/-- All that waits goes at once, rank by rank. -/
theorem Serves.flush (h : Serves rank came gone l) :
    Serves rank came (gone ++ (List.finRange n).flatMap l) fun _ => [] := by
  intro p
  have hlane : ∀ q, (l q).filter (rank · = p) = if q = p then l p else [] := by
    intro q
    split
    · next hq =>
      subst hq
      exact List.filter_eq_self.mpr fun a ha => decide_eq_true (h.rank_of_mem ha)
    · next hq =>
      apply List.filter_eq_nil_iff.mpr
      intro a ha hr
      exact hq ((h.rank_of_mem ha).symm.trans (of_decide_eq_true hr))
  rw [h p, List.filter_append, List.filter_flatMap, List.append_nil]
  simp only [hlane]
  rw [flatMap_single (List.nodup_finRange n) (List.mem_finRange p)]

end Lanes

end NervesSystem
