import Mathlib.Data.List.Basic
import Mathlib.Logic.Function.Iterate

namespace NervesSystem.Records

variable {α : Type*} {size : List α → Option ℕ} {xs rest : List α} {rs : List (List α)} {k n : ℕ}

/-- Records are taken from the front, each as long as `size` says, until `size` says there is none.
The last may be cut short. The number bounds the records looked for. -/
def read (size : List α → Option ℕ) : ℕ → List α → Option (List (List α))
  | 0, _ => none
  | k + 1, xs => match size xs with
    | none => some []
    | some n => (read size k (xs.drop n)).map (xs.take n :: ·)

/-- Records stand one behind the other, and then an end. -/
inductive Complete (size : List α → Option ℕ) : List α → List (List α) → Prop
  | nil {xs : List α} : size xs = none → Complete size xs []
  | cons {r xs : List α} {rs : List (List α)} : r ≠ [] → size (r ++ xs) = some r.length →
      Complete size xs rs → Complete size (r ++ xs) (r :: rs)

theorem Complete.read (h : Complete size xs rs) (hk : rs.length < k) :
    read size k xs = some rs := by
  induction h generalizing k with
  | nil hs =>
    obtain ⟨k, rfl⟩ := Nat.exists_eq_add_one_of_ne_zero (Nat.ne_of_gt hk)
    rw [Records.read, hs]
  | @cons r xs rs _ hs _ ih =>
    obtain ⟨k, rfl⟩ := Nat.exists_eq_add_one_of_ne_zero (Nat.ne_of_gt (Nat.zero_lt_of_lt hk))
    rw [List.length_cons] at hk
    rw [Records.read, hs]
    dsimp only
    rw [List.drop_left, ih (by omega), List.take_left]
    rfl

/-- The records of a buffer, which has no more of them than places. -/
def records (size : List α → Option ℕ) (xs : List α) : List (List α) :=
  (read size (xs.length + 1) xs).getD []

theorem Complete.length_le (h : Complete size xs rs) : rs.length ≤ xs.length := by
  induction h with
  | nil hs => exact Nat.zero_le _
  | @cons r xs rs hr _ _ ih =>
    have hpos := List.length_pos_iff.mpr hr
    rw [List.length_cons, List.length_append]
    omega

theorem Complete.records (h : Complete size xs rs) : records size xs = rs := by
  rw [Records.records, h.read (Nat.lt_succ_of_le h.length_le), Option.getD_some]

/-- Where there is a record, it stands in front, and the others follow it. -/
theorem Complete.front (h : Complete size xs rs) (hs : size xs = some n) :
    0 < n ∧ (xs.take n).length = n ∧
      ∃ rs', rs = xs.take n :: rs' ∧ Complete size (xs.drop n) rs' := by
  cases h with
  | nil hn => simp [hn] at hs
  | @cons r xs rs hr hn hrest =>
    rw [hn, Option.some.injEq] at hs
    subst hs
    rw [List.drop_left, List.take_left]
    exact ⟨List.length_pos_iff.mpr hr, rfl, rs, rfl, hrest⟩

/-- An end is found, be it behind the buffer: no record that is found on the way has length zero. -/
inductive Ends (size : List α → Option ℕ) : List α → Prop
  | nil {xs : List α} : size xs = none → Ends size xs
  | cons {xs : List α} {n : ℕ} : size xs = some n → n ≠ 0 → Ends size (xs.drop n) → Ends size xs

/-- One more record is left behind. -/
def skip (size : List α → Option ℕ) (xs : List α) : List α :=
  match size xs with
  | none => xs
  | some n => xs.drop n

/-- A buffer shrinks with every record but those of length zero. -/
theorem ends_of_ne_zero (hnil : size [] = none) (h : ∀ k, size ((skip size)^[k] xs) ≠ some 0) :
    Ends size xs := by
  induction hlen : xs.length using Nat.strongRecOn generalizing xs with
  | ind m ih =>
    cases hs : size xs with
    | none => exact .nil hs
    | some n =>
      have hn : n ≠ 0 := by
        rintro rfl
        exact h 0 hs
      have hpos : 0 < xs.length := List.length_pos_iff.mpr fun he => by
        rw [he, hnil] at hs
        cases hs
      have hshort : (xs.drop n).length < m := by
        rw [List.length_drop]
        omega
      refine .cons hs hn (ih _ hshort (fun k => ?_) rfl)
      have hk := h (k + 1)
      rwa [Function.iterate_succ_apply, skip, hs] at hk

/-- Records that each tell their own length, one behind the other. -/
theorem complete_flatten (hne : ∀ r ∈ rs, r ≠ [])
    (hrs : ∀ r ∈ rs, ∀ ys, size (r ++ ys) = some r.length) (hrest : size rest = none) :
    Complete size (rs.flatten ++ rest) rs := by
  induction rs with
  | nil => exact .nil hrest
  | cons r rs ih =>
    rw [List.flatten_cons, List.append_assoc]
    refine .cons (hne r List.mem_cons_self) (hrs r List.mem_cons_self _) (ih ?_ ?_)
    · exact fun r hr => hne r (List.mem_cons_of_mem _ hr)
    · exact fun r hr => hrs r (List.mem_cons_of_mem _ hr)

end NervesSystem.Records
