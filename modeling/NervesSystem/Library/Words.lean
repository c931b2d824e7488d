import Mathlib.Data.List.Basic

namespace NervesSystem.Words

variable {α : Type*} [DecidableEq α] {sep : α} {w xs ys : List α} {ws : List (List α)}

def wordsFrom (sep : α) : List α → List α → List (List α)
  | w, [] => if w = [] then [] else [w]
  | w, c :: cs =>
    if c = sep then (if w = [] then [] else [w]) ++ wordsFrom sep [] cs
    else wordsFrom sep (w ++ [c]) cs

/-- The words of a text, which stand between separators. -/
def words (sep : α) (xs : List α) : List (List α) := wordsFrom sep [] xs

/-- The words one behind the other, with a separator between any two. -/
def join (sep : α) : List (List α) → List α
  | [] => []
  | [w] => w
  | w :: w' :: ws => w ++ sep :: join sep (w' :: ws)

theorem wordsFrom_append (sep : α) (w xs ys : List α) :
    wordsFrom sep w (xs ++ sep :: ys) = wordsFrom sep w xs ++ words sep ys := by
  induction xs generalizing w with
  | nil => rw [List.nil_append, wordsFrom.eq_2, if_pos rfl, wordsFrom.eq_1, words]
  | cons c cs ih =>
    rw [List.cons_append, wordsFrom, wordsFrom]
    split
    · rw [ih, List.append_assoc]
    · exact ih _

theorem words_append (sep : α) (xs ys : List α) :
    words sep (xs ++ sep :: ys) = words sep xs ++ words sep ys :=
  wordsFrom_append sep [] xs ys

theorem wordsFrom_word (hxs : sep ∉ xs) (hne : w ++ xs ≠ []) : wordsFrom sep w xs = [w ++ xs] := by
  induction xs generalizing w with
  | nil =>
    rw [List.append_nil] at hne ⊢
    rw [wordsFrom, if_neg hne]
  | cons c cs ih =>
    rw [List.mem_cons, not_or] at hxs
    rw [wordsFrom, if_neg (Ne.symm hxs.1), ih hxs.2 (by simp), List.append_assoc,
      List.singleton_append]

theorem words_word (hw : sep ∉ w) (hne : w ≠ []) : words sep w = [w] := wordsFrom_word hw hne

/-- Words that are joined are the words of what is joined. -/
theorem words_join (hws : ∀ w ∈ ws, w ≠ [] ∧ sep ∉ w) : words sep (join sep ws) = ws := by
  induction ws with
  | nil => rfl
  | cons w ws ih =>
    obtain ⟨hne, hw⟩ := hws w List.mem_cons_self
    have hrest := ih fun w' hw' => hws w' (List.mem_cons_of_mem _ hw')
    cases ws with
    | nil => exact words_word hw hne
    | cons w' ws =>
      rw [join, words_append, words_word hw hne, hrest, List.singleton_append]

theorem mem_wordsFrom (hw : sep ∉ w) {v : List α} (hv : v ∈ wordsFrom sep w xs) :
    v ≠ [] ∧ sep ∉ v := by
  have hdone : ∀ u, sep ∉ u → v ∈ (if u = [] then [] else [u]) → v ≠ [] ∧ sep ∉ v := by
    intro u hu hmem
    split at hmem
    · cases hmem
    · next hne =>
      obtain rfl := List.mem_singleton.mp hmem
      exact ⟨hne, hu⟩
  induction xs generalizing w with
  | nil => exact hdone w hw hv
  | cons c cs ih =>
    rw [wordsFrom] at hv
    split at hv
    · rcases List.mem_append.mp hv with hmem | hmem
      · exact hdone w hw hmem
      · exact ih List.not_mem_nil hmem
    · next hc =>
      refine ih ?_ hv
      rw [List.mem_append, List.mem_singleton, not_or]
      exact ⟨hw, Ne.symm hc⟩

/-- A word is not empty and has no separator in it. -/
theorem mem_words {v : List α} (hv : v ∈ words sep xs) : v ≠ [] ∧ sep ∉ v :=
  mem_wordsFrom List.not_mem_nil hv

theorem mem_of_mem_wordsFrom {v : List α} {c : α} (hv : v ∈ wordsFrom sep w xs) (hc : c ∈ v) :
    c ∈ w ∨ c ∈ xs := by
  have hdone : ∀ u, v ∈ (if u = [] then [] else [u]) → c ∈ u := by
    intro u hmem
    split at hmem
    · cases hmem
    · obtain rfl := List.mem_singleton.mp hmem
      exact hc
  induction xs generalizing w with
  | nil => exact .inl (hdone w hv)
  | cons d ds ih =>
    rw [wordsFrom] at hv
    split at hv
    · rcases List.mem_append.mp hv with hmem | hmem
      · exact .inl (hdone w hmem)
      · exact .inr (List.mem_cons_of_mem _ ((ih hmem).resolve_left List.not_mem_nil))
    · rcases ih hv with hw | hds
      · rcases List.mem_append.mp hw with hw | hd
        · exact .inl hw
        · exact .inr (List.mem_cons.mpr (.inl (List.mem_singleton.mp hd)))
      · exact .inr (List.mem_cons_of_mem _ hds)

theorem mem_of_mem_words {v : List α} {c : α} (hv : v ∈ words sep xs) (hc : c ∈ v) : c ∈ xs :=
  (mem_of_mem_wordsFrom hv hc).resolve_left List.not_mem_nil

omit [DecidableEq α] in
theorem mem_join {c : α} (hc : c ∈ join sep ws) : c = sep ∨ ∃ w ∈ ws, c ∈ w := by
  induction ws with
  | nil => cases hc
  | cons w ws ih =>
    cases ws with
    | nil => exact .inr ⟨w, List.mem_cons_self, hc⟩
    | cons w' ws =>
      rw [join, List.mem_append, List.mem_cons] at hc
      rcases hc with hc | hc | hc
      · exact .inr ⟨w, List.mem_cons_self, hc⟩
      · exact .inl hc
      · exact (ih hc).imp_right fun ⟨u, hu, hcu⟩ => ⟨u, List.mem_cons_of_mem _ hu, hcu⟩

end NervesSystem.Words
