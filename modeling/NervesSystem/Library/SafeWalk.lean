import Mathlib.Data.List.Basic

namespace NervesSystem.SafeWalk

variable {σ α : Type*} [DecidableEq α]

/-- The element after this one, where the list has one. -/
def nextOf (a : α) : List α → Option α
  | [] => none
  | x :: xs => if x = a then xs.head? else nextOf a xs

def rotateLeft : List α → List α
  | [] => []
  | a :: l => l ++ [a]

/-- A walk over a list that its body may change: the element after the current one is looked up
before the body is run on the current one. -/
def walk (list : σ → List α) (body : σ → α → σ) (halted : σ → Bool) : ℕ → σ → Option α → σ
  | 0, s, _ => s
  | _ + 1, s, none => s
  | k + 1, s, some a =>
    if halted (body s a) then body s a
    else walk list body halted k (body s a) (nextOf a (list s))

/-- What the body may do to the list. -/
inductive Moves (a : α) (l : List α) : List α → Prop
  | stays : Moves a l l
  | leaves : Moves a l (l.erase a)
  | turns : Moves a l (rotateLeft l)

theorem nextOf_append {a : α} {pre post : List α} (ha : a ∉ pre) :
    nextOf a (pre ++ a :: post) = post.head? := by
  induction pre with
  | nil => simp [nextOf]
  | cons x pre ih =>
    rw [List.mem_cons, not_or] at ha
    rw [List.cons_append, nextOf, if_neg (Ne.symm ha.1), ih ha.2]

omit [DecidableEq α] in
theorem rotateLeft_perm (l : List α) : (rotateLeft l).Perm l := by
  cases l with
  | nil => exact .nil
  | cons a l => exact List.perm_append_singleton a l

theorem Moves.subset {a : α} {l l' : List α} (h : Moves a l l') : l' ⊆ l := by
  cases h with
  | stays => exact fun _ => id
  | leaves => exact List.erase_subset
  | turns => exact (rotateLeft_perm l).subset

theorem Moves.nodup {a : α} {l l' : List α} (h : Moves a l l') (hl : l.Nodup) : l'.Nodup := by
  cases h with
  | stays => exact hl
  | leaves => exact hl.erase a
  | turns => exact (rotateLeft_perm l).nodup_iff.mpr hl

omit [DecidableEq α] in
/-- After a turn the walk goes on with the same element, and with no fewer after it. -/
theorem rotateLeft_split (a : α) (pre post : List α) :
    ∃ pre' post', rotateLeft (pre ++ a :: post) = pre' ++ post' ∧
      post'.head? = post.head? ∧ post ⊆ post' := by
  cases post with
  | nil => exact ⟨rotateLeft (pre ++ [a]), [], by simp, rfl, fun _ => id⟩
  | cons b post =>
    cases pre with
    | nil =>
      refine ⟨[], b :: post ++ [a], rfl, rfl, ?_⟩
      exact List.subset_append_left _ _
    | cons x pre =>
      refine ⟨pre ++ [a], b :: post ++ [x], by simp [rotateLeft], rfl, ?_⟩
      exact List.subset_append_left _ _

theorem Moves.split {a : α} {pre post l' : List α} (h : Moves a (pre ++ a :: post) l')
    (ha : a ∉ pre) :
    ∃ pre' post', l' = pre' ++ post' ∧ post'.head? = post.head? ∧ post ⊆ post' := by
  cases h with
  | stays => exact ⟨pre ++ [a], post, by simp, rfl, fun _ => id⟩
  | leaves =>
    refine ⟨pre, post, ?_, rfl, fun _ => id⟩
    rw [List.erase_append_right _ ha, List.erase_cons_head]
  | turns => exact rotateLeft_split a pre post

variable {list : σ → List α} {body : σ → α → σ} {halted : σ → Bool} {I : σ → Prop} {work : σ → ℕ}
  {s : σ}

/-- What the body keeps and does: it never stops the walk, it moves no other element, and it leaves
less to do. -/
structure Safe (list : σ → List α) (body : σ → α → σ) (halted : σ → Bool) (I : σ → Prop)
    (work : σ → ℕ) : Prop where
  nodup : ∀ s, I s → (list s).Nodup
  keeps : ∀ s a, I s → a ∈ list s → I (body s a)
  runs : ∀ s, I s → halted s = false
  moves : ∀ s a, I s → a ∈ list s → Moves a (list s) (list (body s a))
  less : ∀ s a, I s → a ∈ list s → work (body s a) < work s

theorem Safe.and (h : Safe list body halted I work) {P : σ → Prop}
    (hP : ∀ s a, I s → P s → a ∈ list s → P (body s a)) :
    Safe list body halted (fun s => I s ∧ P s) work where
  nodup := fun s hs => h.nodup s hs.1
  keeps := fun s a hs ha => ⟨h.keeps s a hs.1 ha, hP s a hs.1 hs.2 ha⟩
  runs := fun s hs => h.runs s hs.1
  moves := fun s a hs => h.moves s a hs.1
  less := fun s a hs => h.less s a hs.1

theorem Safe.next (h : Safe list body halted I work) (hs : I s) {a : α} {pre post : List α}
    (hl : list s = pre ++ a :: post) :
    nextOf a (list s) = post.head? ∧ ∃ pre' post', list (body s a) = pre' ++ post' ∧
      post'.head? = post.head? ∧ post ⊆ post' := by
  have hnodup := h.nodup s hs
  have hmoves := h.moves s a hs (by simp [hl])
  rw [hl] at hnodup hmoves ⊢
  have ha : a ∉ pre := by
    intro hmem
    exact (List.nodup_append.mp hnodup).2.2 a hmem a (List.mem_cons_self ..) rfl
  exact ⟨nextOf_append ha, hmoves.split ha⟩

theorem Safe.walk_from (h : Safe list body halted I work) (Seen : α → σ → Prop)
    (hsee : ∀ s a, I s → a ∈ list s → Seen a (body s a))
    (hkeep : ∀ s a b, I s → a ∈ list s → Seen b s → Seen b (body s a))
    (pre post : List α) {todo : List α} {k : ℕ} (hs : I s) (hk : work s ≤ k)
    (hl : list s = pre ++ post) (htodo : ∀ b ∈ todo, b ∈ post ∨ Seen b s) :
    I (walk list body halted k s post.head?) ∧
      ∀ b ∈ todo, Seen b (walk list body halted k s post.head?) := by
  -- `post` is what the saved pointer still leads to; a rotation only makes it longer.
  induction k generalizing s pre post with
  | zero =>
    cases post with
    | nil => exact ⟨hs, fun b hb => (htodo b hb).resolve_left (List.not_mem_nil)⟩
    | cons a post =>
      have hless := h.less s a hs (by simp [hl])
      omega
  | succ k ih =>
    cases post with
    | nil => exact ⟨hs, fun b hb => (htodo b hb).resolve_left (List.not_mem_nil)⟩
    | cons a post =>
      have ha : a ∈ list s := by simp [hl]
      have hI := h.keeps s a hs ha
      have hless := h.less s a hs ha
      obtain ⟨hnext, pre', post', hl', hhead, hsub⟩ := h.next hs hl
      rw [List.head?_cons, walk, h.runs _ hI, if_neg (by simp), hnext, ← hhead]
      apply ih pre' post' hI (by omega) hl'
      intro b hb
      rcases htodo b hb with hmem | hseen
      · rcases List.mem_cons.mp hmem with rfl | hpost
        · exact .inr (hsee s b hs ha)
        · exact .inl (hsub hpost)
      · exact .inr (hkeep s a b hs ha hseen)

/-- What the body keeps holds at the end of the walk, and the walk comes to every element that the
list had at its start. -/
theorem Safe.walk_all (h : Safe list body halted I work) (Seen : α → σ → Prop)
    (hsee : ∀ s a, I s → a ∈ list s → Seen a (body s a))
    (hkeep : ∀ s a b, I s → a ∈ list s → Seen b s → Seen b (body s a))
    {k : ℕ} (hs : I s) (hk : work s ≤ k) :
    I (walk list body halted k s (list s).head?) ∧
      ∀ b ∈ list s, Seen b (walk list body halted k s (list s).head?) :=
  h.walk_from Seen hsee hkeep [] (list s) hs hk rfl fun _ => .inl

theorem Safe.run (h : Safe list body halted I work) {k : ℕ} (hs : I s) (hk : work s ≤ k) :
    I (walk list body halted k s (list s).head?) :=
  (h.walk_all (fun _ _ => True) (fun _ _ _ _ => trivial) (fun _ _ _ _ _ _ => trivial) hs hk).1

/-- More steps than there is work change nothing. -/
theorem Safe.walk_enough (h : Safe list body halted I work) (pre post : List α) {k k' : ℕ}
    (hs : I s) (hk : work s ≤ k) (hk' : work s ≤ k') (hl : list s = pre ++ post) :
    walk list body halted k s post.head? =
      walk list body halted k' s post.head? := by
  induction k generalizing s pre post k' with
  | zero =>
    cases post with
    | nil => cases k' <;> rfl
    | cons a post =>
      have hless := h.less s a hs (by simp [hl])
      omega
  | succ k ih =>
    cases post with
    | nil => cases k' <;> rfl
    | cons a post =>
      have ha : a ∈ list s := by simp [hl]
      have hI := h.keeps s a hs ha
      have hless := h.less s a hs ha
      obtain ⟨hnext, pre', post', hl', hhead, -⟩ := h.next hs hl
      cases k' with
      | zero => omega
      | succ k' =>
        rw [List.head?_cons, walk, walk, h.runs _ hI, hnext, ← hhead]
        exact ih pre' post' hI (by omega) (by omega) hl'

end NervesSystem.SafeWalk
