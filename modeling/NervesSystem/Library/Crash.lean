import Mathlib.Data.List.Basic
import Mathlib.Logic.Function.Basic

namespace NervesSystem.Crash

/-- Operations on a durable state. An operation that fails changes nothing;
`torn o k s` is what remains when power is lost `k` units into `o`. -/
structure Machine (σ ω ε : Type*) where
  exec : ω → σ → Except ε σ
  torn : ω → ℕ → σ → σ

variable {σ ω ε : Type*} (M : Machine σ ω ε)

/-- Execute in order up to the first failure, which is reported. -/
def perform : List ω → σ → σ × Option ε
  | [], s => (s, none)
  | o :: os, s =>
    match M.exec o s with
    | .ok s' => perform os s'
    | .error e => (s, some e)

/-- The state left when power is lost `k` units into operation number `n`. -/
def cut : List ω → ℕ → ℕ → σ → σ
  | [], _, _, s => s
  | o :: _, 0, k, s => M.torn o k s
  | o :: os, n + 1, k, s =>
    match M.exec o s with
    | .ok s' => cut os n k s'
    | .error _ => s

variable {M}

@[simp] theorem perform_nil (s : σ) : perform M [] s = (s, none) := rfl

theorem perform_cons_ok {o : ω} {s s' : σ} (h : M.exec o s = .ok s') (os : List ω) :
    perform M (o :: os) s = perform M os s' := by
  simp only [perform, h]

theorem perform_cons_error {o : ω} {s : σ} {e : ε} (h : M.exec o s = .error e) (os : List ω) :
    perform M (o :: os) s = (s, some e) := by
  simp only [perform, h]

theorem perform_cons_none {o : ω} {os : List ω} {s t : σ} :
    perform M (o :: os) s = (t, none) ↔
      ∃ u, M.exec o s = .ok u ∧ perform M os u = (t, none) := by
  cases h : M.exec o s <;> simp [perform, h]

@[simp] theorem cut_nil (n k : ℕ) (s : σ) : cut M [] n k s = s := by cases n <;> rfl

@[simp] theorem cut_zero (o : ω) (os : List ω) (k : ℕ) (s : σ) :
    cut M (o :: os) 0 k s = M.torn o k s := rfl

theorem cut_succ_ok {o : ω} {s s' : σ} (h : M.exec o s = .ok s') (os : List ω) (n k : ℕ) :
    cut M (o :: os) (n + 1) k s = cut M os n k s' := by
  simp only [cut, h]

theorem cut_succ_error {o : ω} {s : σ} {e : ε} (h : M.exec o s = .error e) (os : List ω)
    (n k : ℕ) : cut M (o :: os) (n + 1) k s = s := by
  simp only [cut, h]

/-- A run that power does not interrupt is a cut past its last operation. -/
theorem perform_fst (ops : List ω) (n k : ℕ) (hn : ops.length ≤ n) (s : σ) :
    (perform M ops s).1 = cut M ops n k s := by
  induction ops generalizing n s with
  | nil => simp
  | cons o os ih =>
    obtain ⟨n, rfl⟩ : ∃ m, n = m + 1 := ⟨n - 1, by simp at hn; omega⟩
    cases h : M.exec o s with
    | ok s' =>
      rw [perform_cons_ok h, cut_succ_ok h]
      exact ih n (by simpa using hn) s'
    | error e => rw [perform_cons_error h, cut_succ_error h]

theorem perform_append (xs ys : List ω) (s : σ) :
    perform M (xs ++ ys) s =
      match perform M xs s with
      | (s', none) => perform M ys s'
      | (s', some e) => (s', some e) := by
  induction xs generalizing s with
  | nil => rfl
  | cons o os ih =>
    cases h : M.exec o s with
    | ok s' => simp only [List.cons_append, perform_cons_ok h, ih]
    | error e => simp only [List.cons_append, perform_cons_error h]

theorem perform_append_none {xs ys : List ω} {s t : σ} :
    perform M (xs ++ ys) s = (t, none) ↔
      ∃ u, perform M xs s = (u, none) ∧ perform M ys u = (t, none) := by
  rw [perform_append]
  rcases perform M xs s with ⟨u, _ | e⟩ <;> simp

/-- Power is lost in the first part, or the first part fails, or it is lost
in the second part after the first took effect as a whole. -/
theorem cut_append (xs ys : List ω) (n k : ℕ) (s : σ) :
    cut M (xs ++ ys) n k s =
      if n < xs.length then cut M xs n k s
      else match perform M xs s with
        | (s', none) => cut M ys (n - xs.length) k s'
        | (s', some _) => s' := by
  induction xs generalizing n s with
  | nil => simp
  | cons o os ih =>
    cases n with
    | zero => simp
    | succ n =>
      cases h : M.exec o s with
      | ok s' =>
        simp only [List.cons_append, cut_succ_ok h, perform_cons_ok h, ih, List.length_cons,
          Nat.add_lt_add_iff_right, Nat.add_sub_add_right]
      | error e =>
        simp only [List.cons_append, cut_succ_error h, perform_cons_error h, ite_self]

/-- What stops within the first part leaves the second part out of account. -/
theorem cut_append_left (h0 : ∀ o s, M.torn o 0 s = s) {xs : List ω} {n : ℕ} {s : σ}
    (h : n ≤ xs.length ∨ (perform M xs s).2 ≠ none) (ys : List ω) :
    ∃ j, cut M (xs ++ ys) n 0 s = cut M xs j 0 s := by
  rw [cut_append]
  split_ifs with hn
  · exact ⟨n, rfl⟩
  · refine ⟨xs.length, ?_⟩
    rw [← perform_fst xs xs.length 0 (Nat.le_refl _) s]
    rcases hp : perform M xs s with ⟨t, _ | e⟩
    · obtain rfl : n = xs.length := by
        rcases h with h | h
        · omega
        · exact absurd (congrArg Prod.snd hp) h
      -- The cut falls between the two parts, where nothing is torn.
      cases ys with
      | nil => simp
      | cons o ys => simp [h0]
    · rfl

/-- Every operation that is reached finds what it asks for. -/
def Finds (M : Machine σ ω ε) (Q : ω → σ → Prop) : List ω → σ → Prop
  | [], _ => True
  | o :: os, s => Q o s ∧ ∀ s', M.exec o s = .ok s' → Finds M Q os s'

namespace Finds
variable {Q : ω → σ → Prop} {ops xs ys : List ω} {s : σ}

theorem of_forall (h : ∀ o ∈ ops, ∀ s, Q o s) : Finds M Q ops s := by
  induction ops generalizing s with
  | nil => trivial
  | cons o os ih => exact ⟨h o (by simp) s, fun _ _ => ih fun p hp => h p (by simp [hp])⟩

theorem append (hx : Finds M Q xs s)
    (hy : ∀ s', perform M xs s = (s', none) → Finds M Q ys s') : Finds M Q (xs ++ ys) s := by
  induction xs generalizing s with
  | nil => exact hy s rfl
  | cons o os ih =>
    exact ⟨hx.1, fun s' he => ih (hx.2 s' he) fun t ht => hy t ((perform_cons_ok he os).trans ht)⟩

end Finds

/-- `P` before, `Q` after an uninterrupted run, and `C` at every point where
power may be lost or an operation may fail. -/
structure Triple (M : Machine σ ω ε) (P : σ → Prop) (ops : List ω) (Q C : σ → Prop) : Prop where
  safe : ∀ s, P s → ∀ n k, C (cut M ops n k s)
  post : ∀ s s', P s → perform M ops s = (s', none) → Q s'

/-- `I` survives the operation, whole or torn. -/
structure Preserves (M : Machine σ ω ε) (I : σ → Prop) (o : ω) : Prop where
  torn : ∀ s k, I s → I (M.torn o k s)
  exec : ∀ s s', I s → M.exec o s = .ok s' → I s'

namespace Triple
variable {P Q R C : σ → Prop} {o : ω} {xs ys os : List ω}

theorem nil (hC : ∀ s, P s → C s) : Triple M P [] P C where
  safe s hs n k := by simpa using hC s hs
  post s s' hs h := by
    obtain rfl : s = s' := by simpa using h
    exact hs

theorem cons (hC : ∀ s, P s → C s) (htorn : ∀ s k, P s → C (M.torn o k s))
    (hexec : ∀ s s', P s → M.exec o s = .ok s' → R s') (h : Triple M R os Q C) :
    Triple M P (o :: os) Q C where
  safe s hs n k := by
    cases n with
    | zero => exact htorn s k hs
    | succ n =>
      cases ho : M.exec o s with
      | ok s' => rw [cut_succ_ok ho]; exact h.safe s' (hexec s s' hs ho) n k
      | error e => rw [cut_succ_error ho]; exact hC s hs
  post s s' hs hp := by
    cases ho : M.exec o s with
    | ok s'' => rw [perform_cons_ok ho] at hp; exact h.post s'' s' (hexec s s'' hs ho) hp
    | error e => simp [perform_cons_error ho] at hp

theorem append (h : Triple M P xs R C) (h' : Triple M R ys Q C) :
    Triple M P (xs ++ ys) Q C where
  safe s hs n k := by
    rw [cut_append]
    split_ifs with hn
    · exact h.safe s hs n k
    · rcases hp : perform M xs s with ⟨s', _ | e⟩
      · exact h'.safe s' (h.post s s' hs hp) _ k
      -- A first part that failed left what a cut at its end leaves.
      · have hf : s' = cut M xs xs.length 0 s := by
          rw [← perform_fst xs xs.length 0 (Nat.le_refl _) s, hp]
        simpa only [hf] using h.safe s hs xs.length 0
  post s s' hs hp := by
    obtain ⟨u, hu, hs'⟩ := perform_append_none.mp hp
    exact h'.post u s' (h.post s u hs hu) hs'

theorem imp {P' Q' C' : σ → Prop} (h : Triple M P os Q C) (hP : ∀ s, P' s → P s)
    (hQ : ∀ s, Q s → Q' s) (hC : ∀ s, C s → C' s) : Triple M P' os Q' C' where
  safe s hs n k := hC _ (h.safe s (hP s hs) n k)
  post s s' hs hp := hQ s' (h.post s s' (hP s hs) hp)

theorem and {P' Q' C' : σ → Prop} (h : Triple M P os Q C) (h' : Triple M P' os Q' C') :
    Triple M (fun s => P s ∧ P' s) os (fun s => Q s ∧ Q' s) (fun s => C s ∧ C' s) where
  safe s hs n k := ⟨h.safe s hs.1 n k, h'.safe s hs.2 n k⟩
  post s s' hs hp := ⟨h.post s s' hs.1 hp, h'.post s s' hs.2 hp⟩

/-- An invariant of every operation holds at every cut and at the end. -/
theorem invariant {I : σ → Prop} (h : ∀ o ∈ os, Preserves M I o) : Triple M I os I I := by
  induction os with
  | nil => exact nil fun _ hs => hs
  | cons o os ih =>
    have ho := h o (by simp)
    exact cons (fun _ hs => hs) (fun s k hs => ho.torn s k hs) ho.exec
      (ih fun p hp => h p (by simp [hp]))

end Triple

theorem Finds.invariant {Q : ω → σ → Prop} {I : σ → Prop} {ops : List ω} {s : σ}
    (hQ : ∀ o s, I s → Q o s) (h : ∀ o ∈ ops, Preserves M I o) (hs : I s) :
    Finds M Q ops s := by
  induction ops generalizing s with
  | nil => trivial
  | cons o os ih =>
    exact ⟨hQ o s hs, fun s' he => ih (fun p hp => h p (by simp [hp]))
      ((h o (by simp)).exec s s' hs he)⟩

theorem Preserves.and {I J : σ → Prop} {o : ω} (hI : Preserves M I o) (hJ : Preserves M J o) :
    Preserves M (fun s => I s ∧ J s) o where
  torn s k hs := ⟨hI.torn s k hs.1, hJ.torn s k hs.2⟩
  exec s s' hs h := ⟨hI.exec s s' hs.1 h, hJ.exec s s' hs.2 h⟩

/-- The operation never changes the part `f` of the state. -/
structure Frames (M : Machine σ ω ε) {α : Type*} (f : σ → α) (o : ω) : Prop where
  torn : ∀ s k, f (M.torn o k s) = f s
  exec : ∀ s s', M.exec o s = .ok s' → f s' = f s

section Frame
variable {α : Type*} {f : σ → α} {ops : List ω}

theorem Frames.preserves {o : ω} (h : Frames M f o) (p : α → Prop) :
    Preserves M (fun s => p (f s)) o where
  torn s k hs := by simpa only [h.torn] using hs
  exec s s' hs he := by simpa only [h.exec s s' he] using hs

theorem cut_frame (h : ∀ o ∈ ops, Frames M f o) (n k : ℕ) (s : σ) :
    f (cut M ops n k s) = f s :=
  (Triple.invariant fun o ho => (h o ho).preserves (· = f s)).safe s rfl n k

theorem perform_frame (h : ∀ o ∈ ops, Frames M f o) (s : σ) :
    f (perform M ops s).1 = f s := by
  rw [perform_fst ops ops.length 0 (Nat.le_refl _)]
  exact cut_frame h _ _ s

end Frame

section Symmetry
variable (φ : ω → ω) (g : σ → σ)

/-- `g` on states turns the operation `o` into `φ o`. -/
structure Equivariant (M : Machine σ ω ε) (o : ω) : Prop where
  torn : ∀ s k, M.torn (φ o) k (g s) = g (M.torn o k s)
  exec : ∀ s, M.exec (φ o) (g s) = (M.exec o s).map g

variable {φ g}

theorem cut_map {ops : List ω} (h : ∀ o ∈ ops, Equivariant φ g M o) (n k : ℕ) (s : σ) :
    cut M (ops.map φ) n k (g s) = g (cut M ops n k s) := by
  induction ops generalizing n s with
  | nil => simp
  | cons o os ih =>
    have ho := h o (by simp)
    cases n with
    | zero => simpa using ho.torn s k
    | succ n =>
      cases he : M.exec o s with
      | ok s' =>
        have he' : M.exec (φ o) (g s) = .ok (g s') := by rw [ho.exec, he]; rfl
        rw [List.map_cons, cut_succ_ok he', cut_succ_ok he]
        exact ih (fun p hp => h p (by simp [hp])) n s'
      | error e =>
        have he' : M.exec (φ o) (g s) = .error e := by rw [ho.exec, he]; rfl
        rw [List.map_cons, cut_succ_error he', cut_succ_error he]

theorem perform_map {ops : List ω} (h : ∀ o ∈ ops, Equivariant φ g M o) (s : σ) :
    perform M (ops.map φ) (g s) = (g (perform M ops s).1, (perform M ops s).2) := by
  induction ops generalizing s with
  | nil => rfl
  | cons o os ih =>
    have ho := h o (by simp)
    cases he : M.exec o s with
    | ok s' =>
      have he' : M.exec (φ o) (g s) = .ok (g s') := by rw [ho.exec, he]; rfl
      rw [List.map_cons, perform_cons_ok he', perform_cons_ok he]
      exact ih (fun p hp => h p (by simp [hp])) s'
    | error e =>
      have he' : M.exec (φ o) (g s) = .error e := by rw [ho.exec, he]; rfl
      rw [List.map_cons, perform_cons_error he', perform_cons_error he]

end Symmetry

end NervesSystem.Crash
