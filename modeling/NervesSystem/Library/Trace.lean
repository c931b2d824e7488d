import Mathlib.Data.List.Basic

namespace NervesSystem.Trace

variable {σ ε γ : Type*}

/-- Every event of the run is admitted in the state it meets. -/
def Guarded (step : σ → ε → σ) (ok : σ → ε → Prop) : σ → List ε → Prop
  | _, [] => True
  | s, e :: es => ok s e ∧ Guarded step ok (step s e) es

/-- A value carried along a run that the run itself does not depend on. -/
def ghost (step : σ → ε → σ) (upd : σ → γ → ε → γ) : σ → γ → List ε → γ
  | _, g, [] => g
  | s, g, e :: es => ghost step upd (step s e) (upd s g e) es

/-- What the events of a run put out, in their order. -/
def emitted (step : σ → ε → σ) (out : σ → ε → List γ) : σ → List ε → List γ
  | _, [] => []
  | s, e :: es => out s e ++ emitted step out (step s e) es

variable {step : σ → ε → σ} {ok ok' : σ → ε → Prop} {I : σ → Prop}
  {upd : σ → γ → ε → γ} {J : σ → γ → Prop} {out : σ → ε → List γ} {K : σ → List γ → Prop}

theorem Guarded.imp (h : ∀ s e, ok s e → ok' s e) {s : σ} {es : List ε}
    (hes : Guarded step ok s es) : Guarded step ok' s es := by
  induction es generalizing s with
  | nil => trivial
  | cons e es ih => exact ⟨h s e hes.1, ih hes.2⟩

/-- A guard on single events alone is a guard on their states as well. -/
theorem Guarded.of_forall {es : List ε} {s : σ} (h : ∀ e ∈ es, ∀ s, ok s e) :
    Guarded step ok s es := by
  induction es generalizing s with
  | nil => trivial
  | cons e es ih =>
    exact ⟨h e (by simp) s, ih fun e' he' => h e' (by simp [he'])⟩

theorem Guarded.append {s : σ} {es fs : List ε} :
    Guarded step ok s (es ++ fs) ↔
      Guarded step ok s es ∧ Guarded step ok (es.foldl step s) fs := by
  induction es generalizing s with
  | nil => simp [Guarded]
  | cons e es ih => simp only [List.cons_append, Guarded, ih, List.foldl_cons, and_assoc]

/-- What holds at the start and survives every admitted event of the run holds at the end. -/
theorem Guarded.invariant {s : σ} {es : List ε}
    (hstep : ∀ s, ∀ e ∈ es, I s → ok s e → I (step s e)) (hes : Guarded step ok s es)
    (hs : I s) : I (es.foldl step s) := by
  induction es generalizing s with
  | nil => exact hs
  | cons e es ih =>
    exact ih (fun s e' he' => hstep s e' (by simp [he'])) hes.2 (hstep s e (by simp) hs hes.1)

theorem ghost_append {s : σ} {g : γ} {es fs : List ε} : ghost step upd s g (es ++ fs) =
    ghost step upd (es.foldl step s) (ghost step upd s g es) fs := by
  induction es generalizing s g with
  | nil => rfl
  | cons e es ih => exact ih

/-- What ties the ghost value to the state at the start ties it at the end. -/
theorem Guarded.ghost_invariant {s : σ} {g : γ} {es : List ε}
    (hstep : ∀ s g, ∀ e ∈ es, J s g → ok s e → J (step s e) (upd s g e))
    (hes : Guarded step ok s es) (hs : J s g) : J (es.foldl step s) (ghost step upd s g es) := by
  induction es generalizing s g with
  | nil => exact hs
  | cons e es ih =>
    exact ih (fun s g e' he' => hstep s g e' (by simp [he'])) hes.2
      (hstep s g e (by simp) hs hes.1)

/-- What ties the state to the outputs so far, kept by every admitted event, ties them at the
end. -/
theorem Guarded.emitted_invariant {s : σ} {os : List γ} {es : List ε}
    (hstep : ∀ s os, ∀ e ∈ es, K s os → ok s e → K (step s e) (os ++ out s e))
    (hes : Guarded step ok s es) (hs : K s os) :
    K (es.foldl step s) (os ++ emitted step out s es) := by
  induction es generalizing s os with
  | nil => simpa [emitted] using hs
  | cons e es ih =>
    have h := ih (fun s os e' he' => hstep s os e' (by simp [he'])) hes.2
      (hstep s os e (by simp) hs hes.1)
    simpa [emitted] using h

/-- `Guarded.emitted_invariant` where every event is admitted. -/
theorem emitted_invariant {s : σ} {os : List γ} {es : List ε}
    (hstep : ∀ s os, ∀ e ∈ es, K s os → K (step s e) (os ++ out s e)) (hs : K s os) :
    K (es.foldl step s) (os ++ emitted step out s es) := by
  have hes : Guarded step (fun _ _ => True) s es := .of_forall fun _ _ _ => trivial
  exact hes.emitted_invariant (fun s os e he hk _ => hstep s os e he hk) hs

/-- Where every event lessens the work that is left, and no work is left only at rest, a run that is
long enough ends at rest. -/
theorem comes_to_rest (step : σ → ε → σ) (es : List ε) {rest : σ → Prop} {work : σ → ℕ} {s : σ}
    (hstep : ∀ s, ∀ e ∈ es, I s → I (step s e))
    (hrest : ∀ s, ∀ e ∈ es, I s → rest s → rest (step s e))
    (hwork : ∀ s, ∀ e ∈ es, I s → ¬rest s → work (step s e) < work s)
    (hzero : ∀ s, I s → work s = 0 → rest s) (hs : I s)
    (hlen : work s ≤ es.length ∨ rest s) :
    I (es.foldl step s) ∧ rest (es.foldl step s) := by
  induction es generalizing s with
  | nil =>
    refine ⟨hs, hlen.elim (fun hle => hzero s hs (Nat.le_zero.mp hle)) id⟩
  | cons e es ih =>
    apply ih (fun s e' he' => hstep s e' (by simp [he']))
      (fun s e' he' => hrest s e' (by simp [he'])) (fun s e' he' => hwork s e' (by simp [he']))
      (hstep s e (by simp) hs)
    by_cases hr : rest s
    · exact .inr (hrest s e (by simp) hs hr)
    · left
      have hless := hwork s e (by simp) hs hr
      have hle := hlen.resolve_right hr
      rw [List.length_cons] at hle
      omega

/-- A map of states that commutes with every event of a run commutes with the run. -/
theorem foldl_semiconj {g : σ → σ} {s : σ} {es : List ε}
    (hI : ∀ s, ∀ e ∈ es, I s → I (step s e))
    (hg : ∀ s, ∀ e ∈ es, I s → step (g s) e = g (step s e)) (hs : I s) :
    es.foldl step (g s) = g (es.foldl step s) := by
  induction es generalizing s with
  | nil => rfl
  | cons e es ih =>
    rw [List.foldl_cons, hg s e (by simp) hs, List.foldl_cons]
    exact ih (fun s e' he' => hI s e' (by simp [he'])) (fun s e' he' => hg s e' (by simp [he']))
      (hI s e (by simp) hs)

end NervesSystem.Trace
