import Mathlib.Logic.Function.Iterate

namespace NervesSystem.Trial

/-- A machine with several slots starts one of them: a settled slot, or a newly
installed one that has not been started yet (`fresh`), or has been (`tried`)
and must be committed before the next start. -/
inductive Phase (S : Type*)
  | settled (y : S)
  | fresh (x : S)
  | tried (x : S)

inductive Act
  | boot
  | install
  | commit
  | back

namespace Phase
variable {S : Type*} (other : S → S)

def active : Phase S → S
  | settled y => y
  | fresh x => x
  | tried x => x

def boot : Phase S → Phase S
  | settled y => settled y
  | fresh x => tried x
  | tried x => settled (other x)

/-- The slot that the next boot starts. -/
def next (p : Phase S) : S := (p.boot other).active

def act : Act → Phase S → Phase S
  | .boot, p => p.boot other
  | .install, settled y => fresh (other y)
  | .install, p => p
  | .commit, p => settled p.active
  | .back, p => settled (other p.active)

/-- Slots started over a run, in order. -/
def starts : Phase S → List Act → List S
  | _, [] => []
  | p, .boot :: as => p.next other :: starts (p.act other .boot) as
  | p, a :: as => starts (p.act other a) as

variable {other}

@[simp] theorem next_settled (y : S) : (settled y).next other = y := rfl
@[simp] theorem next_fresh (x : S) : (fresh x).next other = x := rfl
@[simp] theorem next_tried (x : S) : (tried x).next other = other x := rfl

/-- Boots alone never leave the slot that they settled on. -/
theorem boot_iterate_settled (y : S) (n : ℕ) : (boot other)^[n] (settled y) = settled y := by
  induction n with
  | zero => rfl
  | succ n ih => rw [Function.iterate_succ_apply, boot, ih]

/-- An installation that nobody commits is started once; from the second boot
on the machine is back where it was. -/
theorem boot_iterate_install (h : Function.Involutive other) (y : S) (n : ℕ) :
    (boot other)^[n + 2] ((settled y).act other .install) = settled y := by
  rw [Function.iterate_add_apply]
  simp only [act, Function.iterate_succ, Function.iterate_zero, Function.comp_apply, id_eq, boot,
    h y, boot_iterate_settled]

/-- The act neither commits to `x`, nor goes back to it, nor installs it anew. -/
def Spares (other : S → S) (x : S) (p : Phase S) : Act → Prop
  | .boot => True
  | .install => ∀ y, p = settled y → other y ≠ x
  | .commit => p.active ≠ x
  | .back => other p.active ≠ x

/-- Every act of the run spares `x` in the phase it meets. -/
def Spared (other : S → S) (x : S) : Phase S → List Act → Prop
  | _, [] => True
  | p, a :: as => p.Spares other x a ∧ Spared other x (p.act other a) as

/-- The phase at the end of a run. -/
def acts (other : S → S) (p : Phase S) (as : List Act) : Phase S :=
  as.foldl (fun p a => p.act other a) p

theorem starts_append (p : Phase S) (as bs : List Act) :
    p.starts other (as ++ bs) = p.starts other as ++ (p.acts other as).starts other bs := by
  induction as generalizing p with
  | nil => rfl
  | cons a as ih => cases a <;> simp [starts, ih, acts]

theorem spared_append {x : S} (p : Phase S) (as bs : List Act) :
    p.Spared other x (as ++ bs) ↔ p.Spared other x as ∧ (p.acts other as).Spared other x bs := by
  induction as generalizing p with
  | nil => simp [Spared, acts]
  | cons a as ih => simp [Spared, ih, acts, and_assoc]

variable [DecidableEq S]

theorem count_starts_settled {x y : S} (hxy : y ≠ x) (hx : ∀ z, z ≠ x → other z = x)
    {as : List Act} (h : Spared other x (settled y) as) :
    ((settled y).starts other as).count x = 0 := by
  induction as with
  | nil => rfl
  | cons a as ih =>
    obtain ⟨ha, has⟩ := h
    cases a with
    | boot =>
      rw [starts, next_settled, List.count_cons_of_ne hxy]
      exact ih has
    -- From any slot but `x` an installation or a way back would lead to `x`.
    | install => exact absurd (hx y hxy) (ha y rfl)
    | commit => exact ih has
    | back => exact absurd (hx y hxy) ha

theorem count_starts_tried {x : S} (hx : ∀ z, z ≠ x → other z = x) (hne : other x ≠ x)
    {as : List Act} (h : Spared other x (tried x) as) :
    ((tried x).starts other as).count x = 0 := by
  induction as with
  | nil => rfl
  | cons a as ih =>
    obtain ⟨ha, has⟩ := h
    cases a with
    | boot =>
      rw [starts, next_tried, List.count_cons_of_ne hne]
      exact count_starts_settled hne hx has
    | install => exact ih has
    | commit => exact absurd rfl ha
    | back => exact count_starts_settled hne hx has

/-- With two slots, an installation that is neither committed nor gone back to
is started at most once, whatever else happens. -/
theorem count_starts_fresh {x : S} (hx : ∀ z, z ≠ x → other z = x) (hne : other x ≠ x)
    {as : List Act} (h : Spared other x (fresh x) as) :
    ((fresh x).starts other as).count x ≤ 1 := by
  induction as with
  | nil => simp [starts]
  | cons a as ih =>
    obtain ⟨ha, has⟩ := h
    cases a with
    | boot =>
      have ht : ((tried x).starts other as).count x = 0 := count_starts_tried hx hne has
      rw [starts, next_fresh, List.count_cons_self]
      exact Nat.succ_le_succ (Nat.le_of_eq ht)
    | install => exact ih has
    | commit => exact absurd rfl ha
    | back =>
      have ht : ((settled (other x)).starts other as).count x = 0 :=
        count_starts_settled hne hx has
      exact Nat.le_trans (Nat.le_of_eq ht) (Nat.zero_le 1)

end Phase

end NervesSystem.Trial
