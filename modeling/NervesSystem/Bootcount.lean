import NervesSystem.Installed
import NervesSystem.Outcome
import NervesSystem.Library.Trace

namespace NervesSystem
open Crash

/-- The variables that nerves_runtime asks before `nerves_fw_validated`. -/
def bootcountVars : List String := ["upgrade_available", "bootcount"]

/-- Nothing hides what `nerves_fw_validated` says. -/
def Unmasked (env : Env) : Prop := ∀ n ∈ bootcountVars, env n = none

/-- What may happen on a device that shares its environment: an event, or another party
that sets a variable. -/
inductive Move
  | event (e : Event)
  | other (name value : String)

def move (hush : Hush) (s : State) : Move → State
  | .event e => step hush s e
  | .other name value => { s with media := s.media.setenv name value }

def moves (hush : Hush) (s : State) (ms : List Move) : State := ms.foldl (move hush) s

/-- Whether the device has cleaned the environment since another party last set a variable. -/
def cleaned (hush : Hush) (s : State) (b : Prop) : Move → Prop
  | .event .boot => b ∨ savedEnv hush s.media.env "nerves_fw_validated" = some "0"
  | .event (.fwup (.validate _) none) => True
  | .event _ => b
  | .other _ _ => False

section Boot
variable {hush : Hush} {env : Env} {n : String}

/-- The one branch of `nerves_init` that saves nothing leaves a slot that is validated. -/
theorem savedEnv_unmasked (h : savedEnv hush env "nerves_fw_validated" = some "0") :
    Unmasked (savedEnv hush env) := by
  simp only [Unmasked, bootcountVars, List.forall_mem_cons, List.not_mem_nil, false_implies,
    implies_true, and_true]
  simp only [savedEnv, selection, nervesSelect] at h ⊢
  split_ifs at h ⊢ with hb hv ha
  · simp [UBoot.saveenv, UBoot.setenv] at h
  · have hz : env "nerves_fw_validated" = some "0" := h
    exact absurd (by simp [UBoot.envDelete, UBoot.powerOn, import_eq hz]) hv
  all_goals simp [UBoot.saveenv, UBoot.setenv, UBoot.envDelete, UBoot.powerOn]

theorem savedEnv_bootcount (hn : n ∈ bootcountVars) (h : env n = none) :
    savedEnv hush env n = none := by
  have hn' : n = "upgrade_available" ∨ n = "bootcount" := by simpa [bootcountVars] using hn
  have hr (u : UBoot) (h : u.env n = none) : (nervesRevert hush u).env n = none := by
    unfold nervesRevert
    rcases hn' with rfl | rfl <;> split_ifs <;> simpa [UBoot.setenv] using h
  simp only [savedEnv, selection, nervesSelect]
  split_ifs with hb hv ha
  · have hc : (((UBoot.powerOn env fun _ => none).envDelete "upgrade_available").envDelete
        "bootcount").env n = none := by
      rcases hn' with rfl | rfl <;> simp [UBoot.envDelete]
    rcases hn' with rfl | rfl <;> simpa [UBoot.saveenv, UBoot.setenv] using hr _ hc
  · exact h
  all_goals rcases hn' with rfl | rfl <;> simp [UBoot.saveenv, UBoot.setenv, UBoot.envDelete]

end Boot

section Tasks
variable {n : String} {host : Host} {env : Env} {c : Command} {o : Operation}

/-- The operation gives no value to the variable. -/
def LeavesUnset (n : String) (o : Operation) : Prop :=
  ¬ o.Sets n ∨ o = .ubootUnsetenv n ∨ o = .ubootEnvWrite ubootEnv

theorem LeavesUnset.preserves (h : LeavesUnset n o) (hn : n ∈ bootcountVars) :
    Preserves machine (fun m => m.env n = none) o := by
  rcases h with h | rfl | rfl
  · exact (frames_env h).preserves (· = none)
  · refine ⟨fun m k hm => by rwa [torn_unsetenv], fun m m' hm he => ?_⟩
    cases he
    simp [Media.unsetenv]
  · refine ⟨fun m k hm => ?_, fun m m' hm he => ?_⟩
    · cases k <;> exact hm
    · cases he
      exact (by decide : ∀ n ∈ bootcountVars, ubootEnv.lookup n = none) n hn

theorem operations_leavesUnset (hn : n ∈ bootcountVars) (ho : o ∈ c.operations host env) :
    LeavesUnset n o := by
  have hs : Slot.owner n = none := (by decide : ∀ n ∈ bootcountVars, Slot.owner n = none) n hn
  have hv := fun x v => Slot.var_ne_of_owner (x := x) (v := v) (n := n) (by simp [hs])
  have hne : ∀ w ∈ ["nerves_fw_active", "nerves_fw_validated", "nerves_fw_booted",
      "nerves_serial_number", "nerves_fw_devpath"], w ≠ n := by
    have h : ∀ n ∈ bootcountVars, ∀ w ∈ ["nerves_fw_active", "nerves_fw_validated",
      "nerves_fw_booted", "nerves_serial_number", "nerves_fw_devpath"], w ≠ n := by decide
    exact h n hn
  simp only [List.forall_mem_cons, List.not_mem_nil, false_implies, implies_true, and_true] at hne
  obtain ⟨h1, h2, h3, h4, h5⟩ := hne
  have hp := performs host env c
  generalize c.operations host env = ops at ho hp
  cases hp with
  | refused text => exact .inl (List.mem_singleton.mp ho ▸ id)
  | status O text => exact .inl (List.mem_singleton.mp ho ▸ id)
  | mounted A => exact absurd ho List.not_mem_nil
  | complete A =>
    revert o
    simp [complete_operations, formatOperations, factoryEnvOperations, describeOperations,
      factoryFileOperations, LeavesUnset, Operation.Sets, hv, h1, h4, h5]
  | upgrade A y => exact .inl (upgrade_sets (by simp [hs]) h1.symm h2.symm h3.symm ho)
  | provision A => exact .inl (List.mem_singleton.mp ho ▸ h4)
  | factoryReset O =>
    left
    revert o
    simp [factoryResetOperations, Operation.Sets]
  | preventRevert O y =>
    left
    revert o
    simp [preventRevertOperations, Operation.Sets, hv]
  | revert O x =>
    left
    revert o
    simp [revertOperations, Operation.Sets, h1, h2]
  | validate O =>
    simp only [validateOperations, List.mem_cons, List.not_mem_nil, or_false] at ho
    have hn' : n = "upgrade_available" ∨ n = "bootcount" := by simpa [bootcountVars] using hn
    rcases ho with rfl | rfl | rfl | rfl
    · exact .inl id
    · exact .inl h2
    all_goals rcases hn' with rfl | rfl <;> simp [LeavesUnset, Operation.Sets]

/-- No task adds to the variables of the bootcount scheme. -/
theorem run_unmasked (c : Command) (host : Host) (loss : Option PowerLoss) {m : Media}
    (h : Unmasked m.env) : Unmasked (c.run host loss m).env := by
  intro n hn
  obtain ⟨i, k, hr⟩ := c.exists_run_eq_cut host loss m
  rw [hr]
  exact (Triple.invariant fun o ho => (operations_leavesUnset hn ho).preserves hn).safe m
    (h n hn) i k

end Tasks

section Runs
variable {hush : Hush} {s : State} {b : Prop}

theorem validated_unmasked (m : Media) : Unmasked (validated m).env := by
  simp [Unmasked, bootcountVars, validated, Media.unsetenv]

theorem move_unmasked (h : b → Unmasked s.media.env) (mv : Move) (hb : cleaned hush s b mv) :
    Unmasked (move hush s mv).media.env := by
  cases mv with
  | other name value => exact hb.elim
  | event e =>
    cases e with
    | boot =>
      simp only [move, step, boot_env]
      rcases hb with hb | hb
      · exact fun n hn => savedEnv_bootcount hn (h hb n hn)
      · exact savedEnv_unmasked hb
    | fwup c loss =>
      simp only [move, step]
      by_cases hv : ∃ O, c = .validate O ∧ loss = none
      · obtain ⟨O, rfl, rfl⟩ := hv
        rw [run_validate]
        exact validated_unmasked s.media
      · have hb' : b := by
          unfold cleaned at hb
          split at hb <;> simp_all
        exact run_unmasked c s.host loss (h hb')

/-- Once the device has cleaned the environment it stays clean until another party sets
a variable. -/
theorem moves_unmasked (hush : Hush) (s : State) (ms : List Move)
    (h : Trace.ghost (move hush) (cleaned hush) s False ms) :
    Unmasked (moves hush s ms).media.env := by
  have hms : Trace.Guarded (move hush) (fun _ _ => True) s ms :=
    Trace.Guarded.of_forall fun _ _ _ => trivial
  exact hms.ghost_invariant (J := fun s b => b → Unmasked s.media.env)
    (fun _ _ mv _ hs _ => move_unmasked hs mv) (fun h => h.elim) h

/-- Whatever other parties leave in the environment, no boot on trial is taken for a validated
one: after `nerves_init` it is clean while `nerves_fw_validated` is 0, and after `validate`. -/
theorem bootcount_never_masks (hush : Hush) (s : State) (ms : List Move) :
    ((moves hush s (ms ++ [.event .boot])).media.env "nerves_fw_validated" = some "0" →
      Unmasked (moves hush s (ms ++ [.event .boot])).media.env) ∧
    ∀ O, Unmasked (moves hush s (ms ++ [.event (.fwup (.validate O) none)])).media.env := by
  refine ⟨fun h => moves_unmasked hush s _ ?_, fun O => moves_unmasked hush s _ ?_⟩
  · rw [Trace.ghost_append]
    right
    simpa [moves, move, step] using h
  · rw [Trace.ghost_append]
    trivial

/-- The vendor U-Boot leaves both variables before the first start of an upgrade. -/
example : (moves plainHush sampleState [.event .boot, .event (.fwup (.upgrade sampleArchive) none),
    .other "upgrade_available" "0", .other "bootcount" "1", .event .boot]).media.env
      "upgrade_available" = none := by decide +kernel

end Runs

end NervesSystem
