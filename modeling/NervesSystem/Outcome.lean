import NervesSystem.Upgrade
import NervesSystem.Boot

namespace NervesSystem
open Crash

section Effect
variable (x : Slot) (m : Media)

def reverted : Media :=
  ((m.setenv "nerves_fw_active" x.name).setenv "nerves_fw_validated" "1").fatPut
    extlinuxPath (some (.conf (extlinux x)))

def preventReverted : Media :=
  ({ (m.unsetenv (x.var "nerves_fw_platform")).unsetenv (x.var "nerves_fw_architecture") with
    raw := Function.update m.raw (.rootfs x)
      (m.discarded (m.raw (.rootfs x)).length (m.raw (.rootfs x))) }.fatPut x.image none).fatPut
        x.dtb none

def validated : Media :=
  ((m.setenv "nerves_fw_validated" "1").unsetenv "upgrade_available").unsetenv "bootcount"

theorem perform_revert : perform machine (revertOperations x) m = (reverted x m, none) := rfl

theorem perform_preventRevert :
    perform machine (preventRevertOperations x) m = (preventReverted x m, none) := rfl

theorem perform_validate : perform machine validateOperations m = (validated m, none) := rfl

end Effect

section Outcome
variable {A : Archive} {O : OpsArchive} {host : Host} {m : Media} {x y : Slot}

/-- `-t upgrade` reports no failure just when its gate is open and its deltas apply. -/
theorem upgrade_failure : (Command.upgrade A).failure host m = none ↔
    ∃ y, Gate A y m.env ∧ A.Applies y.other m := by
  by_cases hg : ∃ y, Gate A y m.env
  · obtain ⟨y, hy⟩ := hg
    have ho := operations_upgrade host hy
    rw [Command.failure_eq (by simp [ho, upgradeOperations, clearOperations]), ho]
    constructor
    · intro h
      exact ⟨y, hy, (perform_upgrade.mp (Prod.ext rfl h)).1⟩
    · rintro ⟨y', hy', h⟩
      obtain rfl := hy.eq hy'
      exact congrArg Prod.snd (perform_upgrade.mpr ⟨h, rfl⟩)
  · obtain ⟨text, ho⟩ := operations_upgrade_refused host (not_exists.mp hg)
    rw [Command.failure_eq (by simp [ho]), ho, perform_error]
    exact ⟨fun h => by simp at h, fun h => absurd (h.imp fun _ hy => hy.1) hg⟩

theorem run_upgrade (host : Host) (hg : Gate A y m.env) (h : A.Applies y.other m) :
    (Command.upgrade A).run host none m = upgraded A y.other m := by
  rw [Command.run_none, operations_upgrade host hg]
  exact congrArg Prod.fst (perform_upgrade.mpr ⟨h, rfl⟩)

theorem run_upgrade_refused (hg : ∀ y, ¬ Gate A y m.env) (loss : Option PowerLoss) :
    (Command.upgrade A).run host loss m = m := by
  obtain ⟨text, ho⟩ := operations_upgrade_refused host hg
  obtain ⟨n, k, hc⟩ := (Command.upgrade A).exists_run_eq_cut host loss m
  rw [hc, ho, cut_error]

/-- An upgrade that comes to its end without an effect on the selection has failed. -/
theorem run_upgrade_failed (h : (Command.upgrade A).failure host m ≠ none) :
    ((Command.upgrade A).run host none m).triple = m.triple := by
  by_cases hg : ∃ y, Gate A y m.env
  · obtain ⟨y, hy⟩ := hg
    have hna : ¬ A.Applies y.other m := fun ha => h (upgrade_failure.mpr ⟨y, hy, ha⟩)
    rw [Command.run_none, operations_upgrade host hy, upgradeOperations_eq, perform_append]
    have ht := perform_frame (fun _ ho => body_frames_triple (A := A) (x := y.other) ho) m
    -- Only the switch at the end changes the selection, and it is not reached.
    rcases hp : perform machine (bodyOperations A y.other) m with ⟨u, _ | e⟩
    · exact absurd (perform_body.mp hp).1 hna
    · rwa [hp] at ht
  · rw [run_upgrade_refused (not_exists.mp hg)]

theorem revert_failure :
    (Command.revert O).failure host m = none ↔ ∃ x, RevertGate O x m.env := by
  by_cases hg : ∃ x, RevertGate O x m.env
  · obtain ⟨x, hx⟩ := hg
    rw [Command.failure_eq (by simp [operations_revert host hx, revertOperations]),
      operations_revert host hx, perform_revert]
    exact ⟨fun _ => ⟨x, hx⟩, fun _ => rfl⟩
  · obtain ⟨text, ho⟩ := operations_revert_refused host (not_exists.mp hg)
    rw [Command.failure_eq (by simp [ho]), ho, perform_error]
    exact ⟨fun h => by simp at h, fun h => absurd h hg⟩

theorem run_revert (hg : RevertGate O x m.env) :
    (Command.revert O).run host none m = reverted x m := by
  rw [Command.run_none, operations_revert host hg, perform_revert]

theorem run_revert_refused (hg : ∀ x, ¬ RevertGate O x m.env) (loss : Option PowerLoss) :
    (Command.revert O).run host loss m = m := by
  obtain ⟨text, ho⟩ := operations_revert_refused host hg
  obtain ⟨n, k, hc⟩ := (Command.revert O).exists_run_eq_cut host loss m
  rw [hc, ho, cut_error]

theorem run_preventRevert (h : m.env "nerves_fw_active" = some y.name) :
    (Command.preventRevert O).run host none m = preventReverted y.other m := by
  rw [Command.run_none, operations_preventRevert O host h, perform_preventRevert]

theorem run_validate : (Command.validate O).run host none m = validated m := by
  rw [Command.run_none, operations_validate, perform_validate]

theorem upgraded_triple : (upgraded A x m).triple = (some x.name, some "0", some "0") := by
  simp [upgraded, switched, Media.triple, Media.setenv]

theorem reverted_triple : (reverted x m).triple =
    (some x.name, some "1", m.env "nerves_fw_booted") := by
  simp [reverted, Media.triple, Media.setenv, Media.fatPut]

theorem validated_triple : (validated m).triple =
    (m.env "nerves_fw_active", some "1", m.env "nerves_fw_booted") := by
  simp [validated, Media.triple, Media.setenv, Media.unsetenv]

theorem preventReverted_triple : (preventReverted x m).triple = m.triple := by
  simp [preventReverted, Media.triple, Media.unsetenv, Media.fatPut]

end Outcome

section Reach
variable {host : Host} {env : Env} {c : Command} {o : Operation} {n : String}

/-- The variables outside the slots that tasks other than `complete` may set. -/
def taskVars : List String :=
  ["nerves_fw_active", "nerves_fw_validated", "nerves_fw_booted", "nerves_serial_number",
    "upgrade_available", "bootcount"]

theorem operations_sets (hc : ∀ A, c ≠ .complete A) (ho : o ∈ c.operations host env)
    (hn : Slot.owner n = none) (ht : n ∉ taskVars) : ¬ o.Sets n := by
  have hv := fun x v => Slot.var_ne_of_owner (x := x) (v := v) (n := n) (by simp [hn])
  simp only [taskVars, List.mem_cons, List.not_mem_nil, or_false, not_or] at ht
  obtain ⟨h1, h2, h3, h4, h5, h6⟩ := ht
  have hp := performs host env c
  generalize c.operations host env = ops at ho hp
  cases hp with
  | refused text => exact List.mem_singleton.mp ho ▸ id
  | status O text => exact List.mem_singleton.mp ho ▸ id
  | mounted A => exact absurd rfl (hc A)
  | complete A => exact absurd rfl (hc A)
  | upgrade A y hy => exact upgrade_sets (by simp [hn]) h1 h2 h3 ho
  | provision A => exact List.mem_singleton.mp ho ▸ Ne.symm h4
  | factoryReset O =>
    revert o
    simp [factoryResetOperations, Operation.Sets]
  | preventRevert O y hy =>
    revert o
    simp [preventRevertOperations, Operation.Sets, hv]
  | revert O x hx =>
    revert o
    simp [revertOperations, Operation.Sets, Ne.symm h1, Ne.symm h2]
  | validate O =>
    revert o
    simp [validateOperations, Operation.Sets, Ne.symm h2, Ne.symm h5, Ne.symm h6]

/-- No task but `complete` changes any other variable outside the slots. -/
theorem run_env (hc : ∀ A, c ≠ .complete A) (hn : Slot.owner n = none) (ht : n ∉ taskVars)
    (loss : Option PowerLoss) (m : Media) : (c.run host loss m).env n = m.env n := by
  obtain ⟨k, l, h⟩ := c.exists_run_eq_cut host loss m
  rw [h]
  exact cut_frame (f := fun m : Media => m.env n)
    (fun _ ho => frames_env (operations_sets hc ho hn ht)) k l m

theorem operations_active (hc : ∀ A, c ≠ .complete A) (ho : o ∈ c.operations host env) :
    (∃ x : Slot, o = .ubootSetenv "nerves_fw_active" x.name) ∨ ¬ o.Sets "nerves_fw_active" := by
  have hp := performs host env c
  generalize c.operations host env = ops at ho hp
  cases hp with
  | refused text => exact .inr (List.mem_singleton.mp ho ▸ id)
  | status O text => exact .inr (List.mem_singleton.mp ho ▸ id)
  | mounted A => exact absurd rfl (hc A)
  | complete A => exact absurd rfl (hc A)
  | upgrade A y hy =>
    rcases List.mem_append.mp ho with ho | ho
    · exact .inr (body_sets (by simp) ho)
    · simp only [switchOperations, List.mem_cons, List.not_mem_nil, or_false] at ho
      rcases ho with rfl | rfl | rfl
      · exact .inl ⟨y.other, rfl⟩
      · exact .inr (by simp [Operation.Sets])
      · exact .inr (by simp [Operation.Sets])
  | provision A => exact .inr (by simp [List.mem_singleton.mp ho, Operation.Sets])
  | factoryReset O =>
    right
    revert o
    simp [factoryResetOperations, Operation.Sets]
  | preventRevert O y hy =>
    right
    revert o
    simp [preventRevertOperations, Operation.Sets]
  | revert O x hx =>
    simp only [revertOperations, List.mem_cons, List.not_mem_nil, or_false] at ho
    rcases ho with rfl | rfl | rfl | rfl
    · exact .inr id
    · exact .inl ⟨x, rfl⟩
    · exact .inr (by simp [Operation.Sets])
    · exact .inr id
  | validate O =>
    right
    revert o
    simp [validateOperations, Operation.Sets]

/-- A task leaves one of the slots active wherever it is interrupted. -/
theorem run_active (hc : ∀ A, c ≠ .complete A) (loss : Option PowerLoss) {m : Media}
    (ha : ∃ y : Slot, m.env "nerves_fw_active" = some y.name) :
    ∃ y : Slot, (c.run host loss m).env "nerves_fw_active" = some y.name := by
  obtain ⟨n, k, hr⟩ := c.exists_run_eq_cut host loss m
  rw [hr]
  refine (Triple.invariant (I := fun m : Media =>
    ∃ y : Slot, m.env "nerves_fw_active" = some y.name) fun o ho => ?_).safe m ha n k
  rcases operations_active hc ho with ⟨x, rfl⟩ | hs
  · exact ⟨fun m k hm => by rwa [torn_setenv], fun m m' _ he => by
      cases he; exact ⟨x, by simp [Media.setenv]⟩⟩
  · exact (frames_env hs).preserves fun v => ∃ y : Slot, v = some y.name

/-- Once a slot is active there is always one, but for a `complete` that stops half way. -/
theorem step_active (hush : Hush) {s : State} {e : Event}
    (he : ∀ A loss, e ≠ .fwup (.complete A) loss)
    (ha : ∃ y : Slot, s.media.env "nerves_fw_active" = some y.name) :
    ∃ y : Slot, (step hush s e).media.env "nerves_fw_active" = some y.name := by
  cases e with
  | boot =>
    obtain ⟨y, hy⟩ := ha
    exact ⟨_, by rw [step, boot_env, savedEnv_active hy]⟩
  | fwup c loss => exact run_active (fun A hA => he A loss (hA ▸ rfl)) loss ha

theorem run_autovalidate (c : Command) (host : Host) (hc : ∀ A, c ≠ .complete A)
    (loss : Option PowerLoss) (m : Media) :
    (c.run host loss m).env "nerves_fw_autovalidate" = m.env "nerves_fw_autovalidate" :=
  run_env hc (by decide) (by decide) loss m

end Reach

end NervesSystem
