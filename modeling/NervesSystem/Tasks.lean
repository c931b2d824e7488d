import NervesSystem.Device

namespace NervesSystem
open Crash

/-- What upgrade.a and upgrade.b ask of the environment, for the slot `y` that is kept. -/
structure Gate (A : Archive) (y : Slot) (env : Env) : Prop where
  active : env "nerves_fw_active" = some y.name
  validated : env "nerves_fw_validated" = some "1"
  platform : env (y.var "nerves_fw_platform") = some A.platform
  architecture : env (y.var "nerves_fw_architecture") = some A.architecture

/-- What revert.a and revert.b ask, for the slot `x` that they switch to. -/
structure RevertGate (O : OpsArchive) (x : Slot) (env : Env) : Prop where
  active : env "nerves_fw_active" = some x.other.name
  platform : env (x.var "nerves_fw_platform") = some O.platform
  architecture : env (x.var "nerves_fw_architecture") = some O.architecture

instance (A : Archive) (y : Slot) (env : Env) : Decidable (Gate A y env) :=
  decidable_of_iff (env "nerves_fw_active" = some y.name ∧
    env "nerves_fw_validated" = some "1" ∧
    env (y.var "nerves_fw_platform") = some A.platform ∧
    env (y.var "nerves_fw_architecture") = some A.architecture)
    ⟨fun h => ⟨h.1, h.2.1, h.2.2.1, h.2.2.2⟩, fun h => ⟨h.1, h.2, h.3, h.4⟩⟩

instance (O : OpsArchive) (x : Slot) (env : Env) : Decidable (RevertGate O x env) :=
  decidable_of_iff (env "nerves_fw_active" = some x.other.name ∧
    env (x.var "nerves_fw_platform") = some O.platform ∧
    env (x.var "nerves_fw_architecture") = some O.architecture)
    ⟨fun h => ⟨h.1, h.2.1, h.2.2⟩, fun h => ⟨h.1, h.2, h.3⟩⟩

def Slot.letter : Slot → String
  | .a => "A"
  | .b => "B"

def extlinux : Slot → Extlinux
  | .a => extlinuxA
  | .b => extlinuxB

/-- The environment forgets the firmware of slot `x`, then its rootfs goes. -/
def clearOperations (x : Slot) : List Operation :=
  [.info ("Upgrading partition " ++ x.letter),
   .ubootUnsetenv (x.var "nerves_fw_version"),
   .ubootUnsetenv (x.var "nerves_fw_platform"),
   .ubootUnsetenv (x.var "nerves_fw_architecture"),
   .ubootUnsetenv (x.var "nerves_fw_uuid"),
   .trim (.rootfs x)]

def writeOperations (A : Archive) (x : Slot) : List Operation :=
  [.fatWrite x.image A.image (some x.other.image),
   .fatWrite x.dtb A.devicetree (some x.other.dtb),
   .fatWrite extlinuxPath (.full (.conf (extlinux x))) none,
   .rawWrite .resource A.resource (some .resource),
   .rawWrite (.rootfs x) A.rootfs (some (.rootfs x.other))]

def describeOperations (A : Archive) (x : Slot) : List Operation :=
  [.ubootSetenv (x.var "nerves_fw_application_part0_devpath") A.applicationPart0Devpath,
   .ubootSetenv (x.var "nerves_fw_application_part0_fstype") A.applicationPart0Fstype,
   .ubootSetenv (x.var "nerves_fw_application_part0_target") A.applicationPart0Target,
   .ubootSetenv (x.var "nerves_fw_product") A.product,
   .ubootSetenv (x.var "nerves_fw_description") A.description,
   .ubootSetenv (x.var "nerves_fw_version") A.version,
   .ubootSetenv (x.var "nerves_fw_platform") A.platform,
   .ubootSetenv (x.var "nerves_fw_architecture") A.architecture,
   .ubootSetenv (x.var "nerves_fw_author") A.author,
   .ubootSetenv (x.var "nerves_fw_vcs_identifier") A.vcsIdentifier,
   .ubootSetenv (x.var "nerves_fw_misc") A.misc,
   .ubootSetenv (x.var "nerves_fw_uuid") A.uuid]

def switchOperations (x : Slot) : List Operation :=
  [.ubootSetenv "nerves_fw_active" x.name,
   .ubootSetenv "nerves_fw_validated" "0",
   .ubootSetenv "nerves_fw_booted" "0"]

def upgradeOperations (A : Archive) (x : Slot) : List Operation :=
  clearOperations x ++ writeOperations A x ++ describeOperations A x ++ switchOperations x

def preventRevertOperations (x : Slot) : List Operation :=
  [.info ("Preventing reverts to partition " ++ x.letter),
   .ubootUnsetenv (x.var "nerves_fw_platform"),
   .ubootUnsetenv (x.var "nerves_fw_architecture"),
   .trim (.rootfs x),
   .fatRm x.image,
   .fatRm x.dtb]

def revertOperations (x : Slot) : List Operation :=
  [.info ("Reverting to partition " ++ x.letter),
   .ubootSetenv "nerves_fw_active" x.name,
   .ubootSetenv "nerves_fw_validated" "1",
   .fatWrite extlinuxPath (.full (.conf (extlinux x))) none]

/-- The task that upgrades slot `x`. -/
def upgradeTask (A : Archive) : Slot → Task
  | .a => upgradeA A
  | .b => upgradeB A

def preventRevertTask : Slot → Task
  | .a => preventRevertA
  | .b => preventRevertB

def revertTask (O : OpsArchive) : Slot → Task
  | .a => revertA O
  | .b => revertB O

/-- The two hand-written tasks are one task, read for either slot. -/
theorem upgradeTask_operations (A : Archive) (x : Slot) :
    (upgradeTask A x).operations fileResources = upgradeOperations A x := by
  cases x <;> rfl

theorem preventRevertTask_operations (x : Slot) :
    (preventRevertTask x).operations opsFileResources = preventRevertOperations x := by
  cases x <;> rfl

theorem revertTask_operations (O : OpsArchive) (x : Slot) :
    (revertTask O x).operations opsFileResources = revertOperations x := by
  cases x <;> rfl

def validateOperations : List Operation :=
  [.info "Validate",
   .ubootSetenv "nerves_fw_validated" "1",
   .ubootUnsetenv "upgrade_available",
   .ubootUnsetenv "bootcount"]

def factoryResetOperations : List Operation :=
  [.info "Erasing all writable data",
   .trim .app,
   .rawMemset .app 256 0xff]

section Select
variable {A : Archive} {O : OpsArchive} {host : Host} {env : Env} {x y : Slot}

/-- The tasks that `-t task` considers, in the order of the file. -/
def Config.named (c : Config) (task : String) : List Task :=
  c.tasks.filter fun t => task.toList.isPrefixOf t.name.toList

theorem Config.select_eq (c : Config) (task : String) : c.select host env task =
    (c.named task).find? (Task.accepts host env) := by
  simp only [select, named, List.find?_filter]
  congr
  funext t
  rw [Bool.decide_and, Bool.decide_eq_true, Bool.decide_eq_true]

/-- Among tasks one of which requires nothing, one is found. -/
theorem exists_find_accepts (ts : List Task) (h : ∃ t ∈ ts, t.requires = []) (host : Host)
    (env : Env) : ∃ t ∈ ts, ts.find? (Task.accepts host env) = some t := by
  obtain ⟨t, ht, hr⟩ := h
  have hsome : (ts.find? (Task.accepts host env)).isSome = true :=
    List.find?_isSome.mpr ⟨t, ht, by simp [Task.accepts, hr]⟩
  obtain ⟨t', ht'⟩ := Option.isSome_iff_exists.mp hsome
  exact ⟨t', List.mem_of_find?_eq_some ht', ht'⟩

theorem named_complete : (fwupConf A).named "complete" = [NervesSystem.complete A] := by
  simp [Config.named, fwupConf, List.isPrefixOf]

theorem named_upgrade : (fwupConf A).named "upgrade" =
    [upgradeA A, upgradeB A, upgradeUnvalidated, upgradeUnexpected A,
      upgradeWrongplatform A] := by
  simp [Config.named, fwupConf, List.isPrefixOf]

theorem named_provision : (fwupConf A).named "provision" =
    [NervesSystem.provision A, provisionWrongplatform A] := by
  simp [Config.named, fwupConf, List.isPrefixOf]

theorem named_factoryReset : (fwupOpsConf O).named "factory-reset" = [factoryReset] := by
  simp [Config.named, fwupOpsConf, List.isPrefixOf]

theorem named_preventRevert : (fwupOpsConf O).named "prevent-revert" =
    [preventRevertA, preventRevertB, preventRevertFail] := by
  simp [Config.named, fwupOpsConf, List.isPrefixOf]

theorem named_revert : (fwupOpsConf O).named "revert" =
    [revertA O, revertB O, revertUnexpectedA O, revertUnexpectedB O, revertWrongplatform O] := by
  simp [Config.named, fwupOpsConf, List.isPrefixOf]

theorem named_status : (fwupOpsConf O).named "status" =
    [statusAA, statusAB, statusBB, statusBA, statusFail] := by
  simp [Config.named, fwupOpsConf, List.isPrefixOf]

theorem named_validate : (fwupOpsConf O).named "validate" = [NervesSystem.validate] := by
  simp [Config.named, fwupOpsConf, List.isPrefixOf]

theorem upgradeA_accepts : (upgradeA A).accepts host env = true ↔ Gate A .b env := by
  simp only [Task.accepts, upgradeA_requires, List.all_cons, List.all_nil, Requirement.holds,
    Bool.and_eq_true, beq_iff_eq, and_true]
  exact ⟨fun h => ⟨h.1, h.2.1, h.2.2.1, h.2.2.2⟩, fun h => ⟨h.1, h.2, h.3, h.4⟩⟩

theorem upgradeB_accepts : (upgradeB A).accepts host env = true ↔ Gate A .a env := by
  simp only [Task.accepts, upgradeB_requires, List.all_cons, List.all_nil, Requirement.holds,
    Bool.and_eq_true, beq_iff_eq, and_true]
  exact ⟨fun h => ⟨h.1, h.2.1, h.2.2.1, h.2.2.2⟩, fun h => ⟨h.1, h.2, h.3, h.4⟩⟩

theorem revertA_accepts : (revertA O).accepts host env = true ↔ RevertGate O .a env := by
  simp only [Task.accepts, revertA_requires, List.all_cons, List.all_nil, Requirement.holds,
    Bool.and_eq_true, beq_iff_eq, and_true]
  exact ⟨fun h => ⟨h.1, h.2.1, h.2.2⟩, fun h => ⟨h.1, h.2, h.3⟩⟩

theorem revertB_accepts : (revertB O).accepts host env = true ↔ RevertGate O .b env := by
  simp only [Task.accepts, revertB_requires, List.all_cons, List.all_nil, Requirement.holds,
    Bool.and_eq_true, beq_iff_eq, and_true]
  exact ⟨fun h => ⟨h.1, h.2.1, h.2.2⟩, fun h => ⟨h.1, h.2, h.3⟩⟩

theorem Gate.eq (h : Gate A x env) (h' : Gate A y env) : x = y := by
  simpa only [h.active, Option.some.injEq, Slot.name_inj] using h'.active

theorem operations_upgrade (host : Host) (h : Gate A y env) :
    (Command.upgrade A).operations host env = upgradeOperations A y.other := by
  have hs : (fwupConf A).select host env "upgrade" = some (upgradeTask A y.other) := by
    rw [Config.select_eq, named_upgrade]
    cases y with
    | b => exact List.find?_cons_of_pos (upgradeA_accepts.mpr h)
    -- upgrade.a comes first in the file and asks for the other slot.
    | a =>
      have hb : ¬ (upgradeA A).accepts host env = true :=
        fun hb => absurd (h.eq (upgradeA_accepts.mp hb)) (by decide)
      rw [List.find?_cons_of_neg hb]
      exact List.find?_cons_of_pos (upgradeB_accepts.mpr h)
  rw [← upgradeTask_operations]
  simp only [Command.operations, Command.config, Command.task, hs]
  rfl

/-- Without its gate `-t upgrade` comes to one of the three tasks that only report. -/
theorem operations_upgrade_refused (host : Host) (h : ∀ y, ¬ Gate A y env) :
    ∃ text, (Command.upgrade A).operations host env = [.error text] := by
  have ha : ¬ (upgradeA A).accepts host env = true :=
    fun ha => h .b (upgradeA_accepts.mp ha)
  have hb : ¬ (upgradeB A).accepts host env = true :=
    fun hb => h .a (upgradeB_accepts.mp hb)
  simp only [Command.operations, Command.config, Command.task, Config.select_eq, named_upgrade]
  rw [List.find?_cons_of_neg ha, List.find?_cons_of_neg hb]
  -- What is left are upgrade.unvalidated, upgrade.unexpected and upgrade.wrongplatform.
  obtain ⟨t, ht, hfind⟩ := exists_find_accepts
    [upgradeUnvalidated, upgradeUnexpected A, upgradeWrongplatform A]
    ⟨upgradeWrongplatform A, by simp, rfl⟩ host env
  simp only [List.mem_cons, List.not_mem_nil, or_false] at ht
  rw [hfind]
  obtain rfl | rfl | rfl := ht <;> exact ⟨_, rfl⟩

theorem operations_revert (host : Host) (h : RevertGate O x env) :
    (Command.revert O).operations host env = revertOperations x := by
  have hs : (fwupOpsConf O).select host env "revert" = some (revertTask O x) := by
    rw [Config.select_eq, named_revert]
    cases x with
    | a => exact List.find?_cons_of_pos (revertA_accepts.mpr h)
    | b =>
      have ha : ¬ (revertA O).accepts host env = true := fun ha =>
        absurd (h.active.symm.trans (revertA_accepts.mp ha).active) (by decide)
      rw [List.find?_cons_of_neg ha]
      exact List.find?_cons_of_pos (revertB_accepts.mpr h)
  rw [← revertTask_operations O]
  simp only [Command.operations, Command.config, Command.task, hs]
  rfl

theorem operations_revert_refused (host : Host) (h : ∀ x, ¬ RevertGate O x env) :
    ∃ text, (Command.revert O).operations host env = [.error text] := by
  have ha : ¬ (revertA O).accepts host env = true :=
    fun ha => h .a (revertA_accepts.mp ha)
  have hb : ¬ (revertB O).accepts host env = true :=
    fun hb => h .b (revertB_accepts.mp hb)
  simp only [Command.operations, Command.config, Command.task, Config.select_eq, named_revert]
  rw [List.find?_cons_of_neg ha, List.find?_cons_of_neg hb]
  obtain ⟨t, ht, hfind⟩ := exists_find_accepts
    [revertUnexpectedA O, revertUnexpectedB O, revertWrongplatform O]
    ⟨revertWrongplatform O, by simp, rfl⟩ host env
  simp only [List.mem_cons, List.not_mem_nil, or_false] at ht
  rw [hfind]
  obtain rfl | rfl | rfl := ht <;> exact ⟨_, rfl⟩

theorem operations_preventRevert (O : OpsArchive) (host : Host)
    (h : env "nerves_fw_active" = some y.name) :
    (Command.preventRevert O).operations host env = preventRevertOperations y.other := by
  have hs : (fwupOpsConf O).select host env "prevent-revert" =
      some (preventRevertTask y.other) := by
    rw [Config.select_eq, named_preventRevert]
    cases y <;>
      simp [Task.accepts, Requirement.holds, h, Slot.name, preventRevertTask, Slot.other]
  rw [← preventRevertTask_operations]
  simp only [Command.operations, Command.config, Command.task, hs]
  rfl

theorem operations_preventRevert_refused (O : OpsArchive) (host : Host)
    (h : ∀ y : Slot, env "nerves_fw_active" ≠ some y.name) :
    ∃ text, (Command.preventRevert O).operations host env = [.error text] := by
  have ha : env "nerves_fw_active" ≠ some "a" := h .a
  have hb : env "nerves_fw_active" ≠ some "b" := h .b
  have hs : (fwupOpsConf O).select host env "prevent-revert" = some preventRevertFail := by
    rw [Config.select_eq, named_preventRevert]
    simp [Task.accepts, Requirement.holds, ha, hb]
  simp only [Command.operations, Command.config, Command.task, hs]
  exact ⟨_, rfl⟩

@[simp] theorem operations_validate :
    (Command.validate O).operations host env = validateOperations := by
  have hs : (fwupOpsConf O).select host env "validate" = some NervesSystem.validate := by
    rw [Config.select_eq, named_validate]
    simp [Task.accepts]
  simp only [Command.operations, Command.config, Command.task, hs]
  rfl

@[simp] theorem operations_factoryReset :
    (Command.factoryReset O).operations host env = factoryResetOperations := by
  have hs : (fwupOpsConf O).select host env "factory-reset" = some factoryReset := by
    rw [Config.select_eq, named_factoryReset]
    simp [Task.accepts]
  simp only [Command.operations, Command.config, Command.task, hs]
  rfl

/-- `provision` asks for the platform in slot a's variables, whichever slot is active. -/
theorem operations_provision : (Command.provision A).operations host env =
    if env (Slot.a.var "nerves_fw_platform") = some A.platform ∧
      env (Slot.a.var "nerves_fw_architecture") = some A.architecture
    then provisioning A
    else [.error (wrongplatformText A.platform A.architecture)] := by
  have hs : (fwupConf A).select host env "provision" =
      if env (Slot.a.var "nerves_fw_platform") = some A.platform ∧
        env (Slot.a.var "nerves_fw_architecture") = some A.architecture
      then some (NervesSystem.provision A) else some (provisionWrongplatform A) := by
    rw [Config.select_eq, named_provision]
    split_ifs with h
    · simp only [Slot.var, Slot.name] at h
      exact List.find?_cons_of_pos (by simpa [Task.accepts, Requirement.holds] using h)
    · simp only [Slot.var, Slot.name] at h
      rw [List.find?_cons_of_neg (by simpa [Task.accepts, Requirement.holds] using h)]
      rfl
  simp only [Command.operations, Command.config, Command.task, hs]
  split_ifs <;> simp <;> rfl

/-- `status` reports and changes nothing. -/
theorem operations_status (O : OpsArchive) (host : Host) (env : Env) :
    ∃ text, (Command.status O).operations host env = [.info text] ∨
      (Command.status O).operations host env = [.error text] := by
  simp only [Command.operations, Command.config, Command.task, Config.select_eq, named_status]
  obtain ⟨t, ht, hfind⟩ := exists_find_accepts
    [statusAA, statusAB, statusBB, statusBA, statusFail] ⟨statusFail, by simp, rfl⟩ host env
  simp only [List.mem_cons, List.not_mem_nil, or_false] at ht
  rw [hfind]
  obtain rfl | rfl | rfl | rfl | rfl := ht
  · exact ⟨_, .inl rfl⟩
  · exact ⟨_, .inl rfl⟩
  · exact ⟨_, .inl rfl⟩
  · exact ⟨_, .inl rfl⟩
  · exact ⟨_, .inr rfl⟩

theorem operations_complete (A : Archive) (env : Env) (h : host.root = none) :
    (Command.complete A).operations host env =
      (NervesSystem.complete A).operations fileResources := by
  have hs : (fwupConf A).select host env "complete" = some (NervesSystem.complete A) := by
    rw [Config.select_eq, named_complete]
    simp [Task.accepts, Requirement.holds, h]
  simp only [Command.operations, Command.config, Command.task, hs]
  rfl

/-- A disk that a system runs from is mounted, so `complete` finds no task. -/
theorem operations_complete_mounted (A : Archive) (env : Env) (h : host.root ≠ none) :
    (Command.complete A).operations host env = [] := by
  have hs : (fwupConf A).select host env "complete" = none := by
    rw [Config.select_eq, named_complete]
    simp [Task.accepts, Requirement.holds, h]
  simp only [Command.operations, Command.config, Command.task, hs]

/-- What an invocation of fwup does, by the task that it comes to. -/
inductive Performs (host : Host) (env : Env) : Command → List Operation → Prop
  | refused (c : Command) (text : String) : Performs host env c [.error text]
  | mounted (A : Archive) (h : host.root ≠ none) : Performs host env (.complete A) []
  | complete (A : Archive) (h : host.root = none) :
    Performs host env (.complete A) ((NervesSystem.complete A).operations fileResources)
  | upgrade (A : Archive) (y : Slot) (h : Gate A y env) :
    Performs host env (.upgrade A) (upgradeOperations A y.other)
  | provision (A : Archive) : Performs host env (.provision A) (provisioning A)
  | factoryReset (O : OpsArchive) : Performs host env (.factoryReset O) factoryResetOperations
  | preventRevert (O : OpsArchive) (y : Slot) (h : env "nerves_fw_active" = some y.name) :
    Performs host env (.preventRevert O) (preventRevertOperations y.other)
  | revert (O : OpsArchive) (x : Slot) (h : RevertGate O x env) :
    Performs host env (.revert O) (revertOperations x)
  | status (O : OpsArchive) (text : String) : Performs host env (.status O) [.info text]
  | validate (O : OpsArchive) : Performs host env (.validate O) validateOperations

theorem performs (host : Host) (env : Env) (c : Command) :
    Performs host env c (c.operations host env) := by
  cases c with
  | complete A =>
    by_cases h : host.root = none
    · exact operations_complete A env h ▸ .complete A h
    · exact operations_complete_mounted A env h ▸ .mounted A h
  | upgrade A =>
    by_cases hg : ∃ y, Gate A y env
    · obtain ⟨y, hy⟩ := hg
      exact operations_upgrade host hy ▸ .upgrade A y hy
    · obtain ⟨text, h⟩ := operations_upgrade_refused host (not_exists.mp hg)
      exact h ▸ .refused _ text
  | provision A =>
    rw [operations_provision]
    split_ifs
    · exact .provision A
    · exact .refused _ _
  | factoryReset O => exact operations_factoryReset (O := O) ▸ .factoryReset O
  | preventRevert O =>
    by_cases hy : ∃ y : Slot, env "nerves_fw_active" = some y.name
    · obtain ⟨y, hy⟩ := hy
      exact operations_preventRevert O host hy ▸ .preventRevert O y hy
    · obtain ⟨text, h⟩ := operations_preventRevert_refused O host (not_exists.mp hy)
      exact h ▸ .refused _ text
  | revert O =>
    by_cases hg : ∃ x, RevertGate O x env
    · obtain ⟨x, hx⟩ := hg
      exact operations_revert host hx ▸ .revert O x hx
    · obtain ⟨text, h⟩ := operations_revert_refused host (not_exists.mp hg)
      exact h ▸ .refused _ text
  | status O =>
    obtain ⟨text, h | h⟩ := operations_status O host env
    · exact h ▸ .status O text
    · exact h ▸ .refused _ text
  | validate O => exact operations_validate (O := O) ▸ .validate O

end Select

end NervesSystem
