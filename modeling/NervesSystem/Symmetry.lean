import NervesSystem.Outcome
import NervesSystem.Installed
import NervesSystem.Library.Relabel
import NervesSystem.Library.Trace
import Mathlib.Logic.Equiv.Basic

namespace NervesSystem
open Crash

/-- Exchange what a family of names gives to the two slots. -/
def exchangeSlots {α : Type*} [DecidableEq α] (f : Slot → α) (c : α) : α :=
  Equiv.swap (f .a) (f .b) c

/-- A variable of one slot becomes the same variable of the other. -/
def swapVar (n : String) : String :=
  match n.toList with
  | 'a' :: '.' :: cs => Slot.b.var (String.ofList cs)
  | 'b' :: '.' :: cs => Slot.a.var (String.ofList cs)
  | _ => n

def swapPath (path : String) : String := exchangeSlots Slot.image (exchangeSlots Slot.dtb path)

def swapRegion (r : Region) : Region := exchangeSlots Region.rootfs r

def swapConf (c : Extlinux) : Extlinux where
  default := exchangeSlots (fun x => "nerves-" ++ x.name) c.default
  timeout := c.timeout
  label := exchangeSlots (fun x => "nerves-" ++ x.name) c.label
  kernel := exchangeSlots (fun x => "/" ++ x.image) c.kernel
  fdt := exchangeSlots (fun x => "/" ++ x.dtb) c.fdt
  append := c.append.map (exchangeSlots fun x => "root=" ++ x.device)

def swapFile : File → File
  | .blob bytes => .blob bytes
  | .conf c => .conf (swapConf c)

/-- Only the value of `nerves_fw_active` names a slot. -/
def swapValue (n value : String) : String :=
  if n = "nerves_fw_active" then exchangeSlots Slot.name value else value

/-- Only extlinux.conf names a slot in its contents. -/
def swapContents (path : String) (file : File) : File :=
  if path = extlinuxPath then swapFile file else file

def Media.swap (m : Media) : Media :=
  { m with
    env := relabel swapVar (fun n => Option.map (swapValue n)) m.env
    fat := relabel swapPath (fun path => Option.map (swapContents path)) m.fat
    raw := relabel swapRegion (fun _ => id) m.raw }

def Host.swap (host : Host) : Host := ⟨host.root.map (exchangeSlots Slot.device)⟩

def State.swap (s : State) : State := ⟨s.media.swap, s.host.swap⟩

section Names
variable {α : Type*} [DecidableEq α] {f : Slot → α} {x : Slot} {c : α} {n : String}

@[simp] theorem exchangeSlots_apply (f : Slot → α) (x : Slot) :
    exchangeSlots f (f x) = f x.other := by
  cases x
  · exact Equiv.swap_apply_left _ _
  · exact Equiv.swap_apply_right _ _

theorem exchangeSlots_of_ne (h : ∀ x, c ≠ f x) : exchangeSlots f c = c :=
  Equiv.swap_apply_of_ne_of_ne (h .a) (h .b)

theorem exchangeSlots_involutive (f : Slot → α) : Function.Involutive (exchangeSlots f) :=
  Equiv.swap_apply_self _ _

@[simp] theorem swapVar_var (x : Slot) (v : String) : swapVar (x.var v) = x.other.var v := by
  cases x <;> simp [swapVar, Slot.var, Slot.name, Slot.other]

theorem swapVar_of_owner (h : Slot.owner n = none) : swapVar n = n := by
  unfold Slot.owner at h
  unfold swapVar
  split at h <;> simp_all

theorem eq_var_of_owner (h : Slot.owner n = some x) : ∃ v, n = x.var v := by
  unfold Slot.owner at h
  split at h
  · next cs hcs =>
    obtain rfl : Slot.a = x := by simpa using h
    exact ⟨String.ofList cs, by rw [← String.toList_inj, hcs]; simp [Slot.var, Slot.name]⟩
  · next cs hcs =>
    obtain rfl : Slot.b = x := by simpa using h
    exact ⟨String.ofList cs, by rw [← String.toList_inj, hcs]; simp [Slot.var, Slot.name]⟩
  · cases h

theorem swapVar_involutive : Function.Involutive swapVar := by
  intro n
  cases h : Slot.owner n with
  | none => rw [swapVar_of_owner h, swapVar_of_owner h]
  | some x =>
    obtain ⟨v, rfl⟩ := eq_var_of_owner h
    rw [swapVar_var, swapVar_var, Slot.other_other]

@[simp] theorem swapPath_image (x : Slot) : swapPath x.image = x.other.image := by
  rw [swapPath, exchangeSlots_of_ne (f := Slot.dtb) (by simp), exchangeSlots_apply]

@[simp] theorem swapPath_dtb (x : Slot) : swapPath x.dtb = x.other.dtb := by
  rw [swapPath, exchangeSlots_apply, exchangeSlots_of_ne (by simp)]

theorem swapPath_of_ne {path : String} (hi : ∀ x : Slot, path ≠ x.image)
    (hd : ∀ x : Slot, path ≠ x.dtb) : swapPath path = path := by
  rw [swapPath, exchangeSlots_of_ne hd, exchangeSlots_of_ne hi]

@[simp] theorem swapPath_extlinux : swapPath extlinuxPath = extlinuxPath :=
  swapPath_of_ne (fun _ => Ne.symm image_ne_extlinuxPath) fun _ => Ne.symm dtb_ne_extlinuxPath

theorem swapPath_involutive : Function.Involutive swapPath := by
  intro path
  by_cases hi : ∃ x : Slot, path = x.image
  · obtain ⟨x, rfl⟩ := hi
    simp
  by_cases hd : ∃ x : Slot, path = x.dtb
  · obtain ⟨x, rfl⟩ := hd
    simp
  · have h := swapPath_of_ne (not_exists.mp hi) (not_exists.mp hd)
    rw [h, h]

theorem swapPath_eq_extlinux {path : String} : swapPath path = extlinuxPath ↔
    path = extlinuxPath := by
  constructor
  · intro h
    rw [← swapPath_involutive path, h, swapPath_extlinux]
  · intro h
    rw [h, swapPath_extlinux]

@[simp] theorem swapRegion_rootfs (x : Slot) :
    swapRegion (.rootfs x) = .rootfs x.other := exchangeSlots_apply _ x

theorem swapRegion_of_ne {r : Region} (h : ∀ x, r ≠ .rootfs x) : swapRegion r = r :=
  exchangeSlots_of_ne h

theorem swapRegion_involutive : Function.Involutive swapRegion := exchangeSlots_involutive _

/-- extlinux-b.conf is extlinux-a.conf with the slots exchanged. -/
@[simp] theorem swapConf_extlinux (x : Slot) : swapConf (extlinux x) = extlinux x.other := by
  cases x <;> decide

end Names

section Operations

def swapText (text : String) : String :=
  exchangeSlots (fun x => "Upgrading partition " ++ x.letter)
    (exchangeSlots (fun x => "Preventing reverts to partition " ++ x.letter)
      (exchangeSlots (fun x => "Reverting to partition " ++ x.letter) text))

def Payload.map {α β : Type*} (f : α → β) : Payload α → Payload β
  | full contents => full (f contents)
  | delta made target => delta (f made) (f target)

/-- The same operation with the slots exchanged. -/
def Operation.swap : Operation → Operation
  | info text => info (swapText text)
  | ubootSetenv n v => ubootSetenv (swapVar n) (swapValue (swapVar n) v)
  | ubootUnsetenv n => ubootUnsetenv (swapVar n)
  | fatWrite path file source =>
    fatWrite (swapPath path) (file.map (swapContents (swapPath path))) (source.map swapPath)
  | fatRm path => fatRm (swapPath path)
  | rawWrite r file source => rawWrite (swapRegion r) file (source.map swapRegion)
  | rawMemset r blocks value => rawMemset (swapRegion r) blocks value
  | trim r => trim (swapRegion r)
  | o => o

/-- The operation does not copy between extlinux.conf and other files, and does not
write the environment as a whole. -/
def Operation.Mirrors : Operation → Prop
  | ubootEnvWrite _ => False
  | fatWrite path file source =>
    if path = extlinuxPath then source = none ∧ ∃ contents, file = .full contents
    else source ≠ some extlinuxPath
  | _ => True

variable {m : Media}

theorem swap_setenv (n v : String) :
    (m.setenv n v).swap = m.swap.setenv (swapVar n) (swapValue (swapVar n) v) := by
  simp only [Media.swap, Media.setenv, relabel_update swapVar_involutive]
  rfl

theorem swap_unsetenv (n : String) : (m.unsetenv n).swap = m.swap.unsetenv (swapVar n) := by
  simp only [Media.swap, Media.unsetenv, relabel_update swapVar_involutive]
  rfl

theorem swap_fatPut (path : String) (file : Option File) : (m.fatPut path file).swap =
    m.swap.fatPut (swapPath path) (file.map (swapContents (swapPath path))) := by
  simp only [Media.swap, Media.fatPut, relabel_update swapPath_involutive]

theorem swap_update (r : Region) (bytes : Bytes) :
    Media.swap { m with raw := Function.update m.raw r bytes } =
      { m.swap with raw := Function.update m.swap.raw (swapRegion r) bytes } := by
  simp only [Media.swap, relabel_update swapRegion_involutive]
  rfl

@[simp] theorem swap_raw (r : Region) : m.swap.raw (swapRegion r) = m.raw r := by
  simp only [Media.swap, relabel_apply, swapRegion_involutive r, id]

theorem swap_fat {path : String} (h : path ≠ extlinuxPath) :
    m.swap.fat (swapPath path) = m.fat path := by
  have hp : swapPath path ≠ extlinuxPath := fun hp => h (swapPath_eq_extlinux.mp hp)
  simp only [Media.swap, relabel_apply, swapPath_involutive path]
  cases m.fat path <;> simp [swapContents, hp]

theorem swap_write (r : Region) (bytes : Bytes) :
    (m.write r bytes).swap = m.swap.write (swapRegion r) bytes := by
  simp only [Media.write, swap_update, swap_raw]

theorem Payload.map_id {α : Type*} (p : Payload α) : p.map id = p := by cases p <;> rfl

theorem swapContents_take (path : String) (k : ℕ) (file : File) :
    swapContents path (file.take k) = (swapContents path file).take k := by
  unfold swapContents
  split_ifs
  · cases file <;> rfl
  · rfl

theorem reconstruct_swap {path : String} {file : Payload File} {source : Option String}
    (h : (Operation.fatWrite path file source).Mirrors) :
    (file.map (swapContents (swapPath path))).reconstruct
      ((source.map swapPath).bind m.swap.fat) =
    (file.reconstruct (source.bind m.fat)).map (swapContents (swapPath path)) := by
  simp only [Operation.Mirrors] at h
  split_ifs at h with hp
  · obtain ⟨rfl, contents, rfl⟩ := h
    rfl
  · have hp' : swapPath path ≠ extlinuxPath := fun h => hp (swapPath_eq_extlinux.mp h)
    have hid : swapContents (swapPath path) = id := by
      funext file
      rw [swapContents, if_neg hp', id]
    have hs : (source.map swapPath).bind m.swap.fat = source.bind m.fat := by
      cases source with
      | none => rfl
      | some p => exact swap_fat fun hp => h (by rw [hp])
    rw [hid, Payload.map_id, hs, Option.map_id, id]

/-- Exchanging the slots commutes with every operation. -/
theorem Operation.Mirrors.equivariant {o : Operation} (h : o.Mirrors) :
    Equivariant Operation.swap Media.swap machine o := by
  cases o with
  | ubootEnvWrite vars => exact h.elim
  | info text => exact ⟨fun m k => by rw [Operation.swap, torn_info, torn_info], fun _ => rfl⟩
  | error text => exact ⟨fun m k => by cases k <;> rfl, fun _ => rfl⟩
  | gptWrite names => exact ⟨fun m k => by cases k <;> rfl, fun _ => rfl⟩
  | fatSetlabel label => exact ⟨fun m k => by cases k <;> rfl, fun _ => rfl⟩
  | fatMkdir dir => exact ⟨fun m k => by cases k <;> rfl, fun _ => rfl⟩
  | fatMkfs => exact ⟨fun m k => by cases k <;> rfl, fun _ => rfl⟩
  | ubootSetenv n v =>
    refine ⟨fun m k => by rw [Operation.swap, torn_setenv, torn_setenv], fun m => ?_⟩
    rw [Operation.swap, exec_setenv, exec_setenv, ← swap_setenv]
    rfl
  | ubootUnsetenv n =>
    refine ⟨fun m k => by rw [Operation.swap, torn_unsetenv, torn_unsetenv], fun m => ?_⟩
    rw [Operation.swap, exec_unsetenv, exec_unsetenv, ← swap_unsetenv]
    rfl
  | fatRm path =>
    refine ⟨fun m k => by cases k <;> rfl, fun m => ?_⟩
    rw [Operation.swap, exec_fatRm, exec_fatRm]
    exact congrArg Except.ok (swap_fatPut path none).symm
  | fatWrite path file source =>
    constructor
    · intro m k
      cases k with
      | zero => rfl
      | succ k =>
        simp only [machine, torn, Operation.swap, reconstruct_swap h]
        cases file.reconstruct (source.bind m.fat) with
        | none => rfl
        | some f =>
          simp only [Option.map_some, swap_fatPut, swapContents_take]
    · intro m
      simp only [machine, exec, Operation.swap, reconstruct_swap h]
      cases file.reconstruct (source.bind m.fat) with
      | none => rfl
      | some f => exact congrArg Except.ok (swap_fatPut path (some f)).symm
  | rawWrite r file source =>
    have hs : ∀ m : Media, (source.map swapRegion).map m.swap.raw = source.map m.raw := by
      intro m
      cases source with
      | none => rfl
      | some r' => simp only [Option.map_some, swap_raw]
    constructor
    · intro m k
      cases k with
      | zero => rfl
      | succ k =>
        simp only [machine, torn, Operation.swap, hs]
        cases file.reconstruct (source.map m.raw) with
        | none => rfl
        | some bytes => exact (swap_write r _).symm
    · intro m
      simp only [machine, exec, Operation.swap, hs]
      cases file.reconstruct (source.map m.raw) with
      | none => rfl
      | some bytes => exact congrArg Except.ok (swap_write r bytes).symm
  | rawMemset r blocks value =>
    constructor
    · intro m k
      cases k with
      | zero => rfl
      | succ k => exact (swap_write r _).symm
    · intro m
      exact congrArg Except.ok (swap_write r _).symm
  | trim r =>
    constructor
    · intro m k
      cases k with
      | zero => rfl
      | succ k =>
        simp only [machine, torn, Operation.swap, swap_update, swap_raw]
        rfl
    · intro m
      simp only [machine, exec, Operation.swap, swap_raw, Except.map, swap_update]
      rfl

end Operations

section Commands
variable {A : Archive} {O : OpsArchive} {x y : Slot} {m : Media} {s : State} {hush : Hush}

theorem swap_env (n : String) (h : n ≠ "nerves_fw_active") :
    m.swap.env (swapVar n) = m.env n := by
  have hn : swapVar n ≠ "nerves_fw_active" := by
    intro hn
    rw [← swapVar_involutive n, hn, swapVar_of_owner Slot.owner_active] at h
    exact h rfl
  simp only [Media.swap, relabel_apply, swapVar_involutive n]
  cases m.env n <;> simp [swapValue, hn]

theorem swap_env_plain {n : String} (hn : Slot.owner n = none) (h : n ≠ "nerves_fw_active") :
    m.swap.env n = m.env n := by
  have hs := swap_env (m := m) n h
  rwa [swapVar_of_owner hn] at hs

theorem swap_env_var (x : Slot) (v : String) : m.swap.env (x.other.var v) = m.env (x.var v) := by
  have hs := swap_env (m := m) (x.var v) (by simp)
  rwa [swapVar_var] at hs

theorem swap_active : m.swap.env "nerves_fw_active" =
    (m.env "nerves_fw_active").map (exchangeSlots Slot.name) := by
  simp only [Media.swap, relabel_apply, swapVar_of_owner Slot.owner_active]
  cases m.env "nerves_fw_active" <;> simp [swapValue]

theorem Gate.swap (h : Gate A y m.env) : Gate A y.other m.swap.env where
  active := by rw [swap_active, h.active, Option.map_some, exchangeSlots_apply]
  validated := by rw [swap_env_plain (by simp) (by decide), h.validated]
  platform := by rw [swap_env_var, h.platform]
  architecture := by rw [swap_env_var, h.architecture]

theorem RevertGate.swap (h : RevertGate O x m.env) : RevertGate O x.other m.swap.env where
  active := by rw [swap_active, h.active, Option.map_some, exchangeSlots_apply]
  platform := by rw [swap_env_var, h.platform]
  architecture := by rw [swap_env_var, h.architecture]

theorem swapVar_eq_active {n : String} : swapVar n = "nerves_fw_active" ↔
    n = "nerves_fw_active" := by
  constructor
  · intro h
    rw [← swapVar_involutive n, h, swapVar_of_owner Slot.owner_active]
  · intro h
    rw [h, swapVar_of_owner Slot.owner_active]

theorem swapConf_swapConf (c : Extlinux) : swapConf (swapConf c) = c := by
  have h : ∀ xs : List String, (xs.map (exchangeSlots fun x => "root=" ++ x.device)).map
      (exchangeSlots fun x => "root=" ++ x.device) = xs := fun xs => by
    rw [List.map_map, (exchangeSlots_involutive _).comp_self, List.map_id]
  cases c
  simp only [swapConf, h, exchangeSlots_involutive _ _]

theorem Media.swap_swap (m : Media) : m.swap.swap = m := by
  have hf : ∀ c, swapFile (swapFile c) = c := by
    rintro (bytes | c)
    · rfl
    · exact congrArg File.conf (swapConf_swapConf c)
  have henv : ∀ n v, Option.map (swapValue n) (Option.map (swapValue (swapVar n)) v) = v := by
    rintro n (_ | v)
    · rfl
    · simp only [Option.map_some, swapValue, swapVar_eq_active]
      split_ifs
      · rw [exchangeSlots_involutive]
      · rfl
  have hfat : ∀ p f,
      Option.map (swapContents p) (Option.map (swapContents (swapPath p)) f) = f := by
    rintro p (_ | f)
    · rfl
    · simp only [Option.map_some, swapContents, swapPath_eq_extlinux]
      split_ifs
      · rw [hf]
      · rfl
  have h1 := relabel_relabel (g := fun n => Option.map (swapValue n)) (f := m.env)
    swapVar_involutive henv
  have h2 := relabel_relabel (g := fun p => Option.map (swapContents p)) (f := m.fat)
    swapPath_involutive hfat
  have h3 := relabel_relabel (g := fun _ => id) (f := m.raw) swapRegion_involutive fun _ _ => rfl
  simp only [Media.swap, h1, h2, h3]

theorem exists_gate_swap : (∃ y, Gate A y m.swap.env) ↔ ∃ y, Gate A y m.env := by
  constructor
  · rintro ⟨y, h⟩
    have hs := h.swap
    rw [Media.swap_swap] at hs
    exact ⟨_, hs⟩
  · rintro ⟨y, h⟩
    exact ⟨_, h.swap⟩

theorem exists_revertGate_swap : (∃ x, RevertGate O x m.swap.env) ↔ ∃ x, RevertGate O x m.env := by
  constructor
  · rintro ⟨x, h⟩
    have hs := h.swap
    rw [Media.swap_swap] at hs
    exact ⟨_, hs⟩
  · rintro ⟨x, h⟩
    exact ⟨_, h.swap⟩

theorem swapText_upgrading (x : Slot) : swapText ("Upgrading partition " ++ x.letter) =
    "Upgrading partition " ++ x.other.letter := by
  cases x <;> decide

theorem swapText_preventing (x : Slot) :
    swapText ("Preventing reverts to partition " ++ x.letter) =
      "Preventing reverts to partition " ++ x.other.letter := by
  cases x <;> decide

theorem swapText_reverting (x : Slot) : swapText ("Reverting to partition " ++ x.letter) =
    "Reverting to partition " ++ x.other.letter := by
  cases x <;> decide

theorem swapContents_map {path : String} (h : path ≠ extlinuxPath) (p : Payload File) :
    p.map (swapContents path) = p := by
  have hid : swapContents path = id := by
    funext file
    rw [swapContents, if_neg h, id]
  rw [hid, Payload.map_id]

theorem swapContents_conf (x : Slot) :
    (Payload.full (File.conf (extlinux x))).map (swapContents extlinuxPath) =
      .full (.conf (extlinux x.other)) := by
  simp [Payload.map, swapContents, swapFile]

/-- upgrade.b is upgrade.a with the slots exchanged. -/
theorem upgradeOperations_swap (A : Archive) (x : Slot) :
    (upgradeOperations A x).map Operation.swap = upgradeOperations A x.other := by
  simp [upgradeOperations, clearOperations, writeOperations, describeOperations,
    switchOperations, Operation.swap, swapText_upgrading, swapValue, swapContents_map,
    swapContents_conf, swapVar_of_owner, swapRegion_of_ne]

theorem preventRevertOperations_swap (x : Slot) :
    (preventRevertOperations x).map Operation.swap = preventRevertOperations x.other := by
  simp [preventRevertOperations, Operation.swap, swapText_preventing]

theorem revertOperations_swap (x : Slot) :
    (revertOperations x).map Operation.swap = revertOperations x.other := by
  simp [revertOperations, Operation.swap, swapText_reverting, swapValue, swapContents_conf,
    swapVar_of_owner]

theorem validateOperations_swap :
    validateOperations.map Operation.swap = validateOperations := by
  rfl

theorem factoryResetOperations_swap :
    factoryResetOperations.map Operation.swap = factoryResetOperations := by
  rfl

end Commands

section Runs
variable {s : State} {m : Media} {c : Command} {e : Event} {x y : Slot}

/-- The events that do not tell the slots apart. `complete` always installs to slot a, and
`provision` always asks slot a for the platform. -/
def Mirrored : Event → Prop
  | .boot => True
  | .fwup (.upgrade _) _ => True
  | .fwup (.factoryReset _) _ => True
  | .fwup (.preventRevert _) _ => True
  | .fwup (.revert _) _ => True
  | .fwup (.validate _) _ => True
  | _ => False

/-- With the slots exchanged a task is refused again, or does the same with them exchanged. -/
theorem operations_swap {loss : Option PowerLoss} (hc : Mirrored (.fwup c loss))
    (ha : ∃ y : Slot, m.env "nerves_fw_active" = some y.name) (host host' : Host) :
    (∃ t t', c.operations host m.env = [.error t] ∧ c.operations host' m.swap.env = [.error t']) ∨
    c.operations host' m.swap.env = (c.operations host m.env).map Operation.swap ∧
      c.operations host m.env ≠ [] ∧ ∀ o ∈ c.operations host m.env, o.Mirrors := by
  cases c with
  | complete A => exact hc.elim
  | provision A => exact hc.elim
  | status O => exact hc.elim
  | upgrade A =>
    by_cases hg : ∃ y, Gate A y m.env
    · obtain ⟨y, hy⟩ := hg
      rw [operations_upgrade host hy, operations_upgrade host' hy.swap, upgradeOperations_swap]
      refine .inr ⟨rfl, by simp [upgradeOperations, clearOperations], ?_⟩
      simp [upgradeOperations, clearOperations, writeOperations, describeOperations,
        switchOperations, Operation.Mirrors]
    · have hg' := mt exists_gate_swap.mp hg
      obtain ⟨t, ht⟩ := operations_upgrade_refused host (not_exists.mp hg)
      obtain ⟨t', ht'⟩ := operations_upgrade_refused host' (not_exists.mp hg')
      exact .inl ⟨t, t', ht, ht'⟩
  | revert O =>
    by_cases hg : ∃ x, RevertGate O x m.env
    · obtain ⟨x, hx⟩ := hg
      rw [operations_revert host hx, operations_revert host' hx.swap, revertOperations_swap]
      refine .inr ⟨rfl, by simp [revertOperations], ?_⟩
      simp [revertOperations, Operation.Mirrors]
    · have hg' := mt exists_revertGate_swap.mp hg
      obtain ⟨t, ht⟩ := operations_revert_refused host (not_exists.mp hg)
      obtain ⟨t', ht'⟩ := operations_revert_refused host' (not_exists.mp hg')
      exact .inl ⟨t, t', ht, ht'⟩
  | preventRevert O =>
    obtain ⟨y, hy⟩ := ha
    have hy' : m.swap.env "nerves_fw_active" = some y.other.name := by
      rw [swap_active, hy, Option.map_some, exchangeSlots_apply]
    rw [operations_preventRevert O host hy, operations_preventRevert O host' hy',
      preventRevertOperations_swap]
    refine .inr ⟨rfl, by simp [preventRevertOperations], ?_⟩
    simp [preventRevertOperations, Operation.Mirrors]
  | validate O =>
    rw [operations_validate, operations_validate, validateOperations_swap]
    refine .inr ⟨rfl, by simp [validateOperations], ?_⟩
    simp [validateOperations, Operation.Mirrors]
  | factoryReset O =>
    rw [operations_factoryReset, operations_factoryReset, factoryResetOperations_swap]
    refine .inr ⟨rfl, by simp [factoryResetOperations], ?_⟩
    simp [factoryResetOperations, Operation.Mirrors]

theorem run_swap {loss : Option PowerLoss} (hc : Mirrored (.fwup c loss))
    (ha : ∃ y : Slot, m.env "nerves_fw_active" = some y.name) (host host' : Host) :
    c.run host' loss m.swap = (c.run host loss m).swap := by
  obtain ⟨t, t', ht, ht'⟩ | ⟨hs, -, hm⟩ := operations_swap hc ha host host'
  · cases loss with
    | none => rw [Command.run_none, Command.run_none, ht, ht', perform_error, perform_error]
    | some l => rw [Command.run_some, Command.run_some, ht, ht', cut_error, cut_error]
  · have heq : ∀ o ∈ c.operations host m.env, Equivariant Operation.swap Media.swap machine o :=
      fun o ho => (hm o ho).equivariant
    cases loss with
    | none => rw [Command.run_none, Command.run_none, hs, perform_map heq]
    | some l => rw [Command.run_some, Command.run_some, hs, cut_map heq]

/-- Refusals and failures are the same with the slots exchanged. -/
theorem failure_swap {loss : Option PowerLoss} (hc : Mirrored (.fwup c loss))
    (ha : ∃ y : Slot, m.env "nerves_fw_active" = some y.name) (host host' : Host) :
    c.failure host' m.swap = none ↔ c.failure host m = none := by
  obtain ⟨t, t', ht, ht'⟩ | ⟨hs, hne, hm⟩ := operations_swap hc ha host host'
  · rw [Command.failure_eq (ht' ▸ List.cons_ne_nil _ _),
      Command.failure_eq (ht ▸ List.cons_ne_nil _ _), ht, ht', perform_error, perform_error]
    simp
  · have heq : ∀ o ∈ c.operations host m.env, Equivariant Operation.swap Media.swap machine o :=
      fun o ho => (hm o ho).equivariant
    rw [Command.failure_eq hne, Command.failure_eq (by simpa [hs] using hne), hs, perform_map heq]

@[simp] theorem swapValue_eq_empty {n v : String} : swapValue n v = "" ↔ v = "" := by
  have he : swapValue n "" = "" := by
    unfold swapValue
    split_ifs
    · exact exchangeSlots_of_ne fun x => by cases x <;> decide
    · rfl
  have hi : swapValue n (swapValue n v) = v := by
    unfold swapValue
    split_ifs
    · exact exchangeSlots_involutive _ v
    · rfl
  constructor
  · intro h
    rw [← hi, h, he]
  · rintro rfl
    exact he

/-- The import drops the same variables with the slots exchanged. -/
theorem import_swap : envImport m.swap.env =
    relabel swapVar (fun n => Option.map (swapValue n)) (envImport m.env) := by
  funext n
  have hempty : (m.env (swapVar n)).map (swapValue n) = some "" ↔ m.env (swapVar n) = some "" := by
    rw [Option.map_eq_some_iff]
    simp
  simp only [Media.swap, relabel_apply, envImport, hempty]
  split_ifs <;> rfl

theorem import_plain {n : String} (hn : Slot.owner n = none) (h : n ≠ "nerves_fw_active") :
    envImport m.swap.env n = envImport m.env n := by
  simp only [envImport, swap_env_plain hn h]

theorem fallsBack_swap (hush : Hush) :
    FallsBack hush m.swap.env ↔ FallsBack hush m.env := by
  simp only [FallsBack, import_plain Slot.owner_booted (by decide),
    import_plain Slot.owner_validated (by decide)]

/-- `nerves_init` does the same with the slots exchanged. -/
theorem savedEnv_swap (hush : Hush) (ha : m.env "nerves_fw_active" = some y.name) :
    savedEnv hush m.swap.env = Media.env (Media.swap { m with env := savedEnv hush m.env }) := by
  have ha' : m.swap.env "nerves_fw_active" = some y.other.name := by
    rw [swap_active, ha, Option.map_some, exchangeSlots_apply]
  have hb : envImport m.swap.env "nerves_fw_booted" = envImport m.env "nerves_fw_booted" :=
    import_plain Slot.owner_booted (by decide)
  have hup : swapVar "upgrade_available" = "upgrade_available" := swapVar_of_owner (by decide)
  have hbc : swapVar "bootcount" = "bootcount" := swapVar_of_owner (by decide)
  by_cases hbt : hush.test (envImport m.env "nerves_fw_booted") "1" = true
  · by_cases hf : FallsBack hush m.env
    · rw [savedEnv_fallsBack ha hf, savedEnv_fallsBack ha' ((fallsBack_swap hush).mpr hf),
        import_swap]
      simp [Media.swap, cleanEnv, relabel_update swapVar_involutive, swapVar_of_owner, hup, hbc,
        swapValue]
    · rw [savedEnv_stays hbt hf,
        savedEnv_stays (by rwa [hb]) fun h => hf ((fallsBack_swap hush).mp h)]
  · have hbt' : hush.test (envImport m.env "nerves_fw_booted") "1" = false := by simpa using hbt
    have hv : envImport m.swap.env "nerves_fw_validated" =
        envImport m.env "nerves_fw_validated" :=
      import_plain Slot.owner_validated (by decide)
    have hauto : envImport m.swap.env "nerves_fw_autovalidate" =
        envImport m.env "nerves_fw_autovalidate" := import_plain (by decide) (by decide)
    have hid : ∀ o : Option String, o.map (swapValue "nerves_fw_validated") = o := by
      rintro (_ | v)
      · rfl
      · simp [swapValue]
    rw [savedEnv_first hbt', savedEnv_first (by rwa [hb]), hv, hauto, import_swap]
    simp [Media.swap, cleanEnv, relabel_update swapVar_involutive, swapVar_of_owner, hup, hbc,
      swapValue, hid]

theorem boot_swap (hush : Hush) (ha : s.media.env "nerves_fw_active" = some y.name) :
    boot hush s.swap = (boot hush s).swap := by
  have hm : (boot hush s.swap).media = (boot hush s).media.swap := by
    rw [boot_media, boot_media]
    simp only [State.swap, savedEnv_swap hush ha]
    rfl
  have ha' : s.swap.media.env "nerves_fw_active" = some y.other.name := by
    simp only [State.swap, swap_active, ha, Option.map_some, exchangeSlots_apply]
  have hr : (boot hush s).host.root = some _ := boot_running (nextSlot_eq ha)
  have hr' : (boot hush s.swap).host.root = some _ := boot_running (nextSlot_eq ha')
  have hf : FallsBack hush s.swap.media.env ↔ FallsBack hush s.media.env := fallsBack_swap hush
  have hroot : (boot hush s.swap).host.root =
      (boot hush s).host.root.map (exchangeSlots Slot.device) := by
    rw [hr, hr', Option.map_some, exchangeSlots_apply]
    by_cases h : FallsBack hush s.media.env
    · rw [if_pos h, if_pos (hf.mpr h)]
    · rw [if_neg h, if_neg (mt hf.mp h)]
  exact congrArg₂ State.mk hm (congrArg Host.mk hroot)

theorem Mirrored.ne_complete (he : Mirrored e) (A : Archive) (loss : Option PowerLoss) :
    e ≠ .fwup (.complete A) loss := by
  rintro rfl
  exact he

theorem step_swap (hush : Hush) (he : Mirrored e)
    (ha : ∃ y : Slot, s.media.env "nerves_fw_active" = some y.name) :
    step hush s.swap e = (step hush s e).swap := by
  cases e with
  | boot =>
    obtain ⟨y, hy⟩ := ha
    exact boot_swap hush hy
  | fwup c loss =>
    simp only [step, State.swap, run_swap he ha s.host s.host.swap]

/-- Exchanging the slots commutes with every run of the tasks that come in pairs, wherever they
are interrupted, and changes nothing in what is refused or fails. -/
theorem slot_symmetry (hush : Hush) (s : State) (es : List Event)
    (ha : ∃ y : Slot, s.media.env "nerves_fw_active" = some y.name)
    (hes : ∀ e ∈ es, Mirrored e) :
    run hush s.swap es = (run hush s es).swap ∧
      ∀ c loss, Mirrored (.fwup c loss) →
        (c.failure (run hush s.swap es).host (run hush s.swap es).media = none ↔
          c.failure (run hush s es).host (run hush s es).media = none) := by
  have hrun : run hush s.swap es = (run hush s es).swap :=
    Trace.foldl_semiconj
      (I := fun s : State => ∃ y : Slot, s.media.env "nerves_fw_active" = some y.name)
      (fun _ e he => step_active hush (hes e he).ne_complete)
      (fun _ e he => step_swap hush (hes e he)) ha
  have hg : Trace.Guarded (step hush) (fun _ _ => True) s es := .of_forall fun _ _ _ => trivial
  have hact : ∃ y : Slot, (run hush s es).media.env "nerves_fw_active" = some y.name :=
    hg.invariant (I := fun s : State => ∃ y : Slot, s.media.env "nerves_fw_active" = some y.name)
      (fun s e he hs _ => step_active hush (hes e he).ne_complete hs) ha
  refine ⟨hrun, fun c loss hc => ?_⟩
  rw [hrun]
  exact failure_swap hc hact _ _

theorem slot_symmetry_sample :
    run plainHush sampleState.swap [.boot, .fwup (.upgrade sampleArchive) (some ⟨24, 0⟩), .boot] =
      (run plainHush sampleState
        [.boot, .fwup (.upgrade sampleArchive) (some ⟨24, 0⟩), .boot]).swap :=
  (slot_symmetry plainHush sampleState
    [.boot, .fwup (.upgrade sampleArchive) (some ⟨24, 0⟩), .boot] ⟨.a, rfl⟩
    (by simp [Mirrored])).1

end Runs

end NervesSystem
