import NervesSystem.Outcome
import NervesSystem.Installed

namespace NervesSystem
open Crash

/-- What a region holds after it is trimmed and `bytes` are written to it. -/
def renewed (discard : Option UInt8) (bytes region : Bytes) : Bytes :=
  match discard with
  | none => overlay bytes region
  | some v => overlay bytes (List.replicate region.length v)

section Region
variable {m : Media} {bytes xs region : Bytes}

theorem overlay_discarded :
    overlay bytes (m.discarded region.length region) = renewed m.discard bytes region := by
  unfold Media.discarded renewed
  cases m.discard with
  | none => rfl
  | some v => simp [overlay]

/-- A trim that is broken off does not matter to the trim and the write that follow. -/
theorem renewed_discarded (k : ℕ) :
    renewed m.discard bytes (m.discarded k region) = renewed m.discard bytes region := by
  unfold Media.discarded renewed
  cases m.discard with
  | none => rfl
  | some v =>
    simp only [length_overlay, List.length_replicate]
    rw [Nat.max_eq_right (Nat.min_le_right _ _)]

theorem renewed_overlay (discard : Option UInt8) (h : xs <+: bytes) :
    renewed discard bytes (overlay xs region) = renewed discard bytes region := by
  unfold renewed
  cases discard with
  | none => exact overlay_overlay h region
  | some v =>
    have hle : xs.length ≤ bytes.length := h.length_le
    simp only [overlay_replicate, length_overlay]
    congr 2
    omega

end Region

section Interrupted
variable {A : Archive} {x : Slot} {m : Media}

/-- The rootfs that an upgrade from `m` ends with. -/
def renewal (A : Archive) (x : Slot) (m : Media) : Bytes :=
  renewed m.discard A.rootfs.target (m.raw (.rootfs x))

theorem upgrade_frames_renewal {o : Operation} (ho : o ∈ upgradeOperations A x) :
    Frames machine (renewal A x) o := by
  have hcases : ¬ o.Writes (.rootfs x) ∨ o = .trim (.rootfs x) ∨
      o = .rawWrite (.rootfs x) A.rootfs (some (.rootfs x.other)) := by
    revert o
    simp [upgradeOperations, clearOperations, writeOperations, describeOperations,
      switchOperations, Operation.Writes]
  have hd := frames_discard o
  -- Only the trim and the write of the rootfs matter, and both are absorbed.
  rcases hcases with hw | rfl | rfl
  · have hr := frames_raw hw
    constructor
    · intro m k
      simp only [renewal, hd.torn m k, hr.torn m k]
    · intro m m' h
      simp only [renewal, hd.exec m m' h, hr.exec m m' h]
  · constructor
    · intro m k
      cases k with
      | zero => rfl
      | succ k =>
        simp only [renewal, machine, torn, Function.update_self]
        exact renewed_discarded (k + 1)
    · rintro m m' h
      cases h
      simp only [renewal, Function.update_self]
      exact renewed_discarded _
  · constructor
    · intro m k
      cases k with
      | zero => rfl
      | succ k =>
        simp only [machine, torn]
        split
        · next b hb =>
          obtain ⟨-, rfl⟩ := Payload.reconstruct_eq_some.mp hb
          simp only [renewal, Media.write, Function.update_self]
          exact renewed_overlay _ (List.take_prefix _ _)
        · rfl
    · rintro m m' h
      rw [(exec_rawWrite.mp h).2]
      simp only [renewal, Media.write, Function.update_self]
      exact renewed_overlay _ (List.prefix_refl _)

/-- Before on-finish begins there are eleven operations. -/
theorem cut_early {n : ℕ} (hn : n ≤ 11) (k : ℕ) (m : Media) :
    cut machine (upgradeOperations A x) n k m =
      cut machine (clearOperations x ++ writeOperations A x) n k m := by
  have hlen : (clearOperations x ++ writeOperations A x).length = 11 := rfl
  have happ : upgradeOperations A x = (clearOperations x ++ writeOperations A x) ++
      (describeOperations A x ++ switchOperations x) := by
    simp [upgradeOperations]
  rw [happ, cut_append, hlen]
  split_ifs with h
  · rfl
  · obtain rfl : n = 11 := by omega
    rw [← perform_fst (clearOperations x ++ writeOperations A x) 11 k (Nat.le_refl _)]
    rcases perform machine (clearOperations x ++ writeOperations A x) m with ⟨u, _ | e⟩
    · exact torn_setenv _ _ _ _
    · rfl

/-- The bytes of resource.img that are in place when power is lost. -/
def resourceWritten (A : Archive) (l : PowerLoss) : Bytes :=
  if l.operations < 9 then []
  else if l.operations = 9 then A.resource.target.take l.bytes
  else A.resource.target

theorem cut_resource (h : A.Applies x m) (l : PowerLoss) :
    (cut machine (upgradeOperations A x) l.operations l.bytes m).raw .resource =
      overlay (resourceWritten A l) (m.raw .resource) := by
  let xs := (upgradeOperations A x).take 9
  let ys := (upgradeOperations A x).drop 10
  have hsplit : upgradeOperations A x =
      xs ++ .rawWrite .resource A.resource (some .resource) :: ys := rfl
  have hxs : ∀ o ∈ xs, Frames machine (fun m : Media => m.raw .resource) o := by
    intro o ho
    apply frames_raw
    revert o
    simp [xs, upgradeOperations, clearOperations, writeOperations, Operation.Writes]
  have hys : ∀ o ∈ ys, Frames machine (fun m : Media => m.raw .resource) o := by
    intro o ho
    apply frames_raw
    revert o
    simp [ys, upgradeOperations, clearOperations, writeOperations, describeOperations,
      switchOperations, Operation.Writes]
  have hrun := perform_upgrade.mpr ⟨h, rfl⟩
  rw [hsplit, perform_append_none] at hrun
  obtain ⟨u, hu, hrest⟩ := hrun
  obtain ⟨v, hv, -⟩ := perform_cons_none.mp hrest
  obtain ⟨hap, rfl⟩ := exec_rawWrite.mp hv
  have hur : u.raw .resource = m.raw .resource := by
    have hf := perform_frame hxs m
    rwa [hu] at hf
  have hlen : xs.length = 9 := rfl
  rw [hsplit, cut_append, hlen, hu]
  unfold resourceWritten
  split_ifs with h9 h9'
  · exact cut_frame hxs _ _ m
  · simp only [h9', Nat.sub_self, cut_zero]
    cases l.bytes with
    | zero => exact hur
    | succ k =>
      simp only [machine, torn, Payload.reconstruct_of_applies hap, Media.write,
        Function.update_self, hur]
  · obtain ⟨j, hj⟩ := Nat.exists_eq_add_of_le (show 10 ≤ l.operations by omega)
    rw [show l.operations - 9 = j + 1 by omega]
    simp only [cut_succ_ok hv]
    refine (cut_frame hys _ _ _).trans ?_
    simp only [Media.write, Function.update_self, hur]

end Interrupted

section Result
variable {A : Archive} {x : Slot} {m m' : Media}

/-- The variables of the firmware, of one slot or of both. -/
def FirmwareVar (n : String) : Prop :=
  ∃ p ∈ ["nerves_fw_", "a.nerves_fw_", "b.nerves_fw_"], p.toList <+: n.toList

instance (n : String) : Decidable (FirmwareVar n) := inferInstanceAs (Decidable (∃ p ∈ _, _))

/-- The same files, regions and firmware variables. -/
structure SameResult (m m' : Media) : Prop where
  fat : m'.fat = m.fat
  raw : m'.raw = m.raw
  env : ∀ n, FirmwareVar n → m'.env n = m.env n

theorem upgraded_fat : (upgraded A x m).fat =
    Function.update (Function.update (Function.update m.fat x.image (some A.image.target))
      x.dtb (some A.devicetree.target)) extlinuxPath (some (.conf (extlinux x))) := rfl

theorem upgraded_rootfs : (upgraded A x m).raw (.rootfs x) = renewal A x m := by
  have h : (upgraded A x m).raw (.rootfs x) = (written A x (cleared x m)).raw (.rootfs x) := rfl
  rw [h, written_raw_rootfs, renewal, ← overlay_discarded]
  simp [cleared]

theorem upgraded_resource :
    (upgraded A x m).raw .resource = overlay A.resource.target (m.raw .resource) := by
  have h : (upgraded A x m).raw .resource = (written A x (cleared x m)).raw .resource := rfl
  simp [h, written, cleared, Media.write, Media.fatPut, Media.unsetenv]

theorem upgraded_raw {r : Region} (hr : r ≠ .rootfs x) (hs : r ≠ .resource) :
    (upgraded A x m).raw r = m.raw r := by
  have h : (upgraded A x m).raw r = (written A x (cleared x m)).raw r := rfl
  simp [h, written, cleared, Media.write, Media.fatPut, Media.unsetenv, hr, hs]

def describedVars : List String :=
  ["nerves_fw_application_part0_devpath", "nerves_fw_application_part0_fstype",
   "nerves_fw_application_part0_target", "nerves_fw_product", "nerves_fw_description",
   "nerves_fw_version", "nerves_fw_platform", "nerves_fw_architecture", "nerves_fw_author",
   "nerves_fw_vcs_identifier", "nerves_fw_misc", "nerves_fw_uuid"]

/-- The variables that an upgrade of slot `x` sets. -/
def setVars (x : Slot) : List String :=
  ["nerves_fw_active", "nerves_fw_validated", "nerves_fw_booted"] ++ describedVars.map x.var

theorem upgraded_env {n : String} (h : n ∈ setVars x) :
    (upgraded A x m').env n = (upgraded A x m).env n := by
  simp only [setVars, describedVars, List.map_cons, List.map_nil, List.cons_append,
    List.nil_append, List.mem_cons, List.not_mem_nil, or_false] at h
  rcases h with rfl | rfl | rfl | rfl | rfl | rfl | rfl | rfl | rfl | rfl | rfl | rfl | rfl | rfl |
    rfl <;>
    simp [upgraded, switched, described, describeOperations, perform, machine, exec, Media.setenv]

theorem upgrade_sets_vars {n : String} (h : n ∉ setVars x) {o : Operation}
    (ho : o ∈ upgradeOperations A x) : ¬ o.Sets n := by
  simp only [setVars, describedVars, List.map_cons, List.map_nil, List.cons_append,
    List.nil_append, List.mem_cons, List.not_mem_nil, or_false, not_or] at h
  obtain ⟨h1, h2, h3, h4, h5, h6, h7, h8, h9, h10, h11, h12, h13, h14, h15⟩ := h
  revert o
  simp [upgradeOperations, clearOperations, writeOperations, describeOperations,
    switchOperations, Operation.Sets, Ne.symm h1, Ne.symm h2, Ne.symm h3, Ne.symm h4, Ne.symm h5,
    Ne.symm h6, Ne.symm h7, Ne.symm h8, Ne.symm h9, Ne.symm h10, Ne.symm h11, Ne.symm h12,
    Ne.symm h13, Ne.symm h14, Ne.symm h15]

theorem upgraded_frame {n : String} (ha : A.Applies x m) (h : n ∉ setVars x) :
    (upgraded A x m).env n = m.env n := by
  have hf := perform_frame (f := fun m : Media => m.env n)
    (fun _ ho => frames_env (upgrade_sets_vars (A := A) h ho)) m
  rwa [perform_upgrade.mpr ⟨ha, rfl⟩] at hf

/-- Two upgrades write the same files and regions if they start from disks that differ only in
what upgrades replace. -/
theorem upgraded_fat_eq (hf : ∀ path, path ≠ x.image → path ≠ x.dtb → path ≠ extlinuxPath →
    m'.fat path = m.fat path) : (upgraded A x m').fat = (upgraded A x m).fat := by
  funext path
  rw [upgraded_fat, upgraded_fat]
  by_cases h1 : path = extlinuxPath
  · simp [h1]
  by_cases h2 : path = x.dtb
  · simp [h2]
  by_cases h3 : path = x.image
  · simp [h3]
  · simp only [Function.update_of_ne h1, Function.update_of_ne h2, Function.update_of_ne h3]
    exact hf path h3 h2 h1

theorem upgraded_raw_eq (hr : ∀ r, r ≠ .rootfs x → r ≠ .resource → m'.raw r = m.raw r)
    (hroot : renewal A x m' = renewal A x m)
    (hres : overlay A.resource.target (m'.raw .resource) =
      overlay A.resource.target (m.raw .resource)) :
    (upgraded A x m').raw = (upgraded A x m).raw := by
  funext r
  by_cases h1 : r = .rootfs x
  · rw [h1, upgraded_rootfs, upgraded_rootfs, hroot]
  by_cases h2 : r = .resource
  · rw [h2, upgraded_resource, upgraded_resource, hres]
  · rw [upgraded_raw h1 h2, upgraded_raw h1 h2, hr r h1 h2]

end Result

section Retry
variable {hush : Hush} {A : Archive} {y : Slot} {s : State} {l : PowerLoss}

/-- What a boot leaves of the variables that it does not set: all of them if it saves nothing, or
those with a value. -/
def bootLeaves (hush : Hush) (env : Env) : Env :=
  if hush.test (envImport env "nerves_fw_booted") "1" = true then env else envImport env

theorem bootLeaves_carried (env : Env) (n : String) :
    Carried (env n) (bootLeaves hush env n) := by
  unfold bootLeaves
  split_ifs
  · exact .refl _
  · exact carried_import env n

/-- What is left of the environment when an early interruption is followed by a boot. -/
theorem early_env (hg : Gate A y s.media.env) (hl : l.operations ≤ 11) (hush : Hush) :
    let t := run hush s [.fwup (.upgrade A) (some l), .boot]
    Gate A y t.media.env ∧ ∀ n, n ∉ setVars y.other → n ≠ "upgrade_available" →
      n ≠ "bootcount" → t.media.env n = bootLeaves hush s.media.env n := by
  intro t
  let m := cut machine (upgradeOperations A y.other) l.operations l.bytes s.media
  have hm : (Command.upgrade A).run s.host (some l) s.media = m := by
    rw [Command.run_some, operations_upgrade s.host hg]
  have ht : t.media.env = savedEnv hush m.env := by
    simp only [t, run_cons, run_nil, step, boot_env, hm]
  -- Before on-finish the task only unsets variables of the slot that it upgrades.
  have hcut : ∀ n, Slot.owner n ≠ some y.other → m.env n = s.media.env n := by
    intro n hn
    have hv := fun v => Slot.var_ne_of_owner (v := v) hn
    simp only [m, cut_early hl]
    refine cut_frame (f := fun m : Media => m.env n) (fun o ho => frames_env ?_) _ _ _
    revert o
    simp [clearOperations, writeOperations, Operation.Sets, hv]
  have hset : ∀ n, n ∉ setVars y.other → m.env n = s.media.env n := fun n hn =>
    cut_frame (f := fun m : Media => m.env n)
      (fun _ ho => frames_env (upgrade_sets_vars hn ho)) _ _ _
  have hact : m.env "nerves_fw_active" = some y.name := (hcut _ (by simp)).trans hg.active
  have hval : m.env "nerves_fw_validated" = some "1" := (hcut _ (by simp)).trans hg.validated
  have hboot : envImport m.env "nerves_fw_booted" = envImport s.media.env "nerves_fw_booted" := by
    simp only [envImport, hcut _ (show Slot.owner "nerves_fw_booted" ≠ some y.other by simp)]
  have hf : ¬ FallsBack hush m.env := not_fallsBack hval
  have hyt (v w : String) (hw : s.media.env (y.var v) = some w) (hne : w ≠ "") :
      t.media.env (y.var v) = some w := by
    have hmv : m.env (y.var v) = some w := (hcut _ (by simp)).trans hw
    rw [ht, (savedEnv_frame (Slot.var_not_mem (by decide)) hact).eq (by simpa [hmv] using hne),
      hmv]
  refine ⟨⟨?_, ?_, hyt _ _ hg.platform A.platform_ne, hyt _ _ hg.architecture A.architecture_ne⟩,
    fun n hn hu hb => ?_⟩
  · rw [ht, savedEnv_active hact, if_neg hf]
  · rw [ht, savedEnv_validated hact (by simp [hval]), hval, ite_self]
  · have hn' : n ∉ bootVars := by
      simp only [setVars, List.mem_append, List.mem_cons, List.not_mem_nil, or_false, not_or] at hn
      simp [bootVars, hn.1.1, hn.1.2.1, hn.1.2.2, hu, hb]
    rw [ht, bootLeaves, ← hboot]
    split_ifs with hsaved
    · rw [savedEnv_stays hsaved hf, hset n hn]
    · rw [savedEnv_import hn' (Bool.not_eq_true _ ▸ hsaved)]
      simp only [envImport, hset n hn]

theorem early_applies (hush : Hush) (l : PowerLoss) (hg : Gate A y s.media.env)
    (ha : A.Applies y.other s.media) :
    let t := run hush s [.fwup (.upgrade A) (some l), .boot]
    t.media.raw .resource = overlay (resourceWritten A l) (s.media.raw .resource) ∧
      (A.Applies y.other t.media ↔
        A.resource.Applies (some (overlay (resourceWritten A l) (s.media.raw .resource)))) := by
  intro t
  let m := cut machine (upgradeOperations A y.other) l.operations l.bytes s.media
  have hm : (Command.upgrade A).run s.host (some l) s.media = m := by
    rw [Command.run_some, operations_upgrade s.host hg]
  have hf : t.media.fat = m.fat := by simp only [t, run_cons, run_nil, step, boot_fat, hm]
  have hr : t.media.raw = m.raw := by simp only [t, run_cons, run_nil, step, boot_raw, hm]
  have hres : t.media.raw .resource = overlay (resourceWritten A l) (s.media.raw .resource) := by
    rw [hr]
    exact cut_resource ha l
  have hs : SameSlot y s.media m := hm ▸ hg.run_sameSlot s.host (some l)
  refine ⟨hres, fun h => hres ▸ h.resource, fun h => ⟨?_, ?_, hres ▸ h, ?_⟩⟩
  · rw [hf, Slot.other_other, hs.image]
    simpa using ha.image
  · rw [hf, Slot.other_other, hs.dtb]
    simpa using ha.devicetree
  · rw [hr, Slot.other_other, hs.rootfs]
    simpa using ha.rootfs

/-- What the interruption left of the resource partition decides whether the deltas still apply. -/
theorem retry_applies (hush : Hush) (l : PowerLoss) (hg : Gate A y s.media.env)
    (ha : A.Applies y.other s.media) :
    A.Applies y.other (run hush s [.fwup (.upgrade A) (some l), .boot]).media ↔
      (∃ contents, A.resource = .full contents) ∨
        resourceWritten A l <+: s.media.raw .resource := by
  rw [(early_applies hush l hg ha).2, ← overlay_eq_self]
  have hs := ha.resource
  cases hA : A.resource with
  | full contents => simp [Payload.Applies]
  | delta made tgt =>
    rw [hA] at hs
    obtain rfl : s.media.raw .resource = made := by simpa [Payload.Applies] using hs
    simp [Payload.Applies]

theorem resourceWritten_prefix : resourceWritten A l <+: A.resource.target := by
  unfold resourceWritten
  split_ifs
  · exact List.nil_prefix
  · exact List.take_prefix _ _
  · exact List.prefix_refl _

/-- Everything that the first run left on the FAT and in the regions is replaced by the second. -/
theorem retry_files (hush : Hush) (hg : Gate A y s.media.env) (ha : A.Applies y.other s.media) :
    let t := run hush s [.fwup (.upgrade A) (some l), .boot]
    (upgraded A y.other t.media).fat = (upgraded A y.other s.media).fat ∧
      (upgraded A y.other t.media).raw = (upgraded A y.other s.media).raw := by
  intro t
  let m := cut machine (upgradeOperations A y.other) l.operations l.bytes s.media
  have hm : t.media = { m with env := savedEnv hush m.env } := by
    simp only [t, run_cons, run_nil, step, boot_media, Command.run_some,
      operations_upgrade s.host hg]
    rfl
  refine ⟨upgraded_fat_eq fun path h1 h2 h3 => ?_, upgraded_raw_eq (fun r h1 h2 => ?_) ?_ ?_⟩
  · rw [hm]
    exact cut_frame (f := fun m : Media => m.fat path)
      (fun _ ho => frames_fat (upgrade_puts h1 h2 h3 ho)) _ _ _
  · rw [hm]
    exact cut_frame (f := fun m : Media => m.raw r)
      (fun _ ho => frames_raw (upgrade_writes h1 h2 ho)) _ _ _
  · have hroot : renewal A y.other { m with env := savedEnv hush m.env } =
        renewal A y.other m := rfl
    rw [hm, hroot]
    exact cut_frame (fun _ ho => upgrade_frames_renewal ho) _ _ _
  · rw [(early_applies hush l hg ha).1]
    exact overlay_overlay resourceWritten_prefix _

theorem retry_env (hush : Hush) {n : String} (hg : Gate A y s.media.env)
    (ha : A.Applies y.other s.media) (hl : l.operations ≤ 11)
    (hat : A.Applies y.other (run hush s [.fwup (.upgrade A) (some l), .boot]).media)
    (hn : n ∉ setVars y.other) (hu : n ≠ "upgrade_available") (hb : n ≠ "bootcount") :
    (upgraded A y.other (run hush s [.fwup (.upgrade A) (some l), .boot]).media).env n =
        bootLeaves hush s.media.env n ∧
      (upgraded A y.other s.media).env n = s.media.env n :=
  ⟨(upgraded_frame hat hn).trans ((early_env hg hl hush).2 n hn hu hb), upgraded_frame ha hn⟩

theorem retry_failure (hush : Hush) (hg : Gate A y s.media.env) (hl : l.operations ≤ 11) :
    let t := run hush s [.fwup (.upgrade A) (some l), .boot]
    (Command.upgrade A).failure t.host t.media = none ↔ A.Applies y.other t.media := by
  intro t
  have hgt : Gate A y t.media.env := (early_env hg hl hush).1
  rw [upgrade_failure]
  constructor
  · rintro ⟨y', hy', h⟩
    rwa [hgt.eq hy']
  · intro h
    exact ⟨y, hgt, h⟩

/-- The boot between two upgrades of slot `x` drops no variable of the firmware that the second
does not set: it saves nothing, or there is nothing to drop. -/
def DropsNothing (hush : Hush) (x : Slot) (env : Env) : Prop :=
  hush.test (envImport env "nerves_fw_booted") "1" = true ∨
    ∀ n, FirmwareVar n → n ∉ setVars x → env n ≠ some ""

theorem dropsNothing_iff {x : Slot} {env : Env} : DropsNothing hush x env ↔
    ∀ n, FirmwareVar n → n ∉ setVars x → bootLeaves hush env n = env n := by
  unfold DropsNothing bootLeaves
  constructor
  · rintro (h | h) n hn hx
    · rw [if_pos h]
    · split_ifs
      · rfl
      · exact import_of_ne (h n hn hx)
  · intro h
    by_cases hb : hush.test (envImport env "nerves_fw_booted") "1" = true
    · exact .inl hb
    · refine .inr fun n hn hx he => import_ne env n ?_
      rw [if_neg hb] at h
      rw [h n hn hx, he]

/-- An upgrade that was interrupted before its on-finish can be made again unless it has changed
the resource partition that resource.img is a delta to. The result is that of one that was not
interrupted, but for variables without a value if the boot in between saves the environment. -/
theorem retry_iff (hush : Hush) (hg : Gate A y s.media.env) (ha : A.Applies y.other s.media)
    (hl : l.operations ≤ 11) :
    let t := run hush s [.fwup (.upgrade A) (some l), .boot]
    ((Command.upgrade A).failure t.host t.media = none ∧
      SameResult ((Command.upgrade A).run s.host none s.media)
        ((Command.upgrade A).run t.host none t.media)) ↔
    ((∃ contents, A.resource = .full contents) ∨
      resourceWritten A l <+: s.media.raw .resource) ∧ DropsNothing hush y.other s.media.env := by
  intro t
  have hgt : Gate A y t.media.env := (early_env hg hl hush).1
  have happ : A.Applies y.other t.media ↔ _ := retry_applies hush l hg ha
  have hfail : (Command.upgrade A).failure t.host t.media = none ↔ A.Applies y.other t.media :=
    retry_failure hush hg hl
  rw [← happ, hfail, dropsNothing_iff]
  refine and_congr_right fun hat => ?_
  rw [run_upgrade s.host hg ha, run_upgrade t.host hgt hat]
  have henv {n : String} (hn : FirmwareVar n) (hx : n ∉ setVars y.other) := retry_env hush hg ha hl
    hat hx (fun h => absurd (h ▸ hn) (by decide)) (fun h => absurd (h ▸ hn) (by decide))
  constructor
  · intro h n hn hx
    rw [← (henv hn hx).1, h.env n hn, (henv hn hx).2]
  · intro h
    obtain ⟨hfat, hraw⟩ := retry_files (l := l) hush hg ha
    refine ⟨hfat, hraw, fun n hn => ?_⟩
    by_cases hx : n ∈ setVars y.other
    · exact upgraded_env hx
    · rw [(henv hn hx).1, h n hn hx, (henv hn hx).2]

/-- Whatever the environment holds, no variable with a value is lost. -/
theorem retry_carried (hush : Hush) {n : String} (hg : Gate A y s.media.env)
    (ha : A.Applies y.other s.media) (hl : l.operations ≤ 11)
    (hat : A.Applies y.other (run hush s [.fwup (.upgrade A) (some l), .boot]).media)
    (hu : n ≠ "upgrade_available") (hb : n ≠ "bootcount") :
    let t := run hush s [.fwup (.upgrade A) (some l), .boot]
    Carried (((Command.upgrade A).run s.host none s.media).env n)
      (((Command.upgrade A).run t.host none t.media).env n) := by
  intro t
  rw [run_upgrade s.host hg ha, run_upgrade t.host (early_env hg hl hush).1 hat]
  by_cases hx : n ∈ setVars y.other
  · exact .inl (upgraded_env hx)
  · obtain ⟨h1, h2⟩ := retry_env hush hg ha hl hat hx hu hb
    rw [h1, h2]
    exact bootLeaves_carried _ _

theorem retry_sample : SameResult
    ((Command.upgrade sampleArchive).run (run plainHush sampleState [.boot]).host none
      (run plainHush sampleState [.boot]).media)
    ((Command.upgrade sampleArchive).run
      (run plainHush (run plainHush sampleState [.boot])
        [.fwup (.upgrade sampleArchive) (some ⟨10, 2⟩), .boot]).host none
      (run plainHush (run plainHush sampleState [.boot])
        [.fwup (.upgrade sampleArchive) (some ⟨10, 2⟩), .boot]).media) :=
  ((retry_iff plainHush (A := sampleArchive) (y := .a) (l := ⟨10, 2⟩)
    (s := run plainHush sampleState [.boot]) (by decide +kernel)
    ⟨trivial, trivial, trivial, trivial⟩ (by decide)).mpr
      ⟨.inl ⟨_, rfl⟩, .inl (by decide +kernel)⟩).2

/-- An archive whose resource.img is a delta to the one of `sampleArchive`. -/
def deltaArchive : Archive :=
  { sampleArchive with resource := .delta [0x52, 0x53] [0x54, 0x55] }

/-- One byte of the new resource.img is in place, and the delta to the old one is of no use. -/
theorem retry_fails :
    let s := run plainHush sampleState [.boot]
    (Command.upgrade deltaArchive).failure s.host s.media = none ∧
      let t := run plainHush s [.fwup (.upgrade deltaArchive) (some ⟨9, 1⟩), .boot]
      (Command.upgrade deltaArchive).failure t.host t.media = some .delta := by
  decide +kernel

end Retry

end NervesSystem
