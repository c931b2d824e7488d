import NervesSystem.Tasks

namespace NervesSystem
open Crash

/-- Everything upgrade.x does before it touches the slot selection. -/
def bodyOperations (A : Archive) (x : Slot) : List Operation :=
  clearOperations x ++ writeOperations A x ++ describeOperations A x

theorem upgradeOperations_eq (A : Archive) (x : Slot) :
    upgradeOperations A x = bodyOperations A x ++ switchOperations x := rfl

/-- Slot `x` holds the kernel, the device tree and the root file system of `A`. -/
structure Written (A : Archive) (x : Slot) (m : Media) : Prop where
  image : m.fat x.image = some A.image.target
  dtb : m.fat x.dtb = some A.devicetree.target
  rootfs : A.rootfs.target <+: m.raw (.rootfs x)

/-- The deltas of `A` were made against what their declared sources hold. -/
structure Archive.Applies (A : Archive) (x : Slot) (m : Media) : Prop where
  image : A.image.Applies (m.fat x.other.image)
  devicetree : A.devicetree.Applies (m.fat x.other.dtb)
  resource : A.resource.Applies (some (m.raw .resource))
  rootfs : A.rootfs.Applies (some (m.raw (.rootfs x.other)))

theorem Written.congr {A : Archive} {x : Slot} {m m' : Media} (h : Written A x m)
    (hi : m'.fat x.image = m.fat x.image) (hd : m'.fat x.dtb = m.fat x.dtb)
    (hr : m'.raw (.rootfs x) = m.raw (.rootfs x)) : Written A x m' :=
  ⟨hi.trans h.image, hd.trans h.dtb, hr ▸ h.rootfs⟩

/-- The three variables that select the slot. -/
def Media.triple (m : Media) : Option String × Option String × Option String :=
  (m.env "nerves_fw_active", m.env "nerves_fw_validated", m.env "nerves_fw_booted")

section Frames
variable {A : Archive} {x y : Slot} {n path : String} {r : Region} {o : Operation}

theorem clear_sets (h : Slot.owner n ≠ some x) (ho : o ∈ clearOperations x) : ¬ o.Sets n := by
  have hv := fun v => Slot.var_ne_of_owner (v := v) h
  revert o
  simp [clearOperations, Operation.Sets, hv]

theorem write_sets (ho : o ∈ writeOperations A x) : ¬ o.Sets n := by
  revert o
  simp [writeOperations, Operation.Sets]

theorem describe_sets (h : Slot.owner n ≠ some x) (ho : o ∈ describeOperations A x) :
    ¬ o.Sets n := by
  have hv := fun v => Slot.var_ne_of_owner (v := v) h
  revert o
  simp [describeOperations, Operation.Sets, hv]

theorem switch_sets (ha : n ≠ "nerves_fw_active") (hv : n ≠ "nerves_fw_validated")
    (hb : n ≠ "nerves_fw_booted") (ho : o ∈ switchOperations x) : ¬ o.Sets n := by
  revert o
  simp [switchOperations, Operation.Sets, ha.symm, hv.symm, hb.symm]

theorem body_sets (h : Slot.owner n ≠ some x) (ho : o ∈ bodyOperations A x) : ¬ o.Sets n := by
  simp only [bodyOperations, List.mem_append] at ho
  rcases ho with (ho | ho) | ho
  · exact clear_sets h ho
  · exact write_sets ho
  · exact describe_sets h ho

theorem upgrade_sets (h : Slot.owner n ≠ some x) (ha : n ≠ "nerves_fw_active")
    (hv : n ≠ "nerves_fw_validated") (hb : n ≠ "nerves_fw_booted")
    (ho : o ∈ upgradeOperations A x) : ¬ o.Sets n := by
  rcases List.mem_append.mp ho with ho | ho
  · exact body_sets h ho
  · exact switch_sets ha hv hb ho

theorem upgrade_puts (hi : path ≠ x.image) (hd : path ≠ x.dtb) (he : path ≠ extlinuxPath)
    (ho : o ∈ upgradeOperations A x) : ¬ o.Puts path := by
  revert o
  simp [upgradeOperations, clearOperations, writeOperations, describeOperations,
    switchOperations, Operation.Puts, hi.symm, hd.symm, he.symm]

theorem upgrade_writes (hr : r ≠ .rootfs x) (hs : r ≠ .resource)
    (ho : o ∈ upgradeOperations A x) : ¬ o.Writes r := by
  revert o
  simp [upgradeOperations, clearOperations, writeOperations, describeOperations,
    switchOperations, Operation.Writes, hr.symm, hs.symm]

end Frames

section Effect
variable (A : Archive) (x : Slot) (m : Media)

def cleared : Media :=
  { ((((m.unsetenv (x.var "nerves_fw_version")).unsetenv (x.var "nerves_fw_platform")).unsetenv
      (x.var "nerves_fw_architecture")).unsetenv (x.var "nerves_fw_uuid")) with
    raw := Function.update m.raw (.rootfs x)
      (m.discarded (m.raw (.rootfs x)).length (m.raw (.rootfs x))) }

def written : Media :=
  ((((m.fatPut x.image (some A.image.target)).fatPut x.dtb (some A.devicetree.target)).fatPut
    extlinuxPath (some (.conf (extlinux x)))).write .resource A.resource.target).write
      (.rootfs x) A.rootfs.target

def described : Media :=
  (perform machine (describeOperations A x) m).1

def switched : Media :=
  ((m.setenv "nerves_fw_active" x.name).setenv "nerves_fw_validated" "0").setenv
    "nerves_fw_booted" "0"

/-- The disk after a whole upgrade. -/
def upgraded : Media := switched x (described A x (written A x (cleared x m)))

theorem perform_clear : perform machine (clearOperations x) m = (cleared x m, none) := rfl

theorem perform_describe :
    perform machine (describeOperations A x) m = (described A x m, none) := rfl

theorem perform_switch : perform machine (switchOperations x) m = (switched x m, none) := rfl

variable {A x m} {m' : Media}

@[simp] theorem image_ne_extlinuxPath : x.image ≠ extlinuxPath := by cases x <;> decide

@[simp] theorem dtb_ne_extlinuxPath : x.dtb ≠ extlinuxPath := by cases x <;> decide

theorem written_raw_rootfs :
    (written A x m).raw (.rootfs x) = overlay A.rootfs.target (m.raw (.rootfs x)) := by
  simp [written, Media.write, Media.fatPut]

theorem written_written : Written A x (written A x m) where
  image := by simp [written, Media.write, Media.fatPut, Function.update_of_ne]
  dtb := by simp [written, Media.write, Media.fatPut, Function.update_of_ne]
  rootfs := by rw [written_raw_rootfs]; exact prefix_overlay _ _

/-- The files are written if and only if the deltas among them apply. -/
theorem perform_write : perform machine (writeOperations A x) m = (m', none) ↔
    A.Applies x m ∧ m' = written A x m := by
  -- Each delta reads a place that no operation before it has written.
  simp only [writeOperations, perform_cons_none, exec_fatWrite, exec_rawWrite, perform_nil,
    Prod.mk.injEq, and_true]
  constructor
  · rintro ⟨_, ⟨hi, rfl⟩, _, ⟨hd, rfl⟩, _, ⟨-, rfl⟩, _, ⟨hr, rfl⟩, _, ⟨hf, rfl⟩, rfl⟩
    refine ⟨⟨hi, ?_, ?_, ?_⟩, rfl⟩
    · simpa [Media.fatPut] using hd
    · simpa [Media.fatPut] using hr
    · simpa [Media.fatPut, Media.write] using hf
  · rintro ⟨⟨hi, hd, hr, hf⟩, rfl⟩
    refine ⟨_, ⟨hi, rfl⟩, _, ⟨?_, rfl⟩, _, ⟨trivial, rfl⟩, _, ⟨?_, rfl⟩, _, ⟨?_, rfl⟩, rfl⟩
    · simpa [Media.fatPut] using hd
    · simpa [Media.fatPut] using hr
    · simpa [Media.fatPut, Media.write] using hf

theorem applies_cleared : A.Applies x (cleared x m) ↔ A.Applies x m := by
  have hr : (cleared x m).raw .resource = m.raw .resource := by simp [cleared]
  have hf : (cleared x m).raw (.rootfs x.other) = m.raw (.rootfs x.other) := by simp [cleared]
  constructor
  · rintro ⟨h1, h2, h3, h4⟩
    exact ⟨h1, h2, hr ▸ h3, hf ▸ h4⟩
  · rintro ⟨h1, h2, h3, h4⟩
    exact ⟨h1, h2, hr.symm ▸ h3, hf.symm ▸ h4⟩

theorem perform_body : perform machine (bodyOperations A x) m = (m', none) ↔
    A.Applies x m ∧ m' = described A x (written A x (cleared x m)) := by
  simp only [bodyOperations, perform_append_none, perform_clear, perform_describe,
    perform_write, Prod.mk.injEq, and_true]
  constructor
  · rintro ⟨_, ⟨_, rfl, h, rfl⟩, rfl⟩
    exact ⟨applies_cleared.mp h, rfl⟩
  · rintro ⟨h, rfl⟩
    exact ⟨_, ⟨_, rfl, applies_cleared.mpr h, rfl⟩, rfl⟩

/-- An upgrade runs to its end if and only if its deltas apply. -/
theorem perform_upgrade : perform machine (upgradeOperations A x) m = (m', none) ↔
    A.Applies x m ∧ m' = upgraded A x m := by
  simp only [upgradeOperations_eq, perform_append_none, perform_body, perform_switch,
    Prod.mk.injEq, and_true]
  constructor
  · rintro ⟨_, ⟨h, rfl⟩, rfl⟩
    exact ⟨h, rfl⟩
  · rintro ⟨h, rfl⟩
    exact ⟨_, ⟨h, rfl⟩, rfl⟩

end Effect

section Phases
variable {A : Archive} {x y : Slot} {m : Media}
variable {t : Option String × Option String × Option String}

theorem frames_triple {o : Operation} (h : ∀ n, Slot.owner n = none → ¬ o.Sets n) :
    Frames machine Media.triple o where
  torn m k := by
    have ha := (frames_env (h "nerves_fw_active" (by decide))).torn m k
    have hv := (frames_env (h "nerves_fw_validated" (by decide))).torn m k
    have hb := (frames_env (h "nerves_fw_booted" (by decide))).torn m k
    simp only [Media.triple, ha, hv, hb]
  exec m m' hm := by
    have ha := (frames_env (h "nerves_fw_active" (by decide))).exec m m' hm
    have hv := (frames_env (h "nerves_fw_validated" (by decide))).exec m m' hm
    have hb := (frames_env (h "nerves_fw_booted" (by decide))).exec m m' hm
    simp only [Media.triple, ha, hv, hb]

theorem body_frames_triple {o : Operation} (ho : o ∈ bodyOperations A x) :
    Frames machine Media.triple o :=
  frames_triple fun n hn => body_sets (by simp [hn]) ho

/-- Until the slot switches, the three variables stand as they were. -/
theorem body_triple :
    Triple machine (fun m => m.triple = t) (bodyOperations A x)
      (fun m => m.triple = t ∧ Written A x m) (fun m => m.triple = t) where
  safe m hm n k := (cut_frame (fun _ ho => body_frames_triple ho) n k m).trans hm
  post m m' hm h := by
    have ht := perform_frame (fun _ ho => body_frames_triple (A := A) (x := x) ho) m
    rw [h] at ht
    obtain ⟨-, rfl⟩ := perform_body.mp h
    exact ⟨ht.trans hm, written_written.congr rfl rfl rfl⟩

theorem switch_written : Triple machine (Written A x) (switchOperations x) (Written A x)
    (Written A x) := by
  apply Triple.invariant
  intro o ho
  have hp : ∀ path, ¬ o.Puts path := by
    intro path
    revert o
    simp [switchOperations, Operation.Puts]
  have hw : ¬ o.Writes (.rootfs x) := by
    revert o
    simp [switchOperations, Operation.Writes]
  constructor
  · intro m k h
    exact h.congr ((frames_fat (hp _)).torn m k) ((frames_fat (hp _)).torn m k)
      ((frames_raw hw).torn m k)
  · intro m m' h hm
    exact h.congr ((frames_fat (hp _)).exec m m' hm) ((frames_fat (hp _)).exec m m' hm)
      ((frames_raw hw).exec m m' hm)

/-- The selection changes only after the new slot has been written as a whole. -/
theorem upgrade_triple_or_written :
    Triple machine (fun m => m.triple = t) (upgradeOperations A x) (Written A x)
      (fun m => m.triple = t ∨ Written A x m) :=
  Triple.append (body_triple.imp (fun _ h => h) (fun _ h => h.2) fun _ h => .inl h)
    (switch_written.imp (fun _ h => h) (fun _ h => h) fun _ h => .inr h)

end Phases

section Gated
variable (A : Archive) (host : Host) (m : Media)

/-- `m'` has everything of slot `y` as `m` has it. -/
structure SameSlot (y : Slot) (m m' : Media) : Prop where
  image : m'.fat y.image = m.fat y.image
  dtb : m'.fat y.dtb = m.fat y.dtb
  rootfs : m'.raw (.rootfs y) = m.raw (.rootfs y)
  vars : ∀ v, m'.env (y.var v) = m.env (y.var v)

theorem SameSlot.refl (y : Slot) (m : Media) : SameSlot y m m := ⟨rfl, rfl, rfl, fun _ => rfl⟩

theorem SameSlot.trans {y : Slot} {m m' m'' : Media} (h : SameSlot y m m')
    (h' : SameSlot y m' m'') : SameSlot y m m'' :=
  ⟨h'.image.trans h.image, h'.dtb.trans h.dtb, h'.rootfs.trans h.rootfs,
    fun v => (h'.vars v).trans (h.vars v)⟩

theorem cut_sameSlot {y : Slot} {ops : List Operation} (hs : ∀ o ∈ ops, ∀ v, ¬ o.Sets (y.var v))
    (hi : ∀ o ∈ ops, ¬ o.Puts y.image) (hd : ∀ o ∈ ops, ¬ o.Puts y.dtb)
    (hr : ∀ o ∈ ops, ¬ o.Writes (.rootfs y)) (n k : ℕ) (m : Media) :
    SameSlot y m (cut machine ops n k m) where
  image := cut_frame (f := fun m => m.fat y.image) (fun o ho => frames_fat (hi o ho)) n k m
  dtb := cut_frame (f := fun m => m.fat y.dtb) (fun o ho => frames_fat (hd o ho)) n k m
  rootfs := cut_frame (f := fun m => m.raw (.rootfs y)) (fun o ho => frames_raw (hr o ho)) n k m
  vars v := cut_frame (f := fun m => m.env (y.var v)) (fun o ho => frames_env (hs o ho v)) n k m

theorem upgrade_sameSlot {A : Archive} {x y : Slot} (hy : y ≠ x) (n k : ℕ) (m : Media) :
    SameSlot y m (cut machine (upgradeOperations A x) n k m) :=
  cut_sameSlot
    (fun _ ho _ => upgrade_sets (by simpa using hy) (by simp) (by simp) (by simp) ho)
    (fun _ ho => upgrade_puts (by simpa using hy) (by simp) (by simp) ho)
    (fun _ ho => upgrade_puts (by simp) (by simpa using hy) (by simp) ho)
    (fun _ ho => upgrade_writes (by simpa using hy) (by simp) ho) n k m

/-- An upgrade through its gate, power lost or not, is some first part of the operations. -/
theorem Gate.exists_run_eq_cut {A : Archive} {m : Media} {y : Slot} (h : Gate A y m.env)
    (host : Host) (loss : Option PowerLoss) : ∃ n k,
      (Command.upgrade A).run host loss m = cut machine (upgradeOperations A y.other) n k m := by
  obtain ⟨n, k, hc⟩ := (Command.upgrade A).exists_run_eq_cut host loss m
  exact ⟨n, k, by rw [hc, operations_upgrade host h]⟩

theorem Gate.run_sameSlot {A : Archive} {m : Media} {y : Slot} (h : Gate A y m.env)
    (host : Host) (loss : Option PowerLoss) :
    SameSlot y m ((Command.upgrade A).run host loss m) := by
  obtain ⟨n, k, hc⟩ := h.exists_run_eq_cut host loss
  rw [hc]
  exact upgrade_sameSlot (Slot.ne_other y) n k m

/-- `-t upgrade` is confined to the slot that is not active, and it is gated: without
its gate it reports an error and changes nothing. -/
theorem upgrade_gated :
    ((∀ y, ¬ Gate A y m.env) →
      (∃ text, (Command.upgrade A).failure host m = some (.error text)) ∧
      ∀ loss, (Command.upgrade A).run host loss m = m) ∧
    ∀ y, Gate A y m.env → ∀ loss,
      SameSlot y m ((Command.upgrade A).run host loss m) ∧
      (((Command.upgrade A).run host loss m).triple = m.triple ∨
        Written A y.other ((Command.upgrade A).run host loss m)) := by
  constructor
  · intro h
    obtain ⟨text, ho⟩ := operations_upgrade_refused host h
    refine ⟨⟨text, ?_⟩, fun loss => ?_⟩
    · rw [Command.failure_eq (by simp [ho]), ho, perform_error]
    · obtain ⟨n, k, hc⟩ := (Command.upgrade A).exists_run_eq_cut host loss m
      rw [hc, ho, cut_error]
  · intro y h loss
    obtain ⟨n, k, hc⟩ := h.exists_run_eq_cut host loss
    refine ⟨h.run_sameSlot host loss, ?_⟩
    rw [hc]
    exact upgrade_triple_or_written.safe m rfl n k

end Gated

end NervesSystem
