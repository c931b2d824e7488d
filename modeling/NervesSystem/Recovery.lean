import NervesSystem.NoBrick
import NervesSystem.Outcome

namespace NervesSystem
open Crash

/-- The configuration boots the kernel, the device tree and the rootfs of the slot. -/
structure Extlinux.Names (c : Extlinux) (z : Slot) : Prop where
  kernel : c.kernel = "/" ++ z.image
  fdt : c.fdt = "/" ++ z.dtb
  root : "root=" ++ z.device ∈ c.append

/-- What U-Boot boots by extlinux.conf, once it rejects its environment, is whole. -/
def Recoverable (H : List Archive) (m : Media) : Prop :=
  ∃ (c : Extlinux) (z : Slot), m.fat extlinuxPath = some (.conf c) ∧ c.Names z ∧ Whole H z m

/-- extlinux.conf names the slot that the environment has active. -/
def NamesActive (m : Media) : Prop :=
  ∃ (c : Extlinux) (y : Slot), m.fat extlinuxPath = some (.conf c) ∧ c.Names y ∧
    m.env "nerves_fw_active" = some y.name

/-- Whichever write of the environment is torn, the device can be recovered: the `saveenv` of
`nerves_init`, or one of the operations that the task comes to. -/
def TornSafe (H : List Archive) (s : State) : Event → Prop
  | .boot => Recoverable H s.media
  | .fwup c _ => Finds machine (fun o m => o.WritesEnv → Recoverable H m)
      (c.operations s.host s.media.env) s.media

/-- Power is lost after `n` operations or earlier. -/
def LostBy (loss : Option PowerLoss) (n : ℕ) : Prop := ∃ l, loss = some l ∧ l.operations ≤ n

section Condition
variable (A : Archive) (x : Slot) (loss : Option PowerLoss) (m : Media)

/-- The upgrade of slot `x` stops before it touches the slot. -/
def StopsUntouched : Prop :=
  LostBy loss 5 ∨ m.discard = none ∧ (LostBy loss 6 ∨ ¬ A.image.Applies (m.fat x.other.image))

/-- The upgrade of slot `x` stops before it points extlinux.conf there. -/
def StopsUnnamed : Prop :=
  LostBy loss 8 ∨ ¬ A.image.Applies (m.fat x.other.image) ∨
    ¬ A.devicetree.Applies (m.fat x.other.dtb)

/-- The upgrade of slot `x` writes all its files. -/
def WritesFiles : Prop := ¬ LostBy loss 10 ∧ A.Applies x m

end Condition

/-- The task is cut between two operations if at all, and does not leave extlinux.conf on a slot
that it has begun to clear and not filled again. -/
def KeepsRecovery (s : State) : Event → Prop
  | .boot => True
  | .fwup c loss => (∀ l, loss = some l → l.bytes = 0) ∧
    match c with
    | .complete _ => False
    | .upgrade A => ∀ y, Gate A y s.media.env →
      StopsUntouched A y.other loss s.media ∨
      StopsUnnamed A y.other loss s.media ∧ NamesActive s.media ∨
      WritesFiles A y.other loss s.media
    | .preventRevert _ =>
      LostBy loss 3 ∨ s.media.discard = none ∧ LostBy loss 4 ∨ NamesActive s.media
    | _ => True

/-- The operation leaves the boot partition and the root file systems alone. -/
structure KeepsFiles (o : Operation) : Prop where
  puts : ∀ path, ¬ o.Puts path
  writes : ∀ z : Slot, ¬ o.Writes (.rootfs z)

section Names
variable {A B : Archive} {H : List Archive} {x y z : Slot} {m m' : Media} {o : Operation}
  {c : Extlinux}

theorem names_extlinux (x : Slot) : (extlinux x).Names x := by
  cases x <;> constructor <;> decide

theorem Extlinux.Names.eq (h : c.Names y) (h' : c.Names z) : y = z := by
  have hk := h.kernel.symm.trans h'.kernel
  cases y <;> cases z <;> first | rfl | exact absurd hk (by decide)

/-- The slot that is named and whole is the active one, where extlinux.conf names that. -/
theorem NamesActive.whole (h : NamesActive m) (hr : Recoverable H m)
    (ha : m.env "nerves_fw_active" = some y.name) :
    ∃ c, m.fat extlinuxPath = some (.conf c) ∧ c.Names y ∧ Whole H y m := by
  obtain ⟨c, y', hc, hn, ha'⟩ := h
  obtain ⟨c', z, hc', hn', hw⟩ := hr
  obtain rfl : y' = y := by simpa [ha'] using ha
  obtain rfl : c' = c := by simpa [hc'] using hc
  obtain rfl := hn.eq hn'
  exact ⟨c', hc', hn, hw⟩

theorem Whole.recoverable (h : Whole H x m)
    (hc : m.fat extlinuxPath = some (.conf (extlinux x))) : Recoverable H m :=
  ⟨_, x, hc, names_extlinux x, h⟩

theorem KeepsFiles.recoverable (h : KeepsFiles o) : Preserves machine (Recoverable H) o where
  torn m k hm := by
    obtain ⟨c, z, hc, hn, hw⟩ := hm
    have hf := fun path => (frames_fat (h.puts path)).torn m k
    exact ⟨c, z, (hf _).trans hc, hn, hw.congr (hf _) (hf _) ((frames_raw (h.writes z)).torn m k)⟩
  exec m m' hm he := by
    obtain ⟨c, z, hc, hn, hw⟩ := hm
    have hf := fun path => (frames_fat (h.puts path)).exec m m' he
    exact ⟨c, z, (hf _).trans hc, hn,
      hw.congr (hf _) (hf _) ((frames_raw (h.writes z)).exec m m' he)⟩

theorem keepsFiles_clear (ho : o ∈ (clearOperations x).take 5) : KeepsFiles o := by
  constructor <;> intro _ <;> revert o <;>
    simp [clearOperations, Operation.Puts, Operation.Writes]

theorem keepsFiles_finish (ho : o ∈ describeOperations B x ++ switchOperations x) :
    KeepsFiles o := by
  constructor <;> intro _ <;> revert o <;>
    simp [describeOperations, switchOperations, Operation.Puts, Operation.Writes]

theorem keepsFiles_preventRevert (ho : o ∈ (preventRevertOperations x).take 3) :
    KeepsFiles o := by
  constructor <;> intro _ <;> revert o <;>
    simp [preventRevertOperations, Operation.Puts, Operation.Writes]

theorem keepsFiles_revert (ho : o ∈ (revertOperations x).take 3) : KeepsFiles o := by
  constructor <;> intro _ <;> revert o <;>
    simp [revertOperations, Operation.Puts, Operation.Writes]

theorem keepsFiles_validate (ho : o ∈ validateOperations) : KeepsFiles o := by
  constructor <;> intro _ <;> revert o <;>
    simp [validateOperations, Operation.Puts, Operation.Writes]

theorem keepsFiles_provision (ho : o ∈ provisioning B) : KeepsFiles o := by
  constructor <;> intro _ <;> revert o <;>
    simp [provisioning, Operation.Puts, Operation.Writes]

theorem keepsFiles_factoryReset (ho : o ∈ factoryResetOperations) : KeepsFiles o := by
  constructor <;> intro _ <;> revert o <;>
    simp [factoryResetOperations, Operation.Puts, Operation.Writes]

end Names

section Stop
variable {A B : Archive} {H : List Archive} {x y z : Slot} {m m' : Media} {o : Operation}
  {xs ys : List Operation} {n : ℕ}

theorem recoverable_take {k : ℕ} (hx : ∀ o ∈ xs.take k, KeepsFiles o) (h : Recoverable H m)
    (hn : n ≤ (xs.take k).length) : Recoverable H (cut machine xs n 0 m) := by
  obtain ⟨j, hj⟩ := cut_append_left (M := machine) torn_zero (.inl hn) (xs.drop k)
  rw [← List.take_append_drop k xs, hj]
  exact (Triple.invariant fun o ho => (hx o ho).recoverable).safe m h j 0

/-- Without `--enable-trim` nothing is trimmed. -/
theorem trim_idle (hd : m.discard = none) (r : Region) (k : ℕ) :
    { m with raw := Function.update m.raw r (m.discarded k (m.raw r)) } = m := by
  simp only [Media.discarded, hd, Function.update_eq_self]
  rw [← hd]

theorem trim_recoverable (r : Region) :
    Preserves machine (fun m => Recoverable H m ∧ m.discard = none) (.trim r) where
  torn m k hm := by
    cases k with
    | zero => exact hm
    | succ k => rwa [show machine.torn (.trim r) (k + 1) m = m from trim_idle hm.2 r (k + 1)]
  exec m m' hm he := by
    rw [show machine.exec (.trim r) m = .ok m from congrArg Except.ok (trim_idle hm.2 r _)] at he
    cases he
    exact hm

theorem trims_recoverable (hx : ∀ o ∈ xs, KeepsFiles o) (r : Region) :
    Triple machine (fun m => Recoverable H m ∧ m.discard = none) (xs ++ [Operation.trim r])
      (fun m => Recoverable H m ∧ m.discard = none)
      (fun m => Recoverable H m ∧ m.discard = none) := by
  apply Triple.invariant
  intro o ho
  rcases List.mem_append.mp ho with ho | ho
  · exact (hx o ho).recoverable.and ((frames_discard o).preserves (· = none))
  · exact List.mem_singleton.mp ho ▸ trim_recoverable r

theorem trims_left (hx : ∀ o ∈ xs, KeepsFiles o) (r : Region) (ys : List Operation)
    (h : Recoverable H m) (hd : m.discard = none)
    (hn : n ≤ (xs ++ [Operation.trim r]).length) :
    Recoverable H (cut machine (xs ++ [Operation.trim r] ++ ys) n 0 m) := by
  obtain ⟨j, hj⟩ := cut_append_left (M := machine) torn_zero (.inl hn) ys
  rw [hj]
  exact ((trims_recoverable hx r).safe m ⟨h, hd⟩ j 0).1

/-- A kernel that its delta does not give leaves the slot with what it held. -/
theorem cut_image_fails (ha : ¬ B.image.Applies (m.fat x.other.image)) (hn : 6 ≤ n) :
    cut machine (upgradeOperations B x) n 0 m = cleared x m := by
  let o : Operation := .fatWrite x.image B.image (some x.other.image)
  have hsplit : upgradeOperations B x = clearOperations x ++ o :: ((writeOperations B x).tail ++
      describeOperations B x ++ switchOperations x) := rfl
  obtain ⟨e, he⟩ : ∃ e, machine.exec o (cleared x m) = .error e := by
    cases h : machine.exec o (cleared x m) with
    | error e => exact ⟨e, rfl⟩
    | ok t => exact absurd (exec_fatWrite.mp h).1 ha
  have hlen : ¬ n < (clearOperations x).length := by simpa [clearOperations] using hn
  rw [hsplit, cut_append, if_neg hlen, perform_clear]
  cases n - (clearOperations x).length with
  | zero => exact torn_zero o _
  | succ j => exact cut_succ_error he _ j 0

theorem untouched_recoverable (h : Recoverable H m)
    (hn : n ≤ 5 ∨ m.discard = none ∧ (n ≤ 6 ∨ ¬ B.image.Applies (m.fat x.other.image))) :
    Recoverable H (cut machine (upgradeOperations B x) n 0 m) := by
  have hx : ∀ o ∈ (clearOperations x).take 5, KeepsFiles o := fun o ho => keepsFiles_clear ho
  have hclear (hd : m.discard = none) (hn : n ≤ 6) :
      Recoverable H (cut machine (upgradeOperations B x) n 0 m) :=
    trims_left hx (.rootfs x)
      (writeOperations B x ++ describeOperations B x ++ switchOperations x) h hd hn
  -- Before the trim; after a trim without effect; at a kernel that does not apply.
  rcases hn with hn | ⟨hd, hn | ha⟩
  · exact recoverable_take (k := 5) (fun o ho => hx o ho) h hn
  · exact hclear hd hn
  · rcases Nat.lt_or_ge n 6 with hn | hn
    · exact hclear hd (Nat.le_of_lt hn)
    · rw [cut_image_fails ha hn]
      exact ((trims_recoverable hx (.rootfs x)).post m _ ⟨h, hd⟩ (perform_clear x m)).1

theorem unnamed_recoverable (h : Recoverable H m) (ha : m.env "nerves_fw_active" = some y.name)
    (hc : NamesActive m) (hn : n ≤ 8 ∨ ¬ B.image.Applies (m.fat y.image) ∨
      ¬ B.devicetree.Applies (m.fat y.dtb)) :
    Recoverable H (cut machine (upgradeOperations B y.other) n 0 m) := by
  obtain ⟨c, hc, hy, hw⟩ := hc.whole h ha
  have hs : SameSlot y m (cut machine (upgradeOperations B y.other) n 0 m) :=
    upgrade_sameSlot (Slot.ne_other y) n 0 m
  refine ⟨c, y, ?_, hy, hw.congr hs.image hs.dtb hs.rootfs⟩
  let xs := clearOperations y.other ++ (writeOperations B y.other).take 2
  have hsplit : upgradeOperations B y.other = xs ++ ((writeOperations B y.other).drop 2 ++
      describeOperations B y.other ++ switchOperations y.other) := rfl
  -- xs is what comes before the write of extlinux.conf.
  have hx : n ≤ xs.length ∨ (perform machine xs m).2 ≠ none := by
    refine hn.imp (fun h => h) fun hna hp => ?_
    have hp' : perform machine xs m = (_, none) := Prod.ext rfl hp
    obtain ⟨t, ht, hp⟩ := perform_append_none.mp hp'
    obtain rfl : cleared y.other m = t := congrArg Prod.fst ((perform_clear _ _).symm.trans ht)
    simp only [writeOperations, List.take_succ_cons, List.take_zero, perform_cons_none,
      exec_fatWrite] at hp
    obtain ⟨u, ⟨hi, rfl⟩, v, ⟨hd, -⟩, -⟩ := hp
    rcases hna with hna | hna
    · exact hna (by simpa [cleared, Media.unsetenv] using hi)
    · exact hna (by simpa [cleared, Media.unsetenv, Media.fatPut] using hd)
  obtain ⟨j, hj⟩ := cut_append_left (M := machine) torn_zero hx _
  rw [hsplit, hj, ← hc]
  refine cut_frame (f := fun m : Media => m.fat extlinuxPath) (fun o ho => frames_fat ?_) j 0 m
  revert o
  simp [xs, clearOperations, writeOperations, Operation.Puts]

theorem filled_recoverable (hB : B ∈ H) (hn : 10 < n) (ha : B.Applies x m) :
    Recoverable H (cut machine (upgradeOperations B x) n 0 m) := by
  have hp : perform machine (clearOperations x ++ writeOperations B x) m =
      (written B x (cleared x m), none) :=
    perform_append_none.mpr ⟨_, perform_clear x m, perform_write.mpr ⟨applies_cleared.mpr ha, rfl⟩⟩
  have hw : Recoverable H (written B x (cleared x m)) :=
    Whole.recoverable ⟨B, hB, written_written⟩ (by simp [written, Media.write, Media.fatPut])
  have hlen : ¬ n < (clearOperations x ++ writeOperations B x).length := by
    simp only [clearOperations, writeOperations, List.length_append, List.length_cons,
      List.length_nil]
    omega
  rw [upgradeOperations, List.append_assoc, cut_append, if_neg hlen, hp]
  exact (Triple.invariant fun o ho => (keepsFiles_finish ho).recoverable).safe _ hw _ 0

theorem preventRevert_recoverable (h : Recoverable H m)
    (ha : m.env "nerves_fw_active" = some y.name)
    (hn : n ≤ 3 ∨ m.discard = none ∧ n ≤ 4 ∨ NamesActive m) :
    Recoverable H (cut machine (preventRevertOperations y.other) n 0 m) := by
  have hx : ∀ o ∈ (preventRevertOperations y.other).take 3, KeepsFiles o :=
    fun o ho => keepsFiles_preventRevert ho
  rcases hn with hn | ⟨hd, hn⟩ | hc
  · exact recoverable_take hx h hn
  · exact trims_left hx (.rootfs y.other) ((preventRevertOperations y.other).drop 4) h hd hn
  · obtain ⟨c, hc, hy, hw⟩ := hc.whole h ha
    have hi : Triple machine (Whole H y) (preventRevertOperations y.other) (Whole H y)
        (Whole H y) :=
      Triple.invariant fun o ho => (preventRevert_silent (Slot.ne_other y) ho).whole
    refine ⟨c, y, ?_, hy, hi.safe m hw n 0⟩
    rw [← hc]
    refine cut_frame (f := fun m : Media => m.fat extlinuxPath) (fun o ho => frames_fat ?_) n 0 m
    revert o
    simp [preventRevertOperations, Operation.Puts]

theorem revert_recoverable (h : Recoverable H m) (hw : Whole H x m) (n : ℕ) :
    Recoverable H (cut machine (revertOperations x) n 0 m) := by
  rcases Nat.lt_or_ge n 4 with hn | hn
  · exact recoverable_take (fun o ho => keepsFiles_revert ho) h (Nat.le_of_lt_succ hn)
  · rw [← perform_fst (revertOperations x) n 0 hn, perform_revert]
    refine Whole.recoverable (hw.congr ?_ ?_ ?_) ?_ <;>
      simp [reverted, Media.setenv, Media.fatPut, Function.update_of_ne]

end Stop

section Torn
variable {A B : Archive} {H : List Archive} {x y : Slot} {m : Media} {xs : List Operation}

/-- What must hold of the disk when the operation is reached. -/
abbrev Asks (H : List Archive) (o : Operation) (m : Media) : Prop := o.WritesEnv → Recoverable H m

theorem finds_keepsFiles (hx : ∀ o ∈ xs, KeepsFiles o) (h : Recoverable H m) :
    Finds machine (Asks H) xs m :=
  Finds.invariant (fun _ _ h _ => h) (fun o ho => (hx o ho).recoverable) h

theorem finds_files (hx : ∀ o ∈ xs, ¬ o.WritesEnv) : Finds machine (Asks H) xs m :=
  Finds.of_forall fun o ho _ h => absurd h (hx o ho)

/-- The first `k` operations leave the files alone, the others the environment. -/
theorem finds_take (k : ℕ) (hx : ∀ o ∈ xs.take k, KeepsFiles o)
    (hy : ∀ o ∈ xs.drop k, ¬ o.WritesEnv) (h : Recoverable H m) :
    Finds machine (Asks H) xs m := by
  rw [← List.take_append_drop k xs]
  exact (finds_keepsFiles hx h).append fun _ _ => finds_files hy

/-- The variables of slot `x` are unset before its files go and set once they are written. -/
theorem upgrade_finds (hB : B ∈ H) (h : Recoverable H m) :
    Finds machine (Asks H) (upgradeOperations B x) m := by
  have hfiles : Finds machine (Asks H) (clearOperations x ++ writeOperations B x) m := by
    refine finds_take 5 (fun o ho => keepsFiles_clear ho) ?_ h
    simp [clearOperations, writeOperations, Operation.WritesEnv]
  rw [upgradeOperations, List.append_assoc]
  refine hfiles.append fun m' hm' => finds_keepsFiles (fun o ho => keepsFiles_finish ho) ?_
  obtain ⟨t, -, ht⟩ := perform_append_none.mp hm'
  obtain ⟨-, rfl⟩ := perform_write.mp ht
  exact Whole.recoverable ⟨B, hB, written_written⟩ (by simp [written, Media.write, Media.fatPut])

theorem preventRevert_finds (h : Recoverable H m) :
    Finds machine (Asks H) (preventRevertOperations x) m := by
  refine finds_take 3 (fun o ho => keepsFiles_preventRevert ho) ?_ h
  simp [preventRevertOperations, Operation.WritesEnv]

theorem revert_finds (h : Recoverable H m) :
    Finds machine (Asks H) (revertOperations x) m := by
  refine finds_take 3 (fun o ho => keepsFiles_revert ho) ?_ h
  simp [revertOperations, Operation.WritesEnv]

end Torn

section Runs
variable {hush : Hush} {A : Archive} {H : List Archive} {s : State} {e : Event}

/-- The invariant of the recovery path: extlinux.conf names a whole slot, and the environment
is honest, so that a `revert` may point extlinux.conf to the slot that it switches to. -/
structure Recovers (A : Archive) (H : List Archive) (m : Media) : Prop where
  honest : ∀ z, Honest A H z m
  active : ∃ y : Slot, m.env "nerves_fw_active" = some y.name
  recoverable : Recoverable H m

theorem Recovers.tornSafe (h : Recovers A H s.media) (he : ∀ B, e.archive = some B → B ∈ H)
    (hc : ∀ B loss, e ≠ .fwup (.complete B) loss) : TornSafe H s e := by
  cases e with
  | boot => exact h.recoverable
  | fwup c loss =>
    have hp := performs s.host s.media.env c
    simp only [TornSafe]
    generalize c.operations s.host s.media.env = ops at hp
    have hr := h.recoverable
    cases hp with
    | refused text => exact finds_files (by simp [Operation.WritesEnv])
    | status O text => exact finds_files (by simp [Operation.WritesEnv])
    | mounted B => trivial
    | complete B => exact absurd rfl (hc B loss)
    | upgrade B y => exact upgrade_finds (he B rfl) hr
    | provision B => exact finds_keepsFiles (fun o ho => keepsFiles_provision ho) hr
    | factoryReset O => exact finds_keepsFiles (fun o ho => keepsFiles_factoryReset ho) hr
    | preventRevert O y => exact preventRevert_finds hr
    | revert O x => exact revert_finds hr
    | validate O => exact finds_keepsFiles (fun o ho => keepsFiles_validate ho) hr

/-- No task but `complete` makes the environment describe a slot that is not whole. -/
theorem run_honest {c : Command} (hc : ∀ B, c ≠ .complete B)
    (hH : ∀ B, c.archive = some B → B ∈ H) (loss : Option PowerLoss) {host : Host} {m : Media}
    (h : ∀ z, Honest A H z m) (z : Slot) : Honest A H z (c.run host loss m) := by
  obtain ⟨n, k, hr⟩ := c.exists_run_eq_cut host loss m
  rw [hr]
  have hsilent (ops : List Operation) (ho : ∀ o ∈ ops, Silent z o) :
      Honest A H z (cut machine ops n k m) :=
    (Triple.invariant fun o h => (ho o h).honest).safe m (h z) n k
  have hp := performs host m.env c
  generalize c.operations host m.env = ops at hp
  cases hp with
  | refused text => rw [cut_error]; exact h z
  | status O text => rw [cut_info]; exact h z
  | mounted B => exact absurd rfl (hc B)
  | complete B => exact absurd rfl (hc B)
  | upgrade B y hg => exact (upgrade_sound (hH B rfl) hg (hg.sound h) n k).honest z
  | provision B => exact hsilent _ fun o ho => provision_silent ho z
  | factoryReset O => exact hsilent _ fun o ho => factoryReset_silent ho z
  | preventRevert O y =>
    by_cases hz : z = y.other
    · exact hz ▸ preventRevert_honest.safe m (h _) n k
    · exact hsilent _ fun o ho => preventRevert_silent hz ho
  | revert O x => exact hsilent _ fun o ho => revert_silent ho z
  | validate O => exact hsilent _ fun o ho => validate_silent ho z

/-- Cut between two operations if at all, a task leaves what so many of its operations leave. -/
theorem exists_run_eq_boundary (c : Command) (host : Host) {loss : Option PowerLoss} (m : Media)
    (hl : ∀ l, loss = some l → l.bytes = 0) :
    ∃ n, c.run host loss m = cut machine (c.operations host m.env) n 0 m ∧
      ∀ k < (c.operations host m.env).length, LostBy loss k ↔ n ≤ k := by
  cases loss with
  | none =>
    refine ⟨_, (c.run_none host m).trans (perform_fst _ _ 0 (Nat.le_refl _) m), fun k hk => ?_⟩
    exact iff_of_false (by simp [LostBy]) (Nat.not_le.mpr hk)
  | some l =>
    refine ⟨l.operations, by rw [c.run_some, hl l rfl], fun k _ => ?_⟩
    simp [LostBy]

theorem Recovers.step (h : Recovers A H s.media) (hk : KeepsRecovery s e)
    (he : ∀ B, e.archive = some B → B ∈ H) : Recovers A H (step hush s e).media := by
  cases e with
  | boot =>
    obtain ⟨y, hy⟩ := h.active
    have hs := fun z => boot_agree hush hy (h.honest z)
    refine ⟨fun z => (h.honest z).agree (hs z), ⟨_, boot_active hush hy⟩, ?_⟩
    obtain ⟨c, z, hc, hn, hw⟩ := h.recoverable
    exact ⟨c, z, (congrFun (boot_fat s) _).trans hc, hn, hw.agree (hs z)⟩
  | fwup c loss =>
    obtain ⟨hl, hk⟩ := hk
    have hc : ∀ B, c ≠ .complete B := by
      rintro B rfl
      exact hk
    refine ⟨run_honest hc he loss h.honest, run_active hc loss h.active, ?_⟩
    obtain ⟨n, hrun, hn⟩ := exists_run_eq_boundary c s.host s.media hl
    simp only [NervesSystem.step, hrun]
    have hr := h.recoverable
    have hp := performs s.host s.media.env c
    generalize c.operations s.host s.media.env = ops at hp hn
    have hkeeps (ho : ∀ o ∈ ops, KeepsFiles o) : Recoverable H (cut machine ops n 0 s.media) :=
      (Triple.invariant fun o h => (ho o h).recoverable).safe _ hr n 0
    cases hp with
    | refused text => rwa [cut_error]
    | status O text => rwa [cut_info]
    | mounted B => exact absurd rfl (hc B)
    | complete B => exact absurd rfl (hc B)
    | provision B => exact hkeeps fun o ho => keepsFiles_provision ho
    | factoryReset O => exact hkeeps fun o ho => keepsFiles_factoryReset ho
    | validate O => exact hkeeps fun o ho => keepsFiles_validate ho
    -- The platform variables that the gate asks for vouch for the files.
    | revert O x hg =>
      refine revert_recoverable hr ((h.honest x).whole ?_ ?_) n
      · simp [hg.platform]
      · simp [hg.architecture]
    | preventRevert O y hy =>
      have hlen : (preventRevertOperations y.other).length = 6 := rfl
      rw [hn 3 (by omega), hn 4 (by omega)] at hk
      exact preventRevert_recoverable hr hy hk
    | upgrade B y hg =>
      -- All bounds of the condition lie within the task.
      have hlen : (upgradeOperations B y.other).length = 26 := rfl
      have hk := hk y hg
      simp only [StopsUntouched, StopsUnnamed, WritesFiles, hn 5 (by omega), hn 6 (by omega),
        hn 8 (by omega), hn 10 (by omega), Slot.other_other] at hk
      rcases hk with hk | ⟨hk, ha⟩ | ⟨hk, ha⟩
      · exact untouched_recoverable hr (by rwa [Slot.other_other])
      · exact unnamed_recoverable hr hg.active ha hk
      · exact filled_recoverable (he B rfl) (Nat.lt_of_not_le hk) ha

theorem Factory.recovers {m : Media} (h : Factory A m) (hA : A ∈ H) : Recovers A H m :=
  ⟨(h.sound hA).honest, ⟨.a, h.active⟩, Whole.recoverable ⟨A, hA, h.written⟩ h.extlinux⟩

theorem recovery_kept (hush : Hush) (es : List Event) (e : Event) (h : Installed A s)
    (hes : Trace.Guarded (step hush) KeepsRecovery s es)
    (hc : ∀ B loss, e ≠ .fwup (.complete B) loss) :
    TornSafe (A :: archives (es ++ [e])) (run hush s es) e := by
  have harch : ∀ e' ∈ es ++ [e], ∀ B, e'.archive = some B →
      B ∈ A :: archives (es ++ [e]) := fun e' he' B hB =>
    List.mem_cons_of_mem _ (List.mem_filterMap.mpr ⟨e', he', hB⟩)
  have hr : Recovers A (A :: archives (es ++ [e])) (run hush s es).media :=
    hes.invariant (I := fun s => Recovers A (A :: archives (es ++ [e])) s.media)
      (fun _ e' he' hs hk => hs.step hk (harch e' (List.mem_append_left _ he')))
      (h.factory.recovers (List.mem_cons_self ..))
  exact hr.tornSafe (harch e (by simp)) hc

theorem recovery_kept_sample :
    let es : List Event := [.boot, .fwup (.upgrade sampleArchive) none, .boot, .boot,
      .fwup (.upgrade sampleArchive) (some ⟨5, 0⟩)]
    TornSafe (sampleArchive :: archives (es ++ [.boot])) (run plainHush sampleState es) .boot := by
  refine recovery_kept plainHush _ .boot installed_sample
    ⟨trivial, ⟨by simp, fun _ _ => .inr (.inr ⟨by simp [LostBy], trivial, trivial, trivial,
      trivial⟩)⟩, trivial, trivial, ⟨by simp, fun _ _ => .inl (.inl ⟨_, rfl, Nat.le_refl 5⟩)⟩,
      trivial⟩
    (by simp)

/-- `validate` writes the environment in every state. -/
theorem TornSafe.recoverable {O : OpsArchive} {loss : Option PowerLoss}
    (h : TornSafe H s (.fwup (.validate O) loss)) : Recoverable H s.media := by
  simp only [TornSafe, operations_validate] at h
  exact (h.2 s.media rfl).1 trivial

/-- The slot that extlinux.conf names is given up after an automatic revert from it. -/
theorem recovery_lost :
    let es : List Event := [.boot, .fwup (.upgrade sampleArchive) none, .boot, .boot,
      .fwup (.preventRevert sampleOps) none]
    let e : Event := .fwup (.validate sampleOps) none
    ¬ TornSafe (sampleArchive :: archives (es ++ [e])) (run plainHush sampleState es) e := by
  intro es e h
  obtain ⟨c, z, hc, hn, B, -, hw⟩ := h.recoverable
  have hb : (run plainHush sampleState es).media.fat extlinuxPath = some (.conf (extlinux .b)) := by
    decide +kernel
  have hi : (run plainHush sampleState es).media.fat Slot.b.image = none := by decide +kernel
  obtain rfl : extlinux .b = c := by simpa [hb] using hc
  obtain rfl := hn.eq (names_extlinux .b)
  simpa [hi] using hw.image

end Runs

end NervesSystem
