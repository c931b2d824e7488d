import NervesSystem.Installed
import NervesSystem.Library.Trace

namespace NervesSystem
open Crash

/-- The slot holds the files of one of the archives. -/
def Whole (H : List Archive) (z : Slot) (m : Media) : Prop := ∃ B ∈ H, Written B z m

/-- The environment says the slot is for the device of `A`. -/
structure Usable (A : Archive) (z : Slot) (m : Media) : Prop where
  platform : m.env (z.var "nerves_fw_platform") = some A.platform
  architecture : m.env (z.var "nerves_fw_architecture") = some A.architecture

/-- The environment describes the slot only while the slot is whole. -/
structure Honest (A : Archive) (H : List Archive) (z : Slot) (m : Media) : Prop where
  platform : ∀ p, m.env (z.var "nerves_fw_platform") = some p → p = A.platform
  architecture : ∀ p, m.env (z.var "nerves_fw_architecture") = some p → p = A.architecture
  whole : m.env (z.var "nerves_fw_platform") ≠ none →
    m.env (z.var "nerves_fw_architecture") ≠ none → Whole H z m

/-- The description of the slot is broken off, whatever the slot holds. -/
structure Blank (A : Archive) (z : Slot) (m : Media) : Prop where
  platform : m.env (z.var "nerves_fw_platform") = none
  architecture : ∀ p, m.env (z.var "nerves_fw_architecture") = some p → p = A.architecture

/-- The selected slot is usable, and so is the other one while it may be fallen back to. -/
structure Selected (A : Archive) (y : Slot) (m : Media) : Prop where
  active : m.env "nerves_fw_active" = some y.name
  usable : Usable A y m
  validated : m.env "nerves_fw_validated" = some "1" ∨
    m.env "nerves_fw_validated" = some "0" ∧ Usable A y.other m

/-- The invariant of the A/B scheme. -/
structure Sound (A : Archive) (H : List Archive) (m : Media) : Prop where
  honest : ∀ z, Honest A H z m
  selected : ∃ y, Selected A y m

/-- Both slots can be booted, so that the selection may be changed at will. -/
structure Ready (A : Archive) (H : List Archive) (m : Media) : Prop where
  honest : ∀ z, Honest A H z m
  usable : ∀ z, Usable A z m
  active : ∃ y : Slot, m.env "nerves_fw_active" = some y.name
  validated : m.env "nerves_fw_validated" = some "1" ∨ m.env "nerves_fw_validated" = some "0"

/-- The selected slot stays as it is while the other one is worked on. -/
structure Kept (A : Archive) (H : List Archive) (y : Slot) (m : Media) : Prop where
  honest : Honest A H y m
  usable : Usable A y m
  active : m.env "nerves_fw_active" = some y.name
  validated : m.env "nerves_fw_validated" = some "1"

/-- What `Honest` reads of a slot is the same on both disks. -/
structure Agree (z : Slot) (m m' : Media) : Prop where
  platform : m'.env (z.var "nerves_fw_platform") = m.env (z.var "nerves_fw_platform")
  architecture : m'.env (z.var "nerves_fw_architecture") = m.env (z.var "nerves_fw_architecture")
  image : m'.fat z.image = m.fat z.image
  dtb : m'.fat z.dtb = m.fat z.dtb
  rootfs : m'.raw (.rootfs z) = m.raw (.rootfs z)

/-- The operation touches nothing that `Honest` reads of the slot. -/
structure Silent (z : Slot) (o : Operation) : Prop where
  platform : ¬ o.Sets (z.var "nerves_fw_platform")
  architecture : ¬ o.Sets (z.var "nerves_fw_architecture")
  image : ¬ o.Puts z.image
  dtb : ¬ o.Puts z.dtb
  rootfs : ¬ o.Writes (.rootfs z)

section Slots
variable {A B : Archive} {H : List Archive} {x y z : Slot} {m m' : Media} {o : Operation}

theorem Usable.agree (h : Usable A z m) (hs : Agree z m m') : Usable A z m' :=
  ⟨hs.platform.trans h.platform, hs.architecture.trans h.architecture⟩

theorem Whole.congr (h : Whole H z m) (hi : m'.fat z.image = m.fat z.image)
    (hd : m'.fat z.dtb = m.fat z.dtb) (hr : m'.raw (.rootfs z) = m.raw (.rootfs z)) :
    Whole H z m' := by
  obtain ⟨B, hB, hw⟩ := h
  exact ⟨B, hB, hw.congr hi hd hr⟩

theorem Whole.agree (h : Whole H z m) (hs : Agree z m m') : Whole H z m' :=
  h.congr hs.image hs.dtb hs.rootfs

theorem Honest.agree (h : Honest A H z m) (hs : Agree z m m') : Honest A H z m' where
  platform p hp := h.platform p (hs.platform ▸ hp)
  architecture p hp := h.architecture p (hs.architecture ▸ hp)
  whole hp ha := (h.whole (hs.platform ▸ hp) (hs.architecture ▸ ha)).agree hs

theorem Honest.whole_of_usable (h : Honest A H z m) (hu : Usable A z m) : Whole H z m :=
  h.whole (by simp [hu.platform]) (by simp [hu.architecture])

theorem Blank.honest (h : Blank A z m) : Honest A H z m where
  platform p hp := absurd (h.platform.symm.trans hp) (by simp)
  architecture := h.architecture
  whole hp := absurd h.platform hp

theorem Selected.sound (hh : ∀ z, Honest A H z m) (h : Selected A y m) : Sound A H m :=
  ⟨hh, y, h⟩

theorem Ready.sound (h : Ready A H m) : Sound A H m := by
  obtain ⟨y, hy⟩ := h.active
  exact ⟨h.honest, y, hy, h.usable y, h.validated.imp_right fun hv => ⟨hv, h.usable y.other⟩⟩

theorem Kept.sound (h : Kept A H y m) (hx : Honest A H y.other m) : Sound A H m := by
  refine ⟨fun z => ?_, y, h.active, h.usable, .inl h.validated⟩
  by_cases hz : z = y
  · exact hz ▸ h.honest
  · exact Slot.eq_other_of_ne hz ▸ hx

theorem Silent.torn (h : Silent z o) (m : Media) (k : ℕ) : Agree z m (machine.torn o k m) :=
  ⟨(frames_env h.platform).torn m k, (frames_env h.architecture).torn m k,
    (frames_fat h.image).torn m k, (frames_fat h.dtb).torn m k, (frames_raw h.rootfs).torn m k⟩

theorem Silent.exec (h : Silent z o) (he : machine.exec o m = .ok m') : Agree z m m' :=
  ⟨(frames_env h.platform).exec m m' he, (frames_env h.architecture).exec m m' he,
    (frames_fat h.image).exec m m' he, (frames_fat h.dtb).exec m m' he,
    (frames_raw h.rootfs).exec m m' he⟩

theorem Silent.honest (h : Silent z o) : Preserves machine (Honest A H z) o where
  torn m k hm := hm.agree (h.torn m k)
  exec _ _ hm he := hm.agree (h.exec he)

theorem Silent.usable (h : Silent z o) : Preserves machine (Usable A z) o where
  torn m k hm := hm.agree (h.torn m k)
  exec _ _ hm he := hm.agree (h.exec he)

theorem Silent.whole (h : Silent z o) : Preserves machine (Whole H z) o where
  torn m k hm := hm.agree (h.torn m k)
  exec _ _ hm he := hm.agree (h.exec he)

theorem silent_info (text : String) : Silent z (.info text) := by
  constructor <;> exact id

theorem silent_setenv {n : String} (v : String) (h : Slot.owner n = none) :
    Silent z (.ubootSetenv n v) :=
  ⟨fun hn => Slot.var_ne_of_owner (by simp [h]) hn.symm,
    fun hn => Slot.var_ne_of_owner (by simp [h]) hn.symm, id, id, id⟩

theorem silent_unsetenv {n : String} (h : Slot.owner n = none) : Silent z (.ubootUnsetenv n) :=
  ⟨fun hn => Slot.var_ne_of_owner (by simp [h]) hn.symm,
    fun hn => Slot.var_ne_of_owner (by simp [h]) hn.symm, id, id, id⟩

theorem preserves_blank (hp : ¬ o.Sets (z.var "nerves_fw_platform"))
    (ha : ¬ o.Sets (z.var "nerves_fw_architecture") ∨
      o = .ubootUnsetenv (z.var "nerves_fw_architecture")) :
    Preserves machine (Blank A z) o where
  torn m k hm := by
    refine ⟨((frames_env hp).torn m k).trans hm.platform, fun p h => hm.architecture p ?_⟩
    rcases ha with ha | rfl
    · rwa [← (frames_env ha).torn m k]
    · rwa [torn_unsetenv] at h
  exec m m' hm he := by
    refine ⟨((frames_env hp).exec m m' he).trans hm.platform, fun p h => hm.architecture p ?_⟩
    rcases ha with ha | rfl
    · rwa [← (frames_env ha).exec m m' he]
    · cases he
      simp [Media.unsetenv] at h

theorem Silent.ready (h : ∀ z, Silent z o)
    (ha : ¬ o.Sets "nerves_fw_active" ∨ ∃ y : Slot, o = .ubootSetenv "nerves_fw_active" y.name)
    (hv : ¬ o.Sets "nerves_fw_validated" ∨ o = .ubootSetenv "nerves_fw_validated" "0" ∨
      o = .ubootSetenv "nerves_fw_validated" "1") : Preserves machine (Ready A H) o where
  torn m k hm := by
    refine ⟨fun z => (h z).honest.torn m k (hm.honest z),
      fun z => (h z).usable.torn m k (hm.usable z), ?_, ?_⟩
    · rcases ha with ha | ⟨y, rfl⟩
      · rw [(frames_env ha).torn m k]; exact hm.active
      · rw [torn_setenv]; exact hm.active
    · rcases hv with hv | rfl | rfl
      · rw [(frames_env hv).torn m k]; exact hm.validated
      · rw [torn_setenv]; exact hm.validated
      · rw [torn_setenv]; exact hm.validated
  exec m m' hm he := by
    refine ⟨fun z => (h z).honest.exec m m' (hm.honest z) he,
      fun z => (h z).usable.exec m m' (hm.usable z) he, ?_, ?_⟩
    · rcases ha with ha | ⟨y, rfl⟩
      · rw [(frames_env ha).exec m m' he]; exact hm.active
      · cases he; exact ⟨y, by simp [Media.setenv]⟩
    · rcases hv with hv | rfl | rfl
      · rw [(frames_env hv).exec m m' he]; exact hm.validated
      · cases he; simp [Media.setenv]
      · cases he; simp [Media.setenv]

theorem Silent.kept (h : Silent z o) (ha : ¬ o.Sets "nerves_fw_active")
    (hv : ¬ o.Sets "nerves_fw_validated") : Preserves machine (Kept A H z) o where
  torn m k hm := ⟨h.honest.torn m k hm.honest, h.usable.torn m k hm.usable,
    ((frames_env ha).torn m k).trans hm.active, ((frames_env hv).torn m k).trans hm.validated⟩
  exec m m' hm he := ⟨h.honest.exec m m' hm.honest he, h.usable.exec m m' hm.usable he,
    ((frames_env ha).exec m m' he).trans hm.active,
    ((frames_env hv).exec m m' he).trans hm.validated⟩

theorem Silent.sound (h : ∀ z, Silent z o) (ha : ¬ o.Sets "nerves_fw_active")
    (hv : ¬ o.Sets "nerves_fw_validated") : Preserves machine (Sound A H) o where
  torn m k hm := by
    obtain ⟨y, hy⟩ := hm.selected
    exact ⟨fun z => (h z).honest.torn m k (hm.honest z), y,
      ((frames_env ha).torn m k).trans hy.active, (h y).usable.torn m k hy.usable, by
      rw [(frames_env hv).torn m k]
      exact hy.validated.imp_right fun hv => ⟨hv.1, (h y.other).usable.torn m k hv.2⟩⟩
  exec m m' hm he := by
    obtain ⟨y, hy⟩ := hm.selected
    exact ⟨fun z => (h z).honest.exec m m' (hm.honest z) he, y,
      ((frames_env ha).exec m m' he).trans hy.active, (h y).usable.exec m m' hy.usable he, by
      rw [(frames_env hv).exec m m' he]
      exact hy.validated.imp_right fun hv => ⟨hv.1, (h y.other).usable.exec m m' hv.2 he⟩⟩

end Slots

section Operations
variable {A B : Archive} {H : List Archive} {x y z : Slot} {m : Media} {o : Operation}

/-- However the files of the slot are treated once the platform is unset, nothing is said. -/
theorem blank_triple (xs ys : List Operation) (hx : ∀ o ∈ xs, Silent x o)
    (hy : ∀ o ∈ ys, ¬ o.Sets (x.var "nerves_fw_platform") ∧
      (¬ o.Sets (x.var "nerves_fw_architecture") ∨
        o = .ubootUnsetenv (x.var "nerves_fw_architecture"))) :
    Triple machine (Honest A H x) (xs ++ .ubootUnsetenv (x.var "nerves_fw_platform") :: ys)
      (Blank A x) (Honest A H x) := by
  -- Up to the unsetenv nothing is touched, and after it the slot is not described.
  have hxs : Triple machine (Honest A H x) xs (Honest A H x) (Honest A H x) :=
    Triple.invariant fun o ho => (hx o ho).honest
  have hys : Triple machine (Blank A x) ys (Blank A x) (Blank A x) :=
    Triple.invariant fun o ho => preserves_blank (hy o ho).1 (hy o ho).2
  refine hxs.append (Triple.cons (fun _ h => h) (fun m k h => by rwa [torn_unsetenv]) ?_
    (hys.imp (fun _ h => h) (fun _ h => h) fun _ h => h.honest))
  intro m m' h he
  cases he
  refine ⟨by simp [Media.unsetenv], fun p hp => h.architecture p ?_⟩
  simpa [Media.unsetenv] using hp

theorem clear_write_blank : Triple machine (Honest A H x)
    (clearOperations x ++ writeOperations B x) (Blank A x) (Honest A H x) := by
  refine blank_triple ((clearOperations x).take 2)
    ((clearOperations x).drop 3 ++ writeOperations B x) ?_ ?_
  · intro o ho
    simp only [clearOperations, List.take_succ_cons, List.take_zero, List.mem_cons,
      List.not_mem_nil, or_false] at ho
    rcases ho with rfl | rfl <;> constructor <;>
      simp [Operation.Sets, Operation.Puts, Operation.Writes]
  · simp [clearOperations, writeOperations, Operation.Sets]

theorem describe_cases (ho : o ∈ describeOperations B x) : Silent x o ∨
    o = .ubootSetenv (x.var "nerves_fw_platform") B.platform ∨
    o = .ubootSetenv (x.var "nerves_fw_architecture") B.architecture := by
  simp only [describeOperations, List.mem_cons, List.not_mem_nil, or_false] at ho
  rcases ho with rfl | rfl | rfl | rfl | rfl | rfl | rfl | rfl | rfl | rfl | rfl | rfl
  case inr.inr.inr.inr.inr.inr.inl => exact .inr (.inl rfl)
  case inr.inr.inr.inr.inr.inr.inr.inl => exact .inr (.inr rfl)
  all_goals
    left
    constructor <;> simp [Operation.Sets, Operation.Puts, Operation.Writes]

theorem describe_honest (hp : B.platform = A.platform) (ha : B.architecture = A.architecture)
    (ho : o ∈ describeOperations B x) :
    Preserves machine (fun m => Honest A H x m ∧ Whole H x m) o := by
  rcases describe_cases ho with hs | rfl | rfl
  · exact hs.honest.and hs.whole
  · constructor
    · intro m k hm
      rwa [torn_setenv]
    · rintro m m' ⟨hm, hw⟩ he
      cases he
      have hw' : Whole H x (m.setenv (x.var "nerves_fw_platform") B.platform) :=
        hw.congr rfl rfl rfl
      refine ⟨⟨?_, ?_, fun _ _ => hw'⟩, hw'⟩
      · intro p h
        simpa [Media.setenv, hp, eq_comm] using h
      · intro p h
        exact hm.architecture p (by simpa [Media.setenv] using h)
  · constructor
    · intro m k hm
      rwa [torn_setenv]
    · rintro m m' ⟨hm, hw⟩ he
      cases he
      have hw' : Whole H x (m.setenv (x.var "nerves_fw_architecture") B.architecture) :=
        hw.congr rfl rfl rfl
      refine ⟨⟨?_, ?_, fun _ _ => hw'⟩, hw'⟩
      · intro p h
        exact hm.platform p (by simpa [Media.setenv] using h)
      · intro p h
        simpa [Media.setenv, ha, eq_comm] using h

theorem described_usable (hp : B.platform = A.platform) (ha : B.architecture = A.architecture) :
    Usable A x (described B x m) := by
  constructor <;>
    simp [described, describeOperations, perform, machine, exec, Media.setenv, hp, ha]

/-- The slot that is worked on: described again only once all its files are there. -/
theorem body_honest (hB : B ∈ H) (hp : B.platform = A.platform)
    (ha : B.architecture = A.architecture) :
    Triple machine (Honest A H x) (bodyOperations B x)
      (fun m => Honest A H x m ∧ Usable A x m) (Honest A H x) := by
  have hw : Triple machine (Honest A H x) (clearOperations x ++ writeOperations B x)
      (fun m => Honest A H x m ∧ Whole H x m) (Honest A H x) := by
    refine ⟨clear_write_blank.safe, fun m m' hm h => ?_⟩
    obtain ⟨u, -, hu⟩ := perform_append_none.mp h
    obtain ⟨-, rfl⟩ := perform_write.mp hu
    exact ⟨(clear_write_blank.post m _ hm h).honest, B, hB, written_written⟩
  refine hw.append ?_
  have hd := Triple.invariant fun o ho => describe_honest (H := H) (x := x) hp ha (o := o) ho
  refine ⟨fun m hm n k => (hd.safe m hm n k).1, fun m m' hm h => ?_⟩
  refine ⟨(hd.post m m' hm h).1, ?_⟩
  rw [perform_describe] at h
  cases h
  exact described_usable hp ha

theorem body_silent (hy : y ≠ x) (ho : o ∈ bodyOperations B x) : Silent y o := by
  have hu : o ∈ upgradeOperations B x := List.mem_append_left _ ho
  refine ⟨body_sets ?_ ho, body_sets ?_ ho, upgrade_puts ?_ ?_ ?_ hu, upgrade_puts ?_ ?_ ?_ hu,
    upgrade_writes ?_ ?_ hu⟩ <;> simp [hy]

theorem body_kept (hy : y ≠ x) : Triple machine (Kept A H y) (bodyOperations B x) (Kept A H y)
    (Kept A H y) :=
  Triple.invariant fun _ ho => (body_silent hy ho).kept (body_sets (by simp) ho)
    (body_sets (by simp) ho)

theorem switch_ready : Triple machine (Ready A H) (switchOperations x) (Ready A H)
    (Ready A H) := by
  apply Triple.invariant
  intro o ho
  have hs : ∀ z, Silent z o := by
    intro z
    simp only [switchOperations, List.mem_cons, List.not_mem_nil, or_false] at ho
    rcases ho with rfl | rfl | rfl <;> exact silent_setenv _ (by decide)
  simp only [switchOperations, List.mem_cons, List.not_mem_nil, or_false] at ho
  rcases ho with rfl | rfl | rfl
  · exact Silent.ready hs (.inr ⟨x, rfl⟩) (.inl (by simp [Operation.Sets]))
  · exact Silent.ready hs (.inl (by simp [Operation.Sets])) (.inr (.inl rfl))
  · exact Silent.ready hs (.inl (by simp [Operation.Sets])) (.inl (by simp [Operation.Sets]))

theorem Sound.kept (h : Sound A H m) (ha : m.env "nerves_fw_active" = some y.name)
    (hv : m.env "nerves_fw_validated" = some "1") : Kept A H y m := by
  obtain ⟨z, hz⟩ := h.selected
  obtain rfl : z = y := by simpa [hz.active] using ha
  exact ⟨h.honest z, hz.usable, ha, hv⟩

theorem upgrade_sound (hB : B ∈ H) (hg : Gate B y m.env) (h : Sound A H m) (n k : ℕ) :
    Sound A H (cut machine (upgradeOperations B y.other) n k m) := by
  have hk := h.kept hg.active hg.validated
  have hp : B.platform = A.platform := (h.honest y).platform _ hg.platform
  have ha : B.architecture = A.architecture := (h.honest y).architecture _ hg.architecture
  -- Slot y is kept while the other one is worked on; then either may be selected.
  have hbody := (body_kept (B := B) (A := A) (H := H) (Slot.ne_other y)).and
    (body_honest (x := y.other) hB hp ha)
  refine (Triple.append (hbody.imp (fun _ h => h) ?_ fun m h => h.1.sound h.2)
    (switch_ready.imp (fun _ h => h) (fun _ h => h.sound) fun _ h => h.sound)).safe m
      ⟨hk, h.honest _⟩ n k
  rintro m ⟨hy, hx, hu⟩
  refine ⟨fun z => ?_, fun z => ?_, ⟨y, hy.active⟩, .inl hy.validated⟩
  · by_cases hz : z = y
    · exact hz ▸ hy.honest
    · exact Slot.eq_other_of_ne hz ▸ hx
  · by_cases hz : z = y
    · exact hz ▸ hy.usable
    · exact Slot.eq_other_of_ne hz ▸ hu

/-- What the gate asks makes the selection sound wherever the environment is honest. -/
theorem Gate.sound (hg : Gate B y m.env) (h : ∀ z, Honest A H z m) : Sound A H m := by
  refine ⟨h, y, hg.active, ⟨?_, ?_⟩, .inl hg.validated⟩
  · rw [hg.platform, (h y).platform _ hg.platform]
  · rw [hg.architecture, (h y).architecture _ hg.architecture]

theorem preventRevert_honest : Triple machine (Honest A H x) (preventRevertOperations x)
    (Blank A x) (Honest A H x) := by
  refine blank_triple [.info ("Preventing reverts to partition " ++ x.letter)]
    ((preventRevertOperations x).drop 2) ?_ ?_
  · intro o ho
    obtain rfl := List.mem_singleton.mp ho
    exact silent_info _
  · simp [preventRevertOperations, Operation.Sets]

theorem preventRevert_silent (hy : y ≠ x) (ho : o ∈ preventRevertOperations x) : Silent y o := by
  simp only [preventRevertOperations, List.mem_cons, List.not_mem_nil, or_false] at ho
  rcases ho with rfl | rfl | rfl | rfl | rfl | rfl <;> constructor <;>
    simp [Operation.Sets, Operation.Puts, Operation.Writes, hy.symm]

theorem preventRevert_sound (ha : m.env "nerves_fw_active" = some y.name)
    (hv : m.env "nerves_fw_validated" = some "1") (h : Sound A H m) (n k : ℕ) :
    Sound A H (cut machine (preventRevertOperations y.other) n k m) := by
  have hkept : Triple machine (Kept A H y) (preventRevertOperations y.other) (Kept A H y)
      (Kept A H y) := by
    refine Triple.invariant fun o ho => ?_
    refine (preventRevert_silent (Slot.ne_other y) ho).kept ?_ ?_ <;>
      · revert o
        simp [preventRevertOperations, Operation.Sets]
  have hs := (hkept.and preventRevert_honest).safe m ⟨h.kept ha hv, h.honest _⟩ n k
  exact hs.1.sound hs.2

theorem revert_silent (ho : o ∈ revertOperations x) (z : Slot) : Silent z o := by
  simp only [revertOperations, List.mem_cons, List.not_mem_nil, or_false] at ho
  rcases ho with rfl | rfl | rfl | rfl <;> constructor <;>
    simp [Operation.Sets, Operation.Puts, Operation.Writes, Ne.symm image_ne_extlinuxPath,
      Ne.symm dtb_ne_extlinuxPath]

theorem revert_sound {O : OpsArchive} (hg : RevertGate O x m.env) (h : Sound A H m) (n k : ℕ) :
    Sound A H (cut machine (revertOperations x) n k m) := by
  have hr : Ready A H m := by
    obtain ⟨y, hy⟩ := h.selected
    -- The gate of the revert makes x usable, the invariant its other slot.
    obtain rfl : y = x.other := by simpa [hg.active, eq_comm] using hy.active
    have hx : Usable A x m := by
      constructor
      · rw [hg.platform, (h.honest x).platform _ hg.platform]
      · rw [hg.architecture, (h.honest x).architecture _ hg.architecture]
    refine ⟨h.honest, fun z => ?_, ⟨_, hy.active⟩, hy.validated.imp_right And.left⟩
    by_cases hz : z = x
    · exact hz ▸ hx
    · exact Slot.eq_other_of_ne hz ▸ hy.usable
  refine (Triple.invariant fun o ho => ?_).safe m hr n k |>.sound
  have hs := revert_silent ho
  simp only [revertOperations, List.mem_cons, List.not_mem_nil, or_false] at ho
  rcases ho with rfl | rfl | rfl | rfl
  · exact Silent.ready hs (.inl (by simp [Operation.Sets])) (.inl (by simp [Operation.Sets]))
  · exact Silent.ready hs (.inr ⟨x, rfl⟩) (.inl (by simp [Operation.Sets]))
  · exact Silent.ready hs (.inl (by simp [Operation.Sets])) (.inr (.inr rfl))
  · exact Silent.ready hs (.inl (by simp [Operation.Sets])) (.inl (by simp [Operation.Sets]))

theorem validate_silent (ho : o ∈ validateOperations) (z : Slot) : Silent z o := by
  simp only [validateOperations, List.mem_cons, List.not_mem_nil, or_false] at ho
  rcases ho with rfl | rfl | rfl | rfl
  · exact silent_info _
  · exact silent_setenv _ (by decide)
  · exact silent_unsetenv (by decide)
  · exact silent_unsetenv (by decide)

theorem validate_sound (h : Sound A H m) (n k : ℕ) :
    Sound A H (cut machine validateOperations n k m) := by
  refine (Triple.invariant fun o ho => ?_).safe m h n k
  have hs := validate_silent ho
  simp only [validateOperations, List.mem_cons, List.not_mem_nil, or_false] at ho
  rcases ho with rfl | rfl | rfl | rfl
  · exact Silent.sound hs (by simp [Operation.Sets]) (by simp [Operation.Sets])
  · constructor
    · intro m k hm
      rwa [torn_setenv]
    · intro m m' hm he
      obtain ⟨y, hy⟩ := hm.selected
      have hh : ∀ z, Agree z m m' := fun z => (hs z).exec he
      cases he
      exact ⟨fun z => (hm.honest z).agree (hh z), y, by simpa [Media.setenv] using hy.active,
        hy.usable.agree (hh y), .inl (by simp [Media.setenv])⟩
  · exact Silent.sound hs (by simp [Operation.Sets]) (by simp [Operation.Sets])
  · exact Silent.sound hs (by simp [Operation.Sets]) (by simp [Operation.Sets])

theorem provision_silent (ho : o ∈ provisioning B) (z : Slot) : Silent z o := by
  obtain rfl := List.mem_singleton.mp ho
  exact silent_setenv _ (by decide)

theorem factoryReset_silent (ho : o ∈ factoryResetOperations) (z : Slot) : Silent z o := by
  simp only [factoryResetOperations, List.mem_cons, List.not_mem_nil, or_false] at ho
  rcases ho with rfl | rfl | rfl
  · exact silent_info _
  · constructor <;> simp [Operation.Sets, Operation.Puts, Operation.Writes]
  · constructor <;> simp [Operation.Sets, Operation.Puts, Operation.Writes]

theorem provision_sound (h : Sound A H m) (n k : ℕ) :
    Sound A H (cut machine (provisioning B) n k m) := by
  refine (Triple.invariant fun o ho => ?_).safe m h n k
  refine Silent.sound (provision_silent ho) ?_ ?_ <;>
    simp [List.mem_singleton.mp ho, Operation.Sets]

theorem factoryReset_sound (h : Sound A H m) (n k : ℕ) :
    Sound A H (cut machine factoryResetOperations n k m) := by
  refine (Triple.invariant fun o ho => ?_).safe m h n k
  refine Silent.sound (factoryReset_silent ho) ?_ ?_
  all_goals
    revert o
    simp [factoryResetOperations, Operation.Sets]

end Operations

section Runs
variable {hush : Hush} {A : Archive} {H : List Archive} {s : State}

/-- No archive is without a platform, so a boot drops nothing that `Honest` reads. -/
theorem boot_agree (hush : Hush) {y z : Slot} (hy : s.media.env "nerves_fw_active" = some y.name)
    (hz : Honest A H z s.media) : Agree z s.media (boot hush s).media := by
  have hvar {v : String} (hv : s.media.env (z.var v) ≠ some "") :
      (boot hush s).media.env (z.var v) = s.media.env (z.var v) := by
    rw [boot_env]
    exact (savedEnv_frame (Slot.var_not_mem (by decide)) hy).eq hv
  exact ⟨hvar fun h => A.platform_ne (hz.platform _ h).symm,
    hvar fun h => A.architecture_ne (hz.architecture _ h).symm,
    by rw [boot_fat], by rw [boot_fat], by rw [boot_raw]⟩

theorem boot_active (hush : Hush) {y : Slot} (hy : s.media.env "nerves_fw_active" = some y.name) :
    (boot hush s).media.env "nerves_fw_active" =
      some (if FallsBack hush s.media.env then y.other else y).name := by
  rw [boot_env, savedEnv_active hy]

/-- `nerves_init` keeps the invariant: it falls back only to a slot that is usable. -/
theorem boot_sound (hush : Hush) (h : Sound A H s.media) : Sound A H (boot hush s).media := by
  obtain ⟨y, hy⟩ := h.selected
  have hs := fun z => boot_agree hush hy.active (h.honest z)
  refine ⟨fun z => (h.honest z).agree (hs z), _, boot_active hush hy.active, ?_, ?_⟩
  · split_ifs with hf
    · rcases hy.validated with hv | ⟨-, hu⟩
      · exact absurd hf (not_fallsBack hv)
      · exact hu.agree (hs _)
    · exact hy.usable.agree (hs _)
  · rw [boot_env, savedEnv_validated hy.active
      (by rcases hy.validated with hv | ⟨hv, -⟩ <;> simp [hv])]
    by_cases hf : FallsBack hush s.media.env
    · exact .inl (by simp [hf])
    · split_ifs
      · exact .inl rfl
      · exact hy.validated.imp_right fun hv => ⟨hv.1, hv.2.agree (hs _)⟩

/-- The event is none of the two that the scheme is not made for: installing anew, and
giving up the fallback while it may be needed. -/
def Careful (s : State) : Event → Prop
  | .fwup (.complete _) _ => False
  | .fwup (.preventRevert _) _ => s.media.env "nerves_fw_validated" = some "1"
  | _ => True

theorem step_sound {e : Event} (hc : Careful s e) (he : ∀ B, e.archive = some B → B ∈ H)
    (h : Sound A H s.media) : Sound A H (step hush s e).media := by
  cases e with
  | boot => exact boot_sound hush h
  | fwup c loss =>
    obtain ⟨n, k, hr⟩ := c.exists_run_eq_cut s.host loss s.media
    simp only [step, hr]
    have hp := performs s.host s.media.env c
    generalize c.operations s.host s.media.env = ops at hp
    cases hp with
    | refused text => rwa [cut_error]
    | status O text => rwa [cut_info]
    | mounted B => exact hc.elim
    | complete B => exact hc.elim
    | upgrade B y hg => exact upgrade_sound (he B rfl) hg h n k
    | provision B => exact provision_sound h n k
    | factoryReset O => exact factoryReset_sound h n k
    | preventRevert O y hy => exact preventRevert_sound hy hc h n k
    | revert O x hg => exact revert_sound hg h n k
    | validate O => exact validate_sound h n k

theorem Factory.sound {m : Media} (h : Factory A m) (hA : A ∈ H) : Sound A H m := by
  refine ⟨fun z => ?_, .a, h.active, ⟨h.platform, h.architecture⟩, .inl h.validated⟩
  cases z with
  | a =>
    exact ⟨fun p hp => by simpa [h.platform, eq_comm] using hp,
      fun p hp => by simpa [h.architecture, eq_comm] using hp, fun _ _ => ⟨A, hA, h.written⟩⟩
  | b => exact Blank.honest ⟨h.other _, fun p hp => by simp [h.other] at hp⟩

theorem run_sound {es : List Event} (h : Installed A s)
    (hes : Trace.Guarded (step hush) Careful s es) :
    Sound A (A :: archives es) (run hush s es).media :=
  hes.invariant (I := fun s => Sound A (A :: archives es) s.media)
    (fun _ e he hs hc => step_sound hc (fun _ hB => List.mem_cons_of_mem _
      (List.mem_filterMap.mpr ⟨e, he, hB⟩)) hs)
    (h.factory.sound (List.mem_cons_self ..))

/-- The next boot finds the slot that it selects whole and usable. -/
theorem Sound.next {m : Media} (h : Sound A H m) (hush : Hush) :
    ∃ z, nextSlot hush m.env = some z ∧ Whole H z m ∧ Usable A z m := by
  obtain ⟨y, hy⟩ := h.selected
  have hu : Usable A (if FallsBack hush m.env then y.other else y) m := by
    split_ifs with hf
    · rcases hy.validated with hv | ⟨-, hu⟩
      · exact absurd hf (not_fallsBack hv)
      · exact hu
    · exact hy.usable
  exact ⟨_, nextSlot_eq hy.active, (h.honest _).whole_of_usable hu, hu⟩

end Runs

end NervesSystem
