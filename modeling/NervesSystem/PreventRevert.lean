import NervesSystem.NoBrick
import NervesSystem.TrialBoot

namespace NervesSystem
open Crash Trial

section Fallback
variable {hush : Hush} {A : Archive} {s : State} {m : Media} {x y : Slot}
  {H : List Archive} {es fs : List Event}

theorem preventReverted_image : (preventReverted x m).fat x.image = none := by
  simp [preventReverted, Media.fatPut, Media.unsetenv]

/-- What was validated stays validated until something new is installed. -/
theorem step_validated (hush : Hush) {e : Event} (he : e.archive = none) (hy : ∃ y : Slot,
    s.media.env "nerves_fw_active" = some y.name)
    (hv : s.media.env "nerves_fw_validated" = some "1") :
    (step hush s e).media.env "nerves_fw_validated" = some "1" := by
  obtain ⟨y, hy⟩ := hy
  cases e with
  | boot => simp only [step, boot_env, savedEnv_validated hy (by simp [hv]), hv, ite_self]
  | fwup c loss =>
    obtain ⟨n, k, hr⟩ := c.exists_run_eq_cut s.host loss s.media
    simp only [step, hr]
    refine (Triple.invariant (I := fun m : Media => m.env "nerves_fw_validated" = some "1")
      fun o ho => ?_).safe s.media hv n k
    -- No task but an installation sets the variable to anything but 1.
    have hset : o = .ubootSetenv "nerves_fw_validated" "1" ∨ ¬ o.Sets "nerves_fw_validated" := by
      have hp := performs s.host s.media.env c
      generalize c.operations s.host s.media.env = ops at ho hp
      cases hp with
      | refused text => exact .inr (List.mem_singleton.mp ho ▸ id)
      | status O text => exact .inr (List.mem_singleton.mp ho ▸ id)
      | mounted B => cases he
      | complete B => cases he
      | upgrade B => cases he
      | provision B => exact .inr (by simp [List.mem_singleton.mp ho, Operation.Sets])
      | factoryReset O =>
        right
        revert o
        simp [factoryResetOperations, Operation.Sets]
      | preventRevert O y =>
        right
        revert o
        simp [preventRevertOperations, Operation.Sets]
      | revert O x =>
        revert o
        simp [revertOperations, Operation.Sets]
      | validate O =>
        revert o
        simp [validateOperations, Operation.Sets]
    rcases hset with rfl | hset
    · exact ⟨fun m k hm => by rwa [torn_setenv], fun m m' _ he => by
        cases he; simp [Media.setenv]⟩
    · exact (frames_env hset).preserves (· = some "1")

theorem run_validated (hush : Hush) (hfs : ∀ e ∈ fs, e.archive = none) (hs : Sound A H s.media)
    (hv : s.media.env "nerves_fw_validated" = some "1") : Sound A H (run hush s fs).media := by
  have hg : Trace.Guarded (step hush) (fun _ e => e.archive = none) s fs :=
    .of_forall fun e he _ => hfs e he
  refine (hg.invariant (I := fun s => Sound A H s.media ∧
    s.media.env "nerves_fw_validated" = some "1") ?_ ⟨hs, hv⟩).1
  rintro s e - ⟨hs, hv⟩ he
  obtain ⟨y, hy⟩ := hs.selected
  have hc : Careful s e := by
    cases e with
    | boot => trivial
    | fwup c loss => cases c <;> trivial
  exact ⟨step_sound hc (fun B h => by simp [he] at h) hs, step_validated hush he ⟨y, hy.active⟩ hv⟩

/-- The next boot falls back to a slot that has no kernel. -/
theorem Tracks.not_whole_next {z : Slot} (h : Tracks (.tried y) m)
    (hi : m.fat y.other.image = none) (hz : nextSlot hush m.env = some z) : ¬ Whole H z m := by
  rintro ⟨B, -, hw⟩
  obtain rfl : y.other = z := by simpa [h.shows.nextSlot] using hz
  simpa [hi] using hw.image

/-- `prevent-revert` takes the slot that the next boots may fall back to, unless the firmware
that is kept has been validated. -/
theorem preventRevert_safe_iff (hush : Hush) (O : OpsArchive) (es : List Event)
    (h : Installed A s)
    (hes : Trace.Guarded (step hush) (fun s e => Uninterrupted s e ∧ Careful s e) s es) :
    let t := run hush s (es ++ [.fwup (.preventRevert O) none])
    (∀ fs, (∀ e ∈ fs, e.archive = none) → ∃ z, nextSlot hush (run hush t fs).media.env = some z ∧
      Whole (A :: archives es) z (run hush t fs).media) ↔
    (run hush s es).media.env "nerves_fw_validated" = some "1" := by
  have hu := hes.imp fun _ _ h => h.1
  have hc := hes.imp fun _ _ h => h.2
  have hsound := run_sound h hc
  obtain ⟨p, hp⟩ := exists_tracks h hu
  rw [run_append]
  generalize run hush s es = u at hsound hp
  have hact := hp.shows.active
  simp only [run_cons, run_nil]
  have ht : (step hush u (.fwup (.preventRevert O) none)).media =
      preventReverted p.active.other u.media := run_preventRevert hact
  have htr : Tracks p (step hush u (.fwup (.preventRevert O) none)).media :=
    hp.step (e := .fwup (.preventRevert O) none) rfl fun _ _ h => by cases h
  constructor
  · intro hall
    -- In either unvalidated phase some boot is about to start the slot that was given up.
    cases p with
    | settled y => exact hp.shows.2
    | fresh y =>
      obtain ⟨z, hz, hw⟩ := hall [.boot] (by simp [Event.archive])
      have hi : (boot hush (step hush u (.fwup (.preventRevert O) none))).media.fat
          y.other.image = none := by
        rw [boot_fat, ht]
        exact preventReverted_image
      exact absurd hw ((htr.boot hush).not_whole_next hi hz)
    | tried y =>
      obtain ⟨z, hz, hw⟩ := hall [] (by simp)
      exact absurd hw (htr.not_whole_next (by rw [ht]; exact preventReverted_image) hz)
  · intro hv fs hfs
    have hs : Sound A (A :: archives es)
        (step hush u (.fwup (.preventRevert O) none)).media :=
      step_sound (e := .fwup (.preventRevert O) none) hv (fun _ h => by cases h) hsound
    have hvt := step_validated hush (e := .fwup (.preventRevert O) none) rfl
      ⟨_, hact⟩ hv
    obtain ⟨z, hz, hw, -⟩ := (run_validated hush hfs hs hvt).next hush
    exact ⟨z, hz, hw⟩

theorem preventRevert_safe_sample : ∃ z, nextSlot plainHush (run plainHush sampleState
    ([.boot] ++ [.fwup (.preventRevert sampleOps) none] ++ [.boot, .boot])).media.env = some z := by
  obtain ⟨z, hz, -⟩ := (preventRevert_safe_iff plainHush sampleOps [.boot] installed_sample
    ⟨⟨trivial, trivial⟩, trivial⟩).mpr (by decide +kernel) [.boot, .boot]
      (by simp [Event.archive])
  exact ⟨z, by rw [run_append]; exact hz⟩

/-- New firmware that was not validated gives up its fallback and is taken back to it. -/
theorem preventRevert_unsafe :
    let t := run plainHush sampleState [.boot, .fwup (.upgrade sampleArchive) none, .boot]
    (Command.preventRevert sampleOps).failure t.host t.media = none ∧
    let t' := step plainHush t (.fwup (.preventRevert sampleOps) none)
    nextSlot plainHush t'.media.env = some .a ∧ t'.media.fat Slot.a.image = none := by
  decide +kernel

end Fallback

section Running
variable {hush : Hush} {s : State} {es : List Event} {e : Event} {r x : Slot}

/-- The operation trims, writes or deletes the rootfs, the kernel or the device tree of the slot. -/
def Operation.Touches (r : Slot) (o : Operation) : Prop :=
  o.Writes (.rootfs r) ∨ o.Puts r.image ∨ o.Puts r.dtb

/-- The event leaves the slot alone that the system runs from. -/
def SparesRunning (s : State) : Event → Prop
  | .boot => True
  | .fwup c _ => ∀ r, s.Running r → ∀ o ∈ c.operations s.host s.media.env, ¬ o.Touches r

/-- The tasks that work on the slot that is not active meet the running slot active. -/
def RunningActive (s : State) : Event → Prop
  | .fwup (.upgrade A) _ => ∀ r y, s.Running r → Gate A y s.media.env → y = r
  | .fwup (.preventRevert _) _ =>
    ∀ r y, s.Running r → s.media.env "nerves_fw_active" = some (Slot.name y) → y = r
  | _ => True

theorem upgrade_touches {A : Archive} :
    (∀ o ∈ upgradeOperations A x, ¬ o.Touches r) ↔ r ≠ x := by
  constructor
  · rintro h rfl
    exact h (.trim (.rootfs r)) (by simp [upgradeOperations, clearOperations]) (.inl rfl)
  · rintro hr o ho (h | h | h)
    · exact upgrade_writes (by simpa using hr) (by simp) ho h
    · exact upgrade_puts (by simpa using hr) (by simp) (by simp) ho h
    · exact upgrade_puts (by simp) (by simpa using hr) (by simp) ho h

theorem preventRevert_touches : (∀ o ∈ preventRevertOperations x, ¬ o.Touches r) ↔ r ≠ x := by
  constructor
  · rintro h rfl
    exact h (.trim (.rootfs r)) (by simp [preventRevertOperations]) (.inl rfl)
  · intro hr o ho
    revert o
    simp [preventRevertOperations, Operation.Touches, Operation.Writes, Operation.Puts, hr.symm]

/-- No other task touches a slot while a system runs. -/
theorem others_touch {c : Command} {o : Operation} (hu : ∀ A, c ≠ .upgrade A)
    (hp : ∀ O, c ≠ .preventRevert O) (hr : s.Running r)
    (ho : o ∈ c.operations s.host s.media.env) : ¬ o.Touches r := by
  have h := performs s.host s.media.env c
  generalize c.operations s.host s.media.env = ops at ho h
  cases h with
  | refused text => simp [List.mem_singleton.mp ho, Operation.Touches, Operation.Writes,
      Operation.Puts]
  | status O text => simp [List.mem_singleton.mp ho, Operation.Touches, Operation.Writes,
      Operation.Puts]
  | mounted A => exact absurd ho List.not_mem_nil
  | complete A h => exact absurd (h.symm.trans hr) (by simp)
  | upgrade A y => exact absurd rfl (hu A)
  | preventRevert O y => exact absurd rfl (hp O)
  | provision A =>
    revert o
    simp [provisioning, Operation.Touches, Operation.Writes, Operation.Puts]
  | factoryReset O =>
    revert o
    simp [factoryResetOperations, Operation.Touches, Operation.Writes, Operation.Puts]
  | revert O x =>
    revert o
    simp [revertOperations, Operation.Touches, Operation.Writes, Operation.Puts,
      Ne.symm image_ne_extlinuxPath, Ne.symm dtb_ne_extlinuxPath]
  | validate O =>
    revert o
    simp [validateOperations, Operation.Touches, Operation.Writes, Operation.Puts]

theorem sparesRunning_iff : SparesRunning s e ↔ RunningActive s e := by
  cases e with
  | boot => exact Iff.rfl
  | fwup c loss =>
    by_cases hu : ∃ A, c = .upgrade A
    · obtain ⟨A, rfl⟩ := hu
      by_cases hg : ∃ y, Gate A y s.media.env
      · obtain ⟨y, hy⟩ := hg
        simp only [SparesRunning, RunningActive, operations_upgrade s.host hy, upgrade_touches,
          Slot.ne_other_iff]
        exact ⟨fun h r y' hr hy' => hy.eq hy' ▸ h r hr, fun h r hr => h r y hr hy⟩
      · obtain ⟨text, ho⟩ := operations_upgrade_refused s.host (not_exists.mp hg)
        simp only [SparesRunning, RunningActive, ho, List.mem_singleton, forall_eq]
        exact iff_of_true (fun _ _ => by simp [Operation.Touches, Operation.Writes,
          Operation.Puts]) fun _ y _ hy => absurd ⟨y, hy⟩ hg
    by_cases hp : ∃ O, c = .preventRevert O
    · obtain ⟨O, rfl⟩ := hp
      by_cases hy : ∃ y : Slot, s.media.env "nerves_fw_active" = some y.name
      · obtain ⟨y, hy⟩ := hy
        simp only [SparesRunning, RunningActive, operations_preventRevert O s.host hy,
          preventRevert_touches, Slot.ne_other_iff, hy, Option.some.injEq, Slot.name_inj]
        exact ⟨fun h r y' hr hy' => hy' ▸ h r hr, fun h r hr => h r y hr rfl⟩
      · obtain ⟨text, ho⟩ := operations_preventRevert_refused O s.host (not_exists.mp hy)
        simp only [SparesRunning, RunningActive, ho, List.mem_singleton, forall_eq]
        exact iff_of_true (fun _ _ => by simp [Operation.Touches, Operation.Writes,
          Operation.Puts]) fun _ y _ h => absurd ⟨y, h⟩ hy
    · have hs : SparesRunning s (.fwup c loss) := fun r hr o ho =>
        others_touch (not_exists.mp hu) (not_exists.mp hp) hr ho
      refine iff_of_true hs ?_
      cases c with
      | upgrade A => exact absurd ⟨A, rfl⟩ hu
      | preventRevert O => exact absurd ⟨O, rfl⟩ hp
      | _ => trivial

/-- Over a whole run the running system is left alone just when each `upgrade` and each
`prevent-revert` that is accepted finds it active. -/
theorem spares_running_iff : Trace.Guarded (step hush) SparesRunning s es ↔
    Trace.Guarded (step hush) RunningActive s es :=
  ⟨Trace.Guarded.imp fun _ _ => sparesRunning_iff.mp,
    Trace.Guarded.imp fun _ _ => sparesRunning_iff.mpr⟩

theorem running_destroyed :
    let t := run plainHush sampleState [.boot, .fwup (.upgrade sampleArchive) none]
    t.Running .a ∧ (Command.preventRevert sampleOps).failure t.host t.media = none ∧
      t.media.fat Slot.a.image ≠ none ∧
      (step plainHush t (.fwup (.preventRevert sampleOps) none)).media.fat Slot.a.image = none := by
  decide +kernel

end Running

end NervesSystem
