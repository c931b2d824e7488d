import NervesSystem.Device

namespace NervesSystem

/-- What the environment block holds after the next boot. -/
def savedEnv (hush : Hush) (env : Env) : Env := (selection hush env).saved

/-- The environment without the variables of the bootcount scheme. -/
def cleanEnv (env : Env) : Env :=
  Function.update (Function.update env "upgrade_available" none) "bootcount" none

/-- The variables that `nerves_init` may change in the environment block. -/
def bootVars : List String :=
  ["nerves_fw_active", "nerves_fw_validated", "nerves_fw_booted", "upgrade_available", "bootcount"]

section Test
variable (hush : Hush)

@[simp] theorem test_zero_zero : hush.test (some "0") "0" = true := by
  rw [hush.test_word _ _ (by decide)]; rfl

@[simp] theorem test_zero_one : hush.test (some "0") "1" = false := by
  rw [hush.test_word _ _ (by decide)]; rfl

@[simp] theorem test_one_zero : hush.test (some "1") "0" = false := by
  rw [hush.test_word _ _ (by decide)]; rfl

@[simp] theorem test_one_one : hush.test (some "1") "1" = true := by
  rw [hush.test_word _ _ (by decide)]; rfl

@[simp] theorem test_name (x : Slot) : hush.test (some x.name) "a" = decide (x = .a) :=
  test_slot hush x

end Test

section Import
variable {env : Env} {n w : String} {o o' o'' : Option String}

/-- A variable that is as it was, or had no value and is gone. -/
def Carried (o o' : Option String) : Prop := o' = o ∨ o = some "" ∧ o' = none

theorem Carried.refl (o : Option String) : Carried o o := .inl rfl

theorem Carried.trans (h : Carried o o') (h' : Carried o' o'') : Carried o o'' := by
  rcases h with rfl | ⟨rfl, rfl⟩
  · exact h'
  · rcases h' with rfl | ⟨h, -⟩
    · exact .inr ⟨rfl, rfl⟩
    · cases h

theorem Carried.eq (h : Carried o o') (ho : o ≠ some "") : o' = o :=
  h.resolve_right fun hd => ho hd.1

theorem Carried.eq_some (h : Carried o o') (ho : o' = some w) : o = some w := by
  rcases h with rfl | ⟨-, rfl⟩
  · exact ho
  · cases ho

theorem carried_import (env : Env) (n : String) : Carried (env n) (envImport env n) := by
  unfold envImport
  split
  · next h => exact .inr ⟨h, rfl⟩
  · exact .inl rfl

theorem import_of_ne (h : env n ≠ some "") : envImport env n = env n := if_neg h

theorem import_ne (env : Env) (n : String) : envImport env n ≠ some "" := by
  unfold envImport
  split
  · exact nofun
  · next h => exact h

theorem import_eq (h : env n = some w) (hw : w ≠ "") : envImport env n = some w := by
  rw [import_of_ne (by simpa [h] using hw), h]

theorem import_name {x : Slot} (h : env n = some x.name) : envImport env n = some x.name :=
  import_eq h (by cases x <;> decide)

end Import

section Select
variable {hush : Hush} {env : Env} {y : Slot}

/-- `nerves_init` falls back: the slot was started before and is not validated. -/
def FallsBack (hush : Hush) (env : Env) : Prop :=
  hush.test (envImport env "nerves_fw_booted") "1" = true ∧
    hush.test (envImport env "nerves_fw_validated") "0" = true

instance : Decidable (FallsBack hush env) := inferInstanceAs (Decidable (_ ∧ _))

theorem not_fallsBack (hv : env "nerves_fw_validated" = some "1") : ¬ FallsBack hush env :=
  fun h => by simpa [import_eq hv (by decide)] using h.2

theorem clean_of_ne {n : String} (hu : n ≠ "upgrade_available") (hb : n ≠ "bootcount") :
    cleanEnv env n = env n := by
  simp only [cleanEnv, Function.update_of_ne hb, Function.update_of_ne hu]

theorem nervesRevert_env (u : UBoot) (h : u.env "nerves_fw_active" = some y.name) :
    nervesRevert hush u = u.setenv "nerves_fw_active" y.other.name := by
  simp only [nervesRevert, h, test_name]
  cases y <;> rfl

theorem selection_fallsBack (ha : env "nerves_fw_active" = some y.name)
    (h : FallsBack hush env) :
    selection hush env =
      (((((UBoot.powerOn env fun _ => none).envDelete "upgrade_available").envDelete
        "bootcount").setenv "nerves_fw_active" y.other.name).setenv
          "nerves_fw_validated" "1").saveenv := by
  have hb := h.1
  have hv := h.2
  have hi := import_name ha
  simp only [selection, nervesSelect]
  rw [if_pos (by simpa [UBoot.envDelete, UBoot.powerOn] using hb),
    if_pos (by simpa [UBoot.envDelete, UBoot.powerOn] using hv),
    nervesRevert_env (y := y) _ (by simpa [UBoot.envDelete, UBoot.powerOn] using hi)]

/-- The automatic revert: the other slot, validated. -/
theorem savedEnv_fallsBack (ha : env "nerves_fw_active" = some y.name)
    (h : FallsBack hush env) :
    savedEnv hush env = Function.update (Function.update (cleanEnv (envImport env))
      "nerves_fw_active" (some y.other.name)) "nerves_fw_validated" (some "1") := by
  rw [savedEnv, selection_fallsBack ha h]
  rfl

/-- A slot that was started before and is not to be left: nothing is saved. -/
theorem savedEnv_stays (hb : hush.test (envImport env "nerves_fw_booted") "1" = true)
    (h : ¬ FallsBack hush env) : savedEnv hush env = env := by
  have hv : ¬ hush.test (envImport env "nerves_fw_validated") "0" = true := fun hv => h ⟨hb, hv⟩
  simp only [savedEnv, selection, nervesSelect]
  rw [if_pos (by simpa [UBoot.envDelete, UBoot.powerOn] using hb),
    if_neg (by simpa [UBoot.envDelete, UBoot.powerOn] using hv)]
  rfl

/-- The first start of a slot is recorded. -/
theorem savedEnv_first (hb : hush.test (envImport env "nerves_fw_booted") "1" = false) :
    savedEnv hush env = Function.update
      (Function.update (cleanEnv (envImport env)) "nerves_fw_booted" (some "1"))
      "nerves_fw_validated"
      (if hush.test (envImport env "nerves_fw_autovalidate") "1" then some "1"
        else envImport env "nerves_fw_validated") := by
  simp only [savedEnv, selection, nervesSelect]
  rw [if_neg (by simpa [UBoot.envDelete, UBoot.powerOn] using hb)]
  by_cases hv : hush.test (envImport env "nerves_fw_autovalidate") "1" = true
  · rw [if_pos (by simpa [UBoot.envDelete, UBoot.powerOn, UBoot.setenv] using hv), if_pos hv]
    rfl
  · rw [if_neg (by simpa [UBoot.envDelete, UBoot.powerOn, UBoot.setenv] using hv), if_neg hv]
    -- Nothing was set, but the statement updates nerves_fw_validated with what it was.
    funext n
    by_cases hn : n = "nerves_fw_validated"
    · subst hn
      simp [UBoot.saveenv, UBoot.setenv, UBoot.envDelete, UBoot.powerOn]
    · rw [Function.update_of_ne hn]
      rfl

theorem selection_active (ha : env "nerves_fw_active" = some y.name) :
    (selection hush env).env "nerves_fw_active" =
      some (if FallsBack hush env then y.other else y).name := by
  by_cases h : FallsBack hush env
  · rw [selection_fallsBack ha h, if_pos h]
    simp [UBoot.saveenv, UBoot.setenv]
  · have hi := import_name ha
    rw [if_neg h]
    simp only [selection, nervesSelect]
    split_ifs with hb hv
    · exact absurd ⟨by simpa [UBoot.envDelete, UBoot.powerOn] using hb,
        by simpa [UBoot.envDelete, UBoot.powerOn] using hv⟩ h
    · simpa [UBoot.envDelete, UBoot.powerOn] using hi
    all_goals simpa [UBoot.saveenv, UBoot.setenv, UBoot.envDelete, UBoot.powerOn] using hi

theorem nextSlot_eq (ha : env "nerves_fw_active" = some y.name) :
    nextSlot hush env = some (if FallsBack hush env then y.other else y) := by
  rw [nextSlot, selection_active ha]
  exact Slot.ofName_name _

/-- A boot saves the environment of `nerves_init` and leaves the rest of the disk. -/
theorem boot_media (s : State) :
    (boot hush s).media = { s.media with env := savedEnv hush s.media.env } := by
  simp only [boot, bootcmd_saved]
  rfl

@[simp] theorem boot_env (s : State) : (boot hush s).media.env = savedEnv hush s.media.env := by
  rw [boot_media]

@[simp] theorem boot_fat (s : State) : (boot hush s).media.fat = s.media.fat := by
  rw [boot_media]

@[simp] theorem boot_raw (s : State) : (boot hush s).media.raw = s.media.raw := by
  rw [boot_media]

/-- The system comes up on the slot that was selected. -/
theorem boot_running {s : State} {x : Slot} (hx : nextSlot hush s.media.env = some x) :
    (boot hush s).Running x := by
  obtain ⟨n, hn, ho⟩ := Option.bind_eq_some_iff.mp hx
  rw [Slot.ofName_eq_some ho] at hn
  exact bootcmd_root _ _ hn

theorem savedEnv_frame {n : String} (hn : n ∉ bootVars)
    (ha : env "nerves_fw_active" = some y.name) : Carried (env n) (savedEnv hush env n) := by
  simp only [bootVars, List.mem_cons, List.not_mem_nil, or_false, not_or] at hn
  obtain ⟨h1, h2, h3, h4, h5⟩ := hn
  by_cases hb : hush.test (envImport env "nerves_fw_booted") "1" = true
  · by_cases h : FallsBack hush env
    · simp only [savedEnv_fallsBack ha h, Function.update_of_ne h2, Function.update_of_ne h1,
        clean_of_ne h4 h5]
      exact carried_import env n
    · rw [savedEnv_stays hb h]
      exact .refl _
  · simp only [savedEnv_first (Bool.not_eq_true _ ▸ hb), Function.update_of_ne h2,
      Function.update_of_ne h3, clean_of_ne h4 h5]
    exact carried_import env n

/-- A boot that saves drops what has no value. -/
theorem savedEnv_import {n : String} (hn : n ∉ bootVars)
    (hb : hush.test (envImport env "nerves_fw_booted") "1" = false) :
    savedEnv hush env n = envImport env n := by
  simp only [bootVars, List.mem_cons, List.not_mem_nil, or_false, not_or] at hn
  obtain ⟨h1, h2, h3, h4, h5⟩ := hn
  rw [savedEnv_first hb, Function.update_of_ne h2, Function.update_of_ne h3, clean_of_ne h4 h5]

theorem savedEnv_active (ha : env "nerves_fw_active" = some y.name) :
    savedEnv hush env "nerves_fw_active" =
      some (if FallsBack hush env then y.other else y).name := by
  by_cases hb : hush.test (envImport env "nerves_fw_booted") "1" = true
  · by_cases h : FallsBack hush env
    · simp [savedEnv_fallsBack ha h, h]
    · rw [savedEnv_stays hb h, if_neg h, ha]
  · have h : ¬ FallsBack hush env := fun h => hb h.1
    have hi := import_name ha
    rw [savedEnv_first (Bool.not_eq_true _ ▸ hb), if_neg h]
    simpa [cleanEnv] using hi

/-- `nerves_init` validates what it falls back to, and on demand what it starts first. -/
theorem savedEnv_validated (ha : env "nerves_fw_active" = some y.name)
    (hv : env "nerves_fw_validated" ≠ some "") :
    savedEnv hush env "nerves_fw_validated" =
      if FallsBack hush env ∨ hush.test (envImport env "nerves_fw_booted") "1" = false ∧
        hush.test (envImport env "nerves_fw_autovalidate") "1" = true
      then some "1" else env "nerves_fw_validated" := by
  by_cases hb : hush.test (envImport env "nerves_fw_booted") "1" = true
  · by_cases h : FallsBack hush env
    · simp [savedEnv_fallsBack ha h, h]
    · simp [savedEnv_stays hb h, h, hb]
  · have h : ¬ FallsBack hush env := fun h => hb h.1
    simp [savedEnv_first (Bool.not_eq_true _ ▸ hb), h, Bool.not_eq_true _ ▸ hb, import_of_ne hv]

theorem savedEnv_booted (ha : env "nerves_fw_active" = some y.name)
    (hne : env "nerves_fw_booted" ≠ some "") :
    savedEnv hush env "nerves_fw_booted" =
      if hush.test (envImport env "nerves_fw_booted") "1" then env "nerves_fw_booted"
      else some "1" := by
  by_cases hb : hush.test (envImport env "nerves_fw_booted") "1" = true
  · by_cases h : FallsBack hush env
    · rw [if_pos hb, savedEnv_fallsBack ha h]
      simp [cleanEnv, import_of_ne hne]
    · simp [savedEnv_stays hb h, hb]
  · simp [savedEnv_first (Bool.not_eq_true _ ▸ hb), hb]

end Select

end NervesSystem
