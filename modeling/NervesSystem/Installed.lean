import NervesSystem.Upgrade
import NervesSystem.Boot

namespace NervesSystem
open Crash

/-- What `complete` leaves: its files in slot a, selected and validated, and an
environment that knows nothing of slot b. -/
structure Factory (A : Archive) (m : Media) : Prop where
  written : Written A .a m
  active : m.env "nerves_fw_active" = some "a"
  validated : m.env "nerves_fw_validated" = some "1"
  booted : m.env "nerves_fw_booted" = some "0"
  autovalidate : m.env "nerves_fw_autovalidate" = some "0"
  platform : m.env (Slot.a.var "nerves_fw_platform") = some A.platform
  architecture : m.env (Slot.a.var "nerves_fw_architecture") = some A.architecture
  other : ∀ v, m.env (Slot.b.var v) = none
  extlinux : m.fat extlinuxPath = some (.conf extlinuxA)

section Complete
variable (A : Archive)

def formatOperations : List Operation :=
  [.gptWrite ["bootfs", "rootfs_a", "rootfs_b", "resource", "app"],
   .fatMkfs,
   .fatSetlabel "BOOT",
   .fatMkdir "extlinux",
   .rawWrite .idbloader A.idbloader none,
   .rawWrite .ubootItb A.ubootItb none]

def factoryEnvOperations : List Operation :=
  [.ubootEnvWrite ubootEnv,
   .ubootSetenv "nerves_serial_number" A.serialNumber,
   .ubootSetenv "nerves_fw_active" "a",
   .ubootSetenv "nerves_fw_devpath" A.devpath] ++ describeOperations A .a

def factoryFileOperations : List Operation :=
  [.fatWrite Slot.a.image A.image none,
   .fatWrite Slot.a.dtb A.devicetree none,
   .fatWrite extlinuxPath (.full (.conf extlinuxA)) none,
   .rawWrite .resource A.resource none,
   .rawWrite (.rootfs .a) A.rootfs none,
   .rawMemset (.rootfs .b) 256 0xff,
   .rawMemset .app 256 0xff]

theorem complete_operations : (complete A).operations fileResources =
    formatOperations A ++ factoryEnvOperations A ++ factoryFileOperations A := rfl

variable {A} {m m' : Media}

theorem factoryEnv_fresh {n : String} (hn : n ∉ ["nerves_serial_number", "nerves_fw_active",
    "nerves_fw_devpath"]) (ho : Slot.owner n ≠ some .a) :
    (perform machine (factoryEnvOperations A) m).1.env n = ubootEnv.lookup n := by
  have h : (perform machine (factoryEnvOperations A) m).1 = (perform machine
      (factoryEnvOperations A).tail { m with env := fun v => ubootEnv.lookup v }).1 := rfl
  rw [h]
  apply perform_frame (f := fun m : Media => m.env n)
  intro o hmem
  have hv := fun v => Slot.var_ne_of_owner (v := v) ho
  simp only [List.mem_cons, List.not_mem_nil, or_false, not_or] at hn
  apply frames_env
  revert o
  simp [factoryEnvOperations, describeOperations, Operation.Sets, hv, Ne.symm hn.1,
    Ne.symm hn.2.1, Ne.symm hn.2.2]

theorem factoryFiles_sets {o : Operation} (ho : o ∈ factoryFileOperations A) (n : String) :
    ¬ o.Sets n := by
  revert o
  simp [factoryFileOperations, Operation.Sets]

/-- The environment is complete before the files are written. -/
theorem complete_env
    (h : perform machine ((complete A).operations fileResources) m = (m', none)) :
    ∃ u t, perform machine (factoryFileOperations A) u = (m', none) ∧
      ∀ n, m'.env n = (perform machine (factoryEnvOperations A) t).1.env n := by
  rw [complete_operations, perform_append_none] at h
  obtain ⟨u, hu, hm⟩ := h
  obtain ⟨t, -, ht⟩ := perform_append_none.mp hu
  refine ⟨u, t, hm, fun n => ?_⟩
  rw [ht, show m' = (perform machine (factoryFileOperations A) u).1 by rw [hm]]
  exact perform_frame (f := fun m => m.env n)
    (fun o ho => frames_env (factoryFiles_sets ho n)) u

theorem perform_complete
    (h : perform machine ((complete A).operations fileResources) m = (m', none)) :
    Factory A m' := by
  obtain ⟨u, t, hm, henv⟩ := complete_env h
  -- The env image replaces whatever variables the disk had before.
  have hfresh : ∀ n, n ∉ ["nerves_serial_number", "nerves_fw_active", "nerves_fw_devpath"] →
      Slot.owner n ≠ some .a → m'.env n = ubootEnv.lookup n :=
    fun n hn ho => (henv n).trans (factoryEnv_fresh hn ho)
  simp only [factoryFileOperations, perform_cons_none, exec_fatWrite, exec_rawWrite,
    exec_rawMemset, Except.ok.injEq, exists_eq_left', perform_nil, Prod.mk.injEq, and_true] at hm
  obtain ⟨_, ⟨-, rfl⟩, _, ⟨-, rfl⟩, _, ⟨-, rfl⟩, _, ⟨-, rfl⟩, _, ⟨-, rfl⟩, rfl⟩ := hm
  refine ⟨⟨?_, ?_, ?_⟩, (henv _).trans ?_, hfresh _ (by decide) (by decide),
    hfresh _ (by decide) (by decide), hfresh _ (by decide) (by decide), (henv _).trans ?_,
    (henv _).trans ?_, ?_, ?_⟩
  · simp [Media.write, Media.fatPut]
  · simp [Media.write, Media.fatPut]
  · simp [Media.write, Media.fatPut, overlay]
  · simp [perform, factoryEnvOperations, describeOperations, Media.setenv, exec, machine]
  · simp [perform, factoryEnvOperations, describeOperations, Media.setenv, exec, machine]
  · simp [perform, factoryEnvOperations, describeOperations, Media.setenv, exec, machine]
  · intro v
    rw [hfresh _ (Slot.var_not_mem (by decide)) (by simp), List.lookup_eq_none_iff]
    intro p hp
    have ho : Slot.owner p.1 = none := (by decide : ∀ p ∈ ubootEnv, Slot.owner p.1 = none) p hp
    simpa using Slot.var_ne_of_owner (x := .b) (v := v) (n := p.1) (by simp [ho])
  · simp [Media.write, Media.fatPut]

end Complete

theorem Installed.performed {A : Archive} {s : State} (h : Installed A s) :
    ∃ m, perform machine ((complete A).operations fileResources) m = (s.media, none) := by
  obtain ⟨hr, m, hf, hm⟩ := h
  have ho := operations_complete A m.env hr
  rw [Command.failure_eq (by rw [ho]; simp [complete_operations, formatOperations]), ho] at hf
  rw [Command.run_none, ho] at hm
  exact ⟨m, Prod.ext hm.symm hf⟩

theorem Installed.factory {A : Archive} {s : State} (h : Installed A s) : Factory A s.media :=
  perform_complete h.performed.choose_spec

section Sample

/-- An archive of full files. -/
def sampleArchive : Archive where
  version := "1.0.0"
  uuid := "b14c6d52-1a6e-4a4c-a1ba-0d2e2d1c7a51"
  idbloader := .full [0x52]
  ubootItb := .full [0xd0]
  image := .full (.blob [0x4d, 0x5a])
  devicetree := .full (.blob [0xd0, 0x0d])
  resource := .full [0x52, 0x53]
  rootfs := .full [0x68, 0x73, 0x71, 0x73]

def sampleOps : OpsArchive where

def blankMedia : Media where
  env := fun _ => none
  gpt := []
  label := none
  dirs := []
  fat := fun _ => none
  raw := fun _ => []
  discard := some 0

def sampleState : State where
  media := (Command.complete sampleArchive).run ⟨none⟩ none blankMedia
  host := ⟨none⟩

theorem installed_sample : Installed sampleArchive sampleState :=
  ⟨rfl, blankMedia, rfl, rfl⟩

end Sample

end NervesSystem
