import NervesSystem.FwupOps

namespace NervesSystem
open Crash

/-- The invocations of fwup: `-t` with a task of an archive or of an ops.fw. -/
inductive Command
  | complete (A : Archive)
  | upgrade (A : Archive)
  | provision (A : Archive)
  | factoryReset (O : OpsArchive)
  | preventRevert (O : OpsArchive)
  | revert (O : OpsArchive)
  | status (O : OpsArchive)
  | validate (O : OpsArchive)

namespace Command

def config : Command → Config
  | complete A | upgrade A | provision A => fwupConf A
  | factoryReset O | preventRevert O | revert O | status O | validate O => fwupOpsConf O

def task : Command → String
  | complete _ => "complete"
  | upgrade _ => "upgrade"
  | provision _ => "provision"
  | factoryReset _ => "factory-reset"
  | preventRevert _ => "prevent-revert"
  | revert _ => "revert"
  | status _ => "status"
  | validate _ => "validate"

/-- The operations of the task that fwup selects. -/
def operations (c : Command) (host : Host) (env : Env) : List Operation :=
  match c.config.select host env c.task with
  | none => []
  | some t => t.operations c.config.fileResources

def run (c : Command) (host : Host) (loss : Option PowerLoss) (m : Media) : Media :=
  c.config.run host c.task loss m

def failure (c : Command) (host : Host) (m : Media) : Option Failure :=
  c.config.failure host c.task m

/-- The archive that the command may install. -/
def archive : Command → Option Archive
  | complete A | upgrade A => some A
  | _ => none

theorem run_none (c : Command) (host : Host) (m : Media) :
    c.run host none m = (perform machine (c.operations host m.env) m).1 := by
  unfold run Config.run operations
  split <;> simp_all

theorem run_some (c : Command) (host : Host) (l : PowerLoss) (m : Media) :
    c.run host (some l) m = cut machine (c.operations host m.env) l.operations l.bytes m := by
  unfold run Config.run operations
  split <;> simp_all

theorem failure_eq {c : Command} {host : Host} {m : Media} (h : c.operations host m.env ≠ []) :
    c.failure host m = (perform machine (c.operations host m.env) m).2 := by
  unfold failure Config.failure operations at *
  split <;> simp_all

/-- Interrupted or not, a task leaves one of the states of its operations. -/
theorem exists_run_eq_cut (c : Command) (host : Host) (loss : Option PowerLoss) (m : Media) :
    ∃ n k, c.run host loss m = cut machine (c.operations host m.env) n k m := by
  cases loss with
  | none => exact ⟨_, 0, (run_none c host m).trans (perform_fst _ _ 0 (Nat.le_refl _) m)⟩
  | some l => exact ⟨_, _, run_some c host l m⟩

end Command

/-- The device: its disk and the system that runs from it. -/
structure State where
  media : Media
  host : Host

inductive Event
  | fwup (c : Command) (loss : Option PowerLoss)
  | boot

/-- U-Boot's environment after `nerves_init` chose a slot. -/
def selection (hush : Hush) (env : Env) : UBoot :=
  nervesSelect hush (UBoot.powerOn env fun _ => none)

/-- The slot that the next boot selects. -/
def nextSlot (hush : Hush) (env : Env) : Option Slot :=
  ((selection hush env).env "nerves_fw_active").bind Slot.ofName

/-- A power-up: U-Boot runs `bootcmd` and starts the system on `root=`. -/
def boot (hush : Hush) (s : State) : State :=
  let u := (bootcmd hush (UBoot.powerOn s.media.env fun _ => none) s.media.fat).1
  { media := { s.media with env := u.saved }, host := ⟨u.env "uenv_root"⟩ }

def step (hush : Hush) (s : State) : Event → State
  | .fwup c loss => { s with media := c.run s.host loss s.media }
  | .boot => boot hush s

def run (hush : Hush) (s : State) (es : List Event) : State := es.foldl (step hush) s

/-- The slot that the running system has as its root. -/
def State.Running (s : State) (x : Slot) : Prop := s.host.root = some x.device

instance (s : State) (x : Slot) : Decidable (s.Running x) := inferInstanceAs (Decidable (_ = _))

/-- The power stays on. A `complete` that finds the disk unmounted must also succeed. -/
def Uninterrupted (s : State) : Event → Prop
  | .boot => True
  | .fwup (.complete A) loss => loss = none ∧
    (s.host.root = none → (Command.complete A).failure s.host s.media = none)
  | .fwup _ loss => loss = none

def Event.archive : Event → Option Archive
  | .fwup c _ => c.archive
  | .boot => none

/-- The archives that a run has offered to the device. -/
def archives (es : List Event) : List Archive := es.filterMap Event.archive

/-- The disk that `complete` leaves on any earlier contents, before any boot. -/
def Installed (A : Archive) (s : State) : Prop :=
  s.host.root = none ∧ ∃ m, (Command.complete A).failure s.host m = none ∧
    s.media = (Command.complete A).run s.host none m

@[simp] theorem run_nil (hush : Hush) (s : State) : run hush s [] = s := rfl

@[simp] theorem run_cons (hush : Hush) (s : State) (e : Event) (es : List Event) :
    run hush s (e :: es) = run hush (step hush s e) es := rfl

theorem run_append (hush : Hush) (s : State) (es fs : List Event) :
    run hush s (es ++ fs) = run hush (run hush s es) fs := List.foldl_append

end NervesSystem
