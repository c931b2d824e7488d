import NervesSystem.Slot
import NervesSystem.Library.Crash
import NervesSystem.Library.Overlay

namespace NervesSystem

abbrev Bytes := List UInt8

/-- The variables of the U-Boot environment block. -/
abbrev Env := String → Option String

/-- The entry of an extlinux configuration that its `DEFAULT` line selects. -/
structure Extlinux where
  default : String
  timeout : ℕ
  label : String
  kernel : String
  fdt : String
  append : List String
  deriving DecidableEq

/-- A file on the boot partition: the extlinux configuration as U-Boot reads it,
any other file as its bytes. -/
inductive File
  | blob (bytes : Bytes)
  | conf (c : Extlinux)
  deriving DecidableEq

/-- The first `k` bytes of a file. A configuration cut short is none. -/
def File.take (k : ℕ) : File → File
  | blob bytes => blob (bytes.take k)
  | conf _ => blob []

/-- The raw regions of the eMMC, by the names of their offsets in fwup-common.conf. -/
inductive Region
  | idbloader
  | ubootItb
  | rootfs (x : Slot)
  | resource
  | app
  deriving DecidableEq

/-- A file resource of an archive: the file itself, or a delta that turns the
contents `made` of its source into `target`. -/
inductive Payload (α : Type*)
  | full (contents : α)
  | delta (made target : α)

namespace Payload
variable {α : Type*}

/-- The file that the resource stands for. -/
def target : Payload α → α
  | full contents => contents
  | delta _ target => target

@[simp] theorem target_full (contents : α) : (full contents).target = contents := rfl

/-- A delta applies to the very contents it was made against and fails on others. -/
def reconstruct [DecidableEq α] : Payload α → Option α → Option α
  | full contents, _ => some contents
  | delta made target, source => if source = some made then some target else none

/-- The source holds what the resource needs. -/
def Applies : Payload α → Option α → Prop
  | full _, _ => True
  | delta made _, source => source = some made

theorem reconstruct_eq_some [DecidableEq α] {p : Payload α} {source : Option α} {c : α} :
    p.reconstruct source = some c ↔ p.Applies source ∧ c = p.target := by
  cases p with
  | full contents => simp [reconstruct, Applies, target, eq_comm]
  | delta made tgt =>
    by_cases h : source = some made <;> simp [reconstruct, Applies, target, h, eq_comm]

theorem reconstruct_of_applies [DecidableEq α] {p : Payload α} {source : Option α}
    (h : p.Applies source) : p.reconstruct source = some p.target :=
  reconstruct_eq_some.mpr ⟨h, rfl⟩

end Payload

/-- The disk that fwup writes and U-Boot boots from. `discard` is what trimmed
blocks read as afterwards, none when fwup runs without `--enable-trim`. -/
structure Media where
  env : Env
  gpt : List String
  label : Option String
  dirs : List String
  fat : String → Option File
  raw : Region → Bytes
  discard : Option UInt8

/-- The functions that a fwup task calls, with the resource that an
`on-resource` handler hands to its write and the file or region that the
handler declares as the source of deltas. `ubootEnvWrite` is the `raw_write`
of an environment image to the environment block, kept as its variables. -/
inductive Operation
  | info (text : String)
  | error (text : String)
  | ubootSetenv (name value : String)
  | ubootUnsetenv (name : String)
  | ubootEnvWrite (vars : List (String × String))
  | gptWrite (names : List String)
  | fatMkfs
  | fatSetlabel (label : String)
  | fatMkdir (dir : String)
  | fatWrite (path : String) (file : Payload File) (deltaSource : Option String)
  | fatRm (path : String)
  | rawWrite (r : Region) (file : Payload Bytes) (deltaSource : Option Region)
  | rawMemset (r : Region) (blocks : ℕ) (value : UInt8)
  | trim (r : Region)

inductive Failure
  | error (text : String)
  | delta
  | noTask
  deriving DecidableEq

def blockSize : ℕ := 512

namespace Media
variable (m : Media)

def setenv (name value : String) : Media :=
  { m with env := Function.update m.env name (some value) }

def unsetenv (name : String) : Media := { m with env := Function.update m.env name none }

def write (r : Region) (bytes : Bytes) : Media :=
  { m with raw := Function.update m.raw r (overlay bytes (m.raw r)) }

/-- What the first `k` bytes of a region become when they are trimmed. -/
def discarded (k : ℕ) (region : Bytes) : Bytes :=
  match m.discard with
  | none => region
  | some v => overlay (List.replicate (min k region.length) v) region

def fatPut (path : String) (file : Option File) : Media :=
  { m with fat := Function.update m.fat path file }

end Media

open Media in
def exec : Operation → Media → Except Failure Media
  | .info _, m => .ok m
  | .error text, _ => .error (.error text)
  | .ubootSetenv name value, m => .ok (m.setenv name value)
  | .ubootUnsetenv name, m => .ok (m.unsetenv name)
  -- All other variables are gone.
  | .ubootEnvWrite vars, m => .ok { m with env := fun v => vars.lookup v }
  | .gptWrite names, m => .ok { m with gpt := names }
  | .fatMkfs, m => .ok { m with label := none, dirs := [], fat := fun _ => none }
  | .fatSetlabel l, m => .ok { m with label := some l }
  | .fatMkdir dir, m => .ok { m with dirs := dir :: m.dirs }
  | .fatWrite path file source, m =>
    match file.reconstruct (source.bind m.fat) with
    | some f => .ok (m.fatPut path (some f))
    | none => .error .delta
  -- A missing file is no failure, unlike for fat_rm!.
  | .fatRm path, m => .ok (m.fatPut path none)
  | .rawWrite r file source, m =>
    match file.reconstruct (source.map m.raw) with
    | some bytes => .ok (m.write r bytes)
    | none => .error .delta
  | .rawMemset r blocks value, m =>
    .ok (m.write r (List.replicate (blocks * blockSize) value))
  | .trim r, m =>
    .ok { m with raw := Function.update m.raw r (m.discarded (m.raw r).length (m.raw r)) }

/-- Power lost after `k` bytes. Changes of the environment, of directories and of
the partition table take effect as a whole or not at all. -/
def torn : Operation → ℕ → Media → Media
  | _, 0, m => m
  | .fatWrite path file source, k + 1, m =>
    match file.reconstruct (source.bind m.fat) with
    | some f => m.fatPut path (some (f.take (k + 1)))
    | none => m
  | .rawWrite r file source, k + 1, m =>
    match file.reconstruct (source.map m.raw) with
    | some bytes => m.write r (bytes.take (k + 1))
    | none => m
  | .rawMemset r blocks value, k + 1, m =>
    m.write r ((List.replicate (blocks * blockSize) value).take (k + 1))
  | .trim r, k + 1, m =>
    { m with raw := Function.update m.raw r (m.discarded (k + 1) (m.raw r)) }
  | _, _ + 1, m => m

/-- fwup's operations as a machine that power loss may stop at any point. -/
def machine : Crash.Machine Media Operation Failure where
  exec := exec
  torn := torn

end NervesSystem
