import NervesSystem.Media

namespace NervesSystem
open Crash

/-- The system that fwup runs in: the device its `/` is mounted from, none while
nothing is mounted from the disk at hand. -/
structure Host where
  root : Option String

inductive Requirement
  | unmountedDestination
  | ubootVariable (name value : String)
  | pathOnDevice (path device : String)

def Requirement.holds (host : Host) (env : Env) : Requirement → Bool
  | unmountedDestination => host.root.isNone
  | ubootVariable name value => env name == some value
  | pathOnDevice path device => path == "/" && host.root == some device

structure Task where
  name : String
  requires : List Requirement := []
  onInit : List Operation := []
  onResource : List (String × List Operation) := []
  onFinish : List Operation := []

/-- A fwup configuration: its file resources in the order of the archive, which
is the order they are handled in, and its tasks in the order of the file. -/
structure Config where
  fileResources : List String
  tasks : List Task

/-- What a task does, in order. Resources without a handler are skipped. -/
def Task.operations (fileResources : List String) (t : Task) : List Operation :=
  t.onInit ++ fileResources.flatMap (fun r => (t.onResource.lookup r).getD []) ++ t.onFinish

def Task.accepts (host : Host) (env : Env) (t : Task) : Bool :=
  t.requires.all (·.holds host env)

/-- The first task whose name starts with `task` and whose requirements hold. -/
def Config.select (c : Config) (host : Host) (env : Env) (task : String) : Option Task :=
  c.tasks.find? fun t => task.toList.isPrefixOf t.name.toList && t.accepts host env

/-- Power is lost after this many operations and this many bytes of the next. -/
structure PowerLoss where
  operations : ℕ
  bytes : ℕ

/-- The disk after `fwup -t task`, which runs to its end unless power is lost. -/
def Config.run (c : Config) (host : Host) (task : String) (loss : Option PowerLoss)
    (m : Media) : Media :=
  match c.select host m.env task, loss with
  | none, _ => m
  | some t, none => (perform machine (t.operations c.fileResources) m).1
  | some t, some l => cut machine (t.operations c.fileResources) l.operations l.bytes m

/-- What a run to the end reports. -/
def Config.failure (c : Config) (host : Host) (task : String) (m : Media) : Option Failure :=
  match c.select host m.env task with
  | none => some .noTask
  | some t => (perform machine (t.operations c.fileResources) m).2

namespace Operation

/-- The operation may change the variable. -/
def Sets (n : String) : Operation → Prop
  | ubootSetenv name _ => name = n
  | ubootUnsetenv name => name = n
  | ubootEnvWrite _ => True
  | _ => False

/-- The operation may change or remove the file. -/
def Puts (path : String) : Operation → Prop
  | fatMkfs => True
  | fatWrite p _ _ => p = path
  | fatRm p => p = path
  | _ => False

/-- The operation may change the region. -/
def Writes (r : Region) : Operation → Prop
  | rawWrite r' _ _ => r' = r
  | rawMemset r' _ _ => r' = r
  | trim r' => r' = r
  | _ => False

/-- The operation writes the environment block. -/
def WritesEnv : Operation → Prop
  | ubootSetenv _ _ => True
  | ubootUnsetenv _ => True
  | ubootEnvWrite _ => True
  | _ => False

end Operation

theorem torn_zero (o : Operation) (m : Media) : torn o 0 m = m := by cases o <;> rfl

section Exec
variable (m : Media) (n v : String)

@[simp] theorem exec_info : machine.exec (.info n) m = .ok m := rfl

@[simp] theorem exec_setenv : machine.exec (.ubootSetenv n v) m = .ok (m.setenv n v) := rfl

@[simp] theorem exec_unsetenv : machine.exec (.ubootUnsetenv n) m = .ok (m.unsetenv n) := rfl

@[simp] theorem exec_fatRm : machine.exec (.fatRm n) m = .ok (m.fatPut n none) := rfl

@[simp] theorem exec_rawMemset (r : Region) (blocks : ℕ) (value : UInt8) :
    machine.exec (.rawMemset r blocks value) m =
      .ok (m.write r (List.replicate (blocks * blockSize) value)) := rfl

@[simp] theorem torn_info (k : ℕ) : machine.torn (.info n) k m = m := by cases k <;> rfl

@[simp] theorem torn_setenv (k : ℕ) : machine.torn (.ubootSetenv n v) k m = m := by
  cases k <;> rfl

@[simp] theorem torn_unsetenv (k : ℕ) : machine.torn (.ubootUnsetenv n) k m = m := by
  cases k <;> rfl

end Exec

theorem exec_fatWrite {path : String} {file : Payload File} {source : Option String}
    {m m' : Media} : machine.exec (.fatWrite path file source) m = .ok m' ↔
      file.Applies (source.bind m.fat) ∧ m' = m.fatPut path (some file.target) := by
  constructor
  · intro h
    simp only [machine, exec] at h
    split at h
    · next f hf =>
      obtain ⟨ha, rfl⟩ := Payload.reconstruct_eq_some.mp hf
      cases h
      exact ⟨ha, rfl⟩
    · cases h
  · rintro ⟨ha, rfl⟩
    simp only [machine, exec, Payload.reconstruct_of_applies ha]

theorem exec_rawWrite {r : Region} {file : Payload Bytes} {source : Option Region}
    {m m' : Media} : machine.exec (.rawWrite r file source) m = .ok m' ↔
      file.Applies (source.map m.raw) ∧ m' = m.write r file.target := by
  constructor
  · intro h
    simp only [machine, exec] at h
    split at h
    · next b hb =>
      obtain ⟨ha, rfl⟩ := Payload.reconstruct_eq_some.mp hb
      cases h
      exact ⟨ha, rfl⟩
    · cases h
  · rintro ⟨ha, rfl⟩
    simp only [machine, exec, Payload.reconstruct_of_applies ha]

/-- A task that only reports an error leaves the disk alone. -/
theorem cut_error (text : String) (n k : ℕ) (m : Media) :
    cut machine [.error text] n k m = m := by
  cases n with
  | zero => cases k <;> rfl
  | succ n => rfl

theorem cut_info (text : String) (n k : ℕ) (m : Media) :
    cut machine [.info text] n k m = m := by
  cases n with
  | zero => exact torn_info m text k
  | succ n => exact cut_nil (M := machine) n k m

theorem perform_error (text : String) (m : Media) :
    perform machine [.error text] m = (m, some (.error text)) := rfl

section Frame

/-- The environment is written whole or not at all. -/
theorem torn_keeps (o : Operation) (k : ℕ) (m : Media) :
    (machine.torn o k m).env = m.env ∧ (machine.torn o k m).discard = m.discard := by
  cases k with
  | zero => simp only [machine, torn_zero, and_self]
  | succ k =>
    constructor <;> cases o <;> simp only [machine, torn] <;> first | rfl | (split <;> rfl)

theorem frames_env {o : Operation} {n : String} (h : ¬ o.Sets n) :
    Frames machine (fun m => m.env n) o := by
  constructor
  · intro m k
    exact congrFun (torn_keeps o k m).1 n
  · intro m m' hm
    cases o with
    | error text => cases hm
    | ubootSetenv name value => cases hm; exact Function.update_of_ne (Ne.symm h) _ _
    | ubootUnsetenv name => cases hm; exact Function.update_of_ne (Ne.symm h) _ _
    -- It may change any variable.
    | ubootEnvWrite vars => exact absurd trivial h
    | fatWrite path file source => rw [(exec_fatWrite.mp hm).2]; rfl
    | rawWrite r file source => rw [(exec_rawWrite.mp hm).2]; rfl
    | _ => cases hm; rfl

theorem frames_fat {o : Operation} {path : String} (h : ¬ o.Puts path) :
    Frames machine (fun m => m.fat path) o := by
  constructor
  · intro m k
    cases k with
    | zero => simp only [machine, torn_zero]
    | succ k =>
      cases o with
      | fatWrite p file source =>
        simp only [machine, torn]
        split
        · exact Function.update_of_ne (Ne.symm h) _ _
        · rfl
      | rawWrite r file source => simp only [machine, torn]; split <;> rfl
      | _ => rfl
  · intro m m' hm
    cases o with
    | error text => cases hm
    | fatMkfs => exact absurd trivial h
    | fatWrite p file source =>
      rw [(exec_fatWrite.mp hm).2]
      exact Function.update_of_ne (Ne.symm h) _ _
    | fatRm p => cases hm; exact Function.update_of_ne (Ne.symm h) _ _
    | rawWrite r file source => rw [(exec_rawWrite.mp hm).2]; rfl
    | _ => cases hm; rfl

theorem frames_raw {o : Operation} {r : Region} (h : ¬ o.Writes r) :
    Frames machine (fun m => m.raw r) o := by
  constructor
  · intro m k
    cases k with
    | zero => simp only [machine, torn_zero]
    | succ k =>
      cases o with
      | fatWrite p file source => simp only [machine, torn]; split <;> rfl
      | rawWrite r' file source =>
        simp only [machine, torn]
        split
        · exact Function.update_of_ne (Ne.symm h) _ _
        · rfl
      | rawMemset r' blocks value => exact Function.update_of_ne (Ne.symm h) _ _
      | trim r' => exact Function.update_of_ne (Ne.symm h) _ _
      | _ => rfl
  · intro m m' hm
    cases o with
    | error text => cases hm
    | fatWrite p file source => rw [(exec_fatWrite.mp hm).2]; rfl
    | rawWrite r' file source =>
      rw [(exec_rawWrite.mp hm).2]
      exact Function.update_of_ne (Ne.symm h) _ _
    | rawMemset r' blocks value => cases hm; exact Function.update_of_ne (Ne.symm h) _ _
    | trim r' => cases hm; exact Function.update_of_ne (Ne.symm h) _ _
    | _ => cases hm; rfl

theorem frames_discard (o : Operation) : Frames machine (fun m => m.discard) o := by
  constructor
  · intro m k
    exact (torn_keeps o k m).2
  · intro m m' hm
    cases o with
    | error text => cases hm
    | fatWrite path file source => rw [(exec_fatWrite.mp hm).2]; rfl
    | rawWrite r file source => rw [(exec_rawWrite.mp hm).2]; rfl
    | _ => cases hm; rfl

end Frame

end NervesSystem
