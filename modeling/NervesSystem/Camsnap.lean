import NervesSystem.Media
import NervesSystem.Library.Files
import NervesSystem.Library.Trace
import Mathlib.Algebra.Group.Nat.Defs
import Mathlib.Data.Int.Notation

namespace NervesSystem.Camsnap

open Files Trace

/-- A buffer of the program. The size of an object of C fits `ssize_t`. -/
abbrev Buffer := { data : Bytes // data.length < 2 ^ 63 }

/-- The cast of a `size_t` to `ssize_t`. -/
def ssize (n : ℕ) : ℤ := Int.bmod n (2 ^ 64)

/-- A C function as the system calls it makes, each followed by what is done with its result. -/
inductive Sys
  | ret (x : ℤ)
  | openTrunc (name : String) (k : ℤ → Sys)
  | write (fd : ℤ) (data : Bytes) (k : ℤ → Sys)
  | close (fd : ℤ) (k : ℤ → Sys)
  | rename (old new : String) (k : ℤ → Sys)

/-- `snprintf` of path and `.tmp` into 128 characters, the last of them the final zero. -/
def tmpName (path : String) : String :=
  String.ofList ((path ++ ".tmp").toList.take 127)

def writeAtomic (path : String) (data : Buffer) : Sys :=
  .openTrunc (tmpName path) fun fd =>
    if fd < 0 then .ret (-1) else
    .write fd data.1 fun n =>
      if n ≠ ssize data.1.length then .close fd fun _ => .ret (-1) else
      .close fd fun _ => .rename (tmpName path) path .ret

/-- Paths that `write_atomic` is called on. None of them is the temporary name of one. -/
structure Paths where
  names : Set String
  apart : ∀ p ∈ names, tmpName p ∉ names

abbrev Paths.Path (P : Paths) := { p : String // p ∈ P.names }

def jpgPath : String := "/dev/shm/cam.jpg"

def statsPath : String := "/dev/shm/cam_stats.json"

theorem tmpName_length (path : String) : (tmpName path).length = min 127 (path.length + 4) := by
  simp [tmpName, String.length_toList]

/-- The cut name is the path itself when the path fills the buffer. -/
theorem tmpName_eq_iff (path : String) : tmpName path = path ↔ path.length = 127 := by
  constructor
  · intro h
    have := tmpName_length path
    rw [h] at this
    omega
  · intro h
    rw [tmpName, ← h, String.toList_append, ← String.length_toList, List.take_left,
      String.ofList_toList]

/-- The two files of camsnap. -/
def published : Paths where
  names := { p | p = jpgPath ∨ p = statsPath }
  apart := by
    have hjpg : jpgPath.length = 16 := rfl
    have hstats : statsPath.length = 23 := rfl
    rintro p hp (h | h) <;> have hl := tmpName_length p <;> rw [h] at hl <;>
      obtain rfl | rfl := hp <;> omega

/-- A path alone, if it does not fill the buffer of its temporary name. -/
def Paths.single (path : String) (h : path.length ≠ 127) : Paths where
  names := { p | p = path }
  apart := by
    rintro p rfl hp
    exact h ((tmpName_eq_iff p).mp hp)

/-- camsnap beside its readers. `prog` is the rest of the call being made, `fds` gives the inode
and the offset of each open descriptor and `moved` counts the bytes that the pending `write` has
moved. -/
structure State (ρ : Type*) where
  world : World String UInt8 ρ
  prog : Option Sys
  fds : ℤ → Option (ℕ × ℕ)
  moved : ℕ

/-- What the process can do next: `write_atomic` is called, its pending system call succeeds or
fails (`part`: a `write` moves some more bytes), the process is killed. -/
inductive Act (P : Paths)
  | call (path : P.Path) (data : Buffer)
  | opens (fd : ℕ)
  | part (n : ℕ)
  | succeed
  | fail
  | kill

/-- What happens next, in any order: the process acts, a reader opens a path or reads on. -/
inductive Event (P : Paths) (ρ : Type*)
  | act (a : Act P)
  | look (r : ρ) (path : P.Path)
  | read (r : ρ) (n : ℕ)

/-- No call of `write_atomic` is under way. -/
def idle : Option Sys → Bool
  | none | some (.ret _) => true
  | _ => false

variable {P : Paths} {ρ : Type*}

/-- The pending system call succeeds. A `write` returns what it has moved by then. -/
def State.succeed (s : State ρ) : State ρ :=
  match s.prog with
  | some (.write _ _ k) => { s with prog := some (k s.moved), moved := 0 }
  | some (.close fd k) =>
    { s with prog := some (k 0), fds := Function.update s.fds fd none }
  | some (.rename old new k) =>
    if s.world.fs.names old = none then s else
      { s with prog := some (k 0), world.fs := s.world.fs.rename old new }
  | _ => s

/-- The pending system call fails. A `close` that fails has closed. -/
def State.fail (s : State ρ) : State ρ :=
  match s.prog with
  | some (.openTrunc _ k) => { s with prog := some (k (-1)) }
  | some (.write _ _ k) => { s with prog := some (k (-1)), moved := 0 }
  | some (.close fd k) =>
    { s with prog := some (k (-1)), fds := Function.update s.fds fd none }
  | some (.rename _ _ k) => { s with prog := some (k (-1)) }
  | _ => s

/-- The pending `open` succeeds with a descriptor that is free. -/
def State.opens (s : State ρ) (fd : ℕ) : State ρ :=
  match s.prog, s.fds fd with
  | some (.openTrunc name k), none =>
    let (fs, i) := s.world.fs.truncate name
    { s with
      prog := some (k fd)
      fds := Function.update s.fds fd (some (i, 0))
      world.fs := fs }
  | _, _ => s

/-- The pending `write` moves the next bytes of its buffer, `n` of them at most. -/
def State.part (s : State ρ) (n : ℕ) : State ρ :=
  match s.prog with
  | some (.write fd data _) =>
    match s.fds fd with
    | some (i, off) =>
      let piece := (data.drop s.moved).take n
      { s with
        fds := Function.update s.fds fd (some (i, off + piece.length))
        moved := s.moved + piece.length
        world.fs := s.world.fs.write i off piece }
    | none => s
  | _ => s

/-- An act that does not fit the state changes nothing. -/
def State.act (s : State ρ) : Act P → State ρ
  | .call path data =>
    if idle s.prog then { s with prog := some (writeAtomic path data), moved := 0 } else s
  | .opens fd => s.opens fd
  | .part n => s.part n
  | .succeed => s.succeed
  | .fail => s.fail
  | .kill => { s with prog := none, fds := fun _ => none }

def step [DecidableEq ρ] (s : State ρ) : Event P ρ → State ρ
  | .act a => s.act a
  | .look r path => { s with world := s.world.look r path }
  | .read r n => { s with world := s.world.read r n }

/-- What a run has told so far: the call made last and, in order, the calls whose `rename` has
succeeded. -/
structure Told where
  current : Option (String × Bytes)
  renamed : List (String × Bytes)

/-- The pending system call is a `rename` that can succeed. -/
def State.renames (s : State ρ) : Bool :=
  match s.prog with
  | some (.rename old _ _) => (s.world.fs.names old).isSome
  | _ => false

def tell (s : State ρ) (t : Told) : Event P ρ → Told
  | .act (.call path data) =>
    if idle s.prog then { t with current := some (path, data.1) } else t
  | .act .succeed =>
    if s.renames then { t with renamed := t.renamed ++ t.current.toList } else t
  | _ => t

/-- The directory before camsnap ever ran: neither file is there and no file has two names. -/
structure Start (P : Paths) where
  fs : FileSystem String UInt8
  absent : ∀ p ∈ P.names, fs.names p = none
  single : ∀ a b i, fs.names a = some i → fs.names b = some i → a = b
  named : ∀ a i, fs.names a = some i → i < fs.next

def Start.state (start : Start P) : State ρ :=
  ⟨⟨start.fs, fun _ => none⟩, none, fun _ => none, 0⟩

def run [DecidableEq ρ] (start : Start P) (es : List (Event P ρ)) : State ρ :=
  es.foldl step start.state

def told [DecidableEq ρ] (start : Start P) (es : List (Event P ρ)) : Told :=
  ghost step tell start.state ⟨none, []⟩ es

theorem ssize_length (data : Buffer) : ssize data.1.length = data.1.length :=
  Int.bmod_eq_of_le (by omega) (by have := data.2; omega)

/-- Where the process stands in the call, and what the temporary file holds there. Only what is
still to be renamed matters: a call that has failed leaves any first part of its data behind. -/
inductive Stage (path : String) (data : Buffer) (s : State ρ) : Prop
  | opening (h : s.prog = some (writeAtomic path data)) (hm : s.moved = 0)
  | writing (fd : ℤ) (i : ℕ)
      (h : s.prog = some (.write fd data.1 fun n =>
        if n ≠ ssize data.1.length then .close fd fun _ => .ret (-1) else
        .close fd fun _ => .rename (tmpName path) path .ret))
      (hfd : s.fds fd = some (i, s.moved)) (hi : s.world.fs.names (tmpName path) = some i)
      (hd : s.world.fs.files i = data.1.take s.moved) (hm : s.moved ≤ data.1.length)
  | failing (fd : ℤ) (h : s.prog = some (.close fd fun _ => .ret (-1)))
  | closing (fd : ℤ) (h : s.prog = some (.close fd fun _ => .rename (tmpName path) path .ret))
      (hd : s.world.fs.read (tmpName path) = some data.1)
  | moving (h : s.prog = some (.rename (tmpName path) path .ret))
      (hd : s.world.fs.read (tmpName path) = some data.1)

/-- The call that was told last is the one being made. -/
def AtCall (P : Paths) (s : State ρ) (t : Told) : Prop :=
  idle s.prog = true ∨
    ∃ path ∈ P.names, ∃ data : Buffer, t.current = some (path, data.1) ∧ Stage path data s

/-- The public names show the last call renamed, and the call being made prepares its own data. -/
structure Sound (P : Paths) (s : State ρ) (t : Told) : Prop where
  clean : Clean P.names s.world
  shown : ∀ p ∈ P.names, s.world.fs.read p = latest t.renamed p
  stage : AtCall P s t

/-- All that an act does to the files is one edit, told if it publishes. -/
structure Moves (P : Paths) (s : State ρ) (t : Told) (s' : State ρ) (t' : Told) : Prop where
  readers : s'.world.readers = s.world.readers
  edit : ∃ o, Edit P.names s.world.fs o s'.world.fs ∧ t'.renamed = t.renamed ++ o.toList
  stage : AtCall P s' t'

variable {s s' : State ρ} {t t' : Told} {path : String} {data : Buffer} {x : ℤ}

theorem Stage.of_fs (h : Stage path data s) {w : World String UInt8 ρ} (hw : w.fs = s.world.fs) :
    Stage path data { s with world := w } := by
  cases h with
  | opening h hm => exact .opening h hm
  | writing fd i h hfd hi hd hm => exact .writing fd i h hfd (hw ▸ hi) (hw ▸ hd) hm
  | failing fd h => exact .failing fd h
  | closing fd h hd => exact .closing fd h (hw ▸ hd)
  | moving h hd => exact .moving h (hw ▸ hd)

/-- Readers do not disturb the process. -/
theorem Sound.of_fs (h : Sound P s t) {w : World String UInt8 ρ} (hw : w.fs = s.world.fs)
    (hc : Clean P.names w) : Sound P { s with world := w } t where
  clean := hc
  shown p hp := by rw [hw, h.shown p hp]
  stage := h.stage.imp_right fun ⟨path, hp, data, ht, hs⟩ => ⟨path, hp, data, ht, hs.of_fs hw⟩

theorem Moves.world (m : Moves P s t s' t') : s'.world = ⟨s'.world.fs, s.world.readers⟩ := by
  rw [← m.readers]

theorem Moves.sound (m : Moves P s t s' t') (h : Sound P s t) : Sound P s' t' := by
  obtain ⟨o, e, ht⟩ := m.edit
  refine ⟨?_, ?_, m.stage⟩
  · exact m.world ▸ e.clean h.clean
  · exact ht ▸ e.latest h.clean t.renamed h.shown

/-- An act that publishes nothing. -/
theorem Moves.quiet (hr : s'.world.readers = s.world.readers) (ht : t'.renamed = t.renamed)
    (e : Edit P.names s.world.fs none s'.world.fs) (hst : AtCall P s' t') : Moves P s t s' t' :=
  ⟨hr, ⟨none, e, by simp [ht]⟩, hst⟩

theorem Sound.still (h : Sound P s t) : Moves P s t s t :=
  .quiet rfl rfl .same h.stage

variable {old new name : String} {fd : ℤ} {buf : Bytes} {k : ℤ → Sys}

/-- A pending system call belongs to the call told last. -/
theorem Sound.pending (h : Sound P s t) (hs : idle s.prog = false) :
    ∃ path ∈ P.names, ∃ data : Buffer, t.current = some (path, data.1) ∧ Stage path data s :=
  h.stage.resolve_left (by simp [hs])

theorem Stage.openTrunc (h : Stage path data s) (hs : s.prog = some (.openTrunc name k)) :
    Sys.openTrunc name k = writeAtomic path data ∧ s.moved = 0 := by
  cases h with
  | opening h hm => exact ⟨Option.some.inj (hs.symm.trans h), hm⟩
  | writing _ _ h => cases hs.symm.trans h
  | failing _ h => cases hs.symm.trans h
  | closing _ h => cases hs.symm.trans h
  | moving h => cases hs.symm.trans h

theorem Stage.write (h : Stage path data s) (hs : s.prog = some (.write fd buf k)) :
    ∃ i, buf = data.1 ∧ s.fds fd = some (i, s.moved) ∧
      s.world.fs.names (tmpName path) = some i ∧ s.world.fs.files i = data.1.take s.moved ∧
      s.moved ≤ data.1.length ∧ k = fun n =>
        if n ≠ ssize data.1.length then .close fd fun _ => .ret (-1) else
        .close fd fun _ => .rename (tmpName path) path .ret := by
  cases h with
  | opening h => cases hs.symm.trans h
  | writing fd i h hfd hi hd hm =>
    cases hs.symm.trans h
    exact ⟨i, rfl, hfd, hi, hd, hm, rfl⟩
  | failing _ h => cases hs.symm.trans h
  | closing _ h => cases hs.symm.trans h
  | moving h => cases hs.symm.trans h

theorem Stage.close (h : Stage path data s) (hs : s.prog = some (.close fd k)) :
    (∀ n, k n = .ret (-1)) ∨ (∀ n, k n = .rename (tmpName path) path .ret) ∧
      s.world.fs.read (tmpName path) = some data.1 := by
  cases h with
  | opening h => cases hs.symm.trans h
  | writing _ _ h => cases hs.symm.trans h
  | failing _ h =>
    cases hs.symm.trans h
    exact .inl fun _ => rfl
  | closing _ h hd =>
    cases hs.symm.trans h
    exact .inr ⟨fun _ => rfl, hd⟩
  | moving h => cases hs.symm.trans h

theorem Stage.rename (h : Stage path data s) (hs : s.prog = some (.rename old new k)) :
    old = tmpName path ∧ new = path ∧ k = .ret ∧
      s.world.fs.read (tmpName path) = some data.1 := by
  cases h with
  | opening h => cases hs.symm.trans h
  | writing _ _ h => cases hs.symm.trans h
  | failing _ h => cases hs.symm.trans h
  | closing _ h => cases hs.symm.trans h
  | moving h hd =>
    cases hs.symm.trans h
    exact ⟨rfl, rfl, rfl, hd⟩

theorem Sound.opens (h : Sound P s t) (fd : ℕ) : Moves P s t (s.opens fd) t := by
  unfold State.opens
  split
  · rename_i name k hs hfree
    obtain ⟨path, hp, data, ht, hst⟩ := h.pending (by rw [hs]; rfl)
    obtain ⟨hk, hm⟩ := hst.openTrunc hs
    cases hk
    have e : Edit P.names s.world.fs none (s.world.fs.truncate (tmpName path)).1 :=
      FileSystem.truncate_edit (P.apart path hp)
    have hfd : ¬ (fd : ℤ) < 0 := by omega
    refine .quiet rfl rfl e (.inr ⟨path, hp, data, ht, .writing fd
      (s.world.fs.truncate (tmpName path)).2 ?_ ?_ ?_ ?_ ?_⟩)
    · simp [hfd]
    · simp [hm]
    · exact FileSystem.truncate_names
    · simp [FileSystem.truncate_files, hm]
    · simp [hm]
  · exact h.still

theorem Sound.part (h : Sound P s t) (n : ℕ) : Moves P s t (s.part n) t := by
  unfold State.part
  split
  · rename_i fd buf k hs
    obtain ⟨path, hp, data, ht, hst⟩ := h.pending (by rw [hs]; rfl)
    obtain ⟨i, rfl, hfd, hi, hd, hm, rfl⟩ := hst.write hs
    simp only [hfd]
    set piece := (data.1.drop s.moved).take n with hpiece
    have hlen : s.moved + piece.length ≤ data.1.length := by
      simp only [hpiece, List.length_take, List.length_drop]
      omega
    refine .quiet rfl rfl (FileSystem.write_edit (P.apart path hp) hi _ _)
      (.inr ⟨path, hp, data, ht, .writing fd i hs (by simp) hi ?_ hlen⟩)
    have hoff : (s.world.fs.files i).length = s.moved := by simp [hd, hm]
    -- the piece is what comes next in the buffer
    rw [FileSystem.write_files hoff, hd, List.take_add, hpiece]
    simp
  · exact h.still

/-- A `write` that returns goes on to the rename only if all of the buffer is in the file. -/
theorem Sound.wrote (h : Sound P s t) (hs : s.prog = some (.write fd buf k))
    (hx : x = -1 ∨ x = s.moved) : Moves P s t { s with prog := some (k x), moved := 0 } t := by
  obtain ⟨path, hp, data, ht, hst⟩ := h.pending (by rw [hs]; rfl)
  obtain ⟨i, rfl, hfd, hi, hd, hm, rfl⟩ := hst.write hs
  rw [ssize_length]
  by_cases hlen : x = data.1.length
  -- A length that is not negative is what was moved, so the file is complete.
  · have hmoved : s.moved = data.1.length := by omega
    refine .quiet rfl rfl .same (.inr ⟨path, hp, data, ht, .closing fd (by simp [hlen]) ?_⟩)
    simp [FileSystem.read, hi, hd, hmoved]
  · exact .quiet rfl rfl .same (.inr ⟨path, hp, data, ht, .failing fd (by simp [hlen])⟩)

theorem Sound.closed (h : Sound P s t) (hs : s.prog = some (.close fd k)) :
    Moves P s t { s with prog := some (k x), fds := Function.update s.fds fd none } t := by
  obtain ⟨path, hp, data, ht, hst⟩ := h.pending (by rw [hs]; rfl)
  obtain hk | ⟨hk, hd⟩ := hst.close hs
  · exact .quiet rfl rfl .same (.inl (by rw [hk]; rfl))
  · exact .quiet rfl rfl .same (.inr ⟨path, hp, data, ht, .moving (by rw [hk]) hd⟩)

theorem Sound.fail (h : Sound P s t) : Moves P s t s.fail t := by
  unfold State.fail
  split
  · rename_i name k hs
    obtain ⟨path, hp, data, ht, hst⟩ := h.pending (by rw [hs]; rfl)
    obtain ⟨hk, -⟩ := hst.openTrunc hs
    cases hk
    exact .quiet rfl rfl .same (.inl rfl)
  · rename_i hs
    exact h.wrote hs (.inl rfl)
  · rename_i hs
    exact h.closed hs
  · rename_i hs
    obtain ⟨path, hp, data, ht, hst⟩ := h.pending (by rw [hs]; rfl)
    obtain ⟨-, -, rfl, -⟩ := hst.rename hs
    exact .quiet rfl rfl .same (.inl rfl)
  · exact h.still

/-- The rename that succeeds shows the call's whole data under its path. -/
theorem Sound.succeed (h : Sound P s t) :
    Moves P s t s.succeed (tell s t (.act .succeed : Event P ρ)) := by
  unfold State.succeed
  split
  · rename_i hs
    simpa [tell, State.renames, hs] using h.wrote hs (.inr rfl)
  · rename_i hs
    simpa [tell, State.renames, hs] using h.closed hs
  · rename_i old new k hs
    obtain ⟨path, hp, data, ht, hst⟩ := h.pending (by rw [hs]; rfl)
    obtain ⟨rfl, rfl, rfl, hd⟩ := hst.rename hs
    obtain ⟨i, hi, hd⟩ := Option.map_eq_some_iff.mp hd
    have e : Edit P.names s.world.fs (some (new, data.1)) (s.world.fs.rename (tmpName new) new) :=
      hd ▸ .publish (P.apart new hp) hp hi
    have hren : s.renames = true := by simp [State.renames, hs, hi]
    have hnone : s.world.fs.names (tmpName new) ≠ none := by simp [hi]
    have hmoves : Moves P s t
        { s with prog := some (.ret 0), world.fs := s.world.fs.rename (tmpName new) new }
        { t with renamed := t.renamed ++ (some (new, data.1)).toList } :=
      ⟨rfl, ⟨_, e, rfl⟩, .inl rfl⟩
    simpa only [tell, hren, hnone, if_true, if_false, ht] using hmoves
  · rename_i hne
    have hren : s.renames = false := by
      unfold State.renames
      split
      · exact absurd ‹_› (hne _ _ _)
      · rfl
    simpa [tell, hren] using h.still

theorem Start.sound (start : Start P) : Sound P (start.state : State ρ) ⟨none, []⟩ where
  clean := {
    single := start.single
    named := start.named
    held := by simp [state]
    shared := by simp [state] }
  shown p hp := by simp [state, FileSystem.read, start.absent p hp]
  stage := .inl rfl

theorem Sound.act (h : Sound P s t) (a : Act P) :
    Moves P s t (s.act a) (tell s t (.act a : Event P ρ)) := by
  cases a with
  | call path data =>
    by_cases hi : idle s.prog = true
    · simp only [State.act, tell, hi, if_true]
      exact .quiet rfl rfl .same (.inr ⟨path, path.2, data, rfl, .opening rfl rfl⟩)
    · simpa [State.act, tell, hi] using h.still
  | opens fd => exact h.opens fd
  | part n => exact h.part n
  | succeed => exact h.succeed
  | fail => exact h.fail
  | kill => exact .quiet rfl rfl .same (.inl rfl)

def Event.Opens (r : ρ) : Event P ρ → Prop
  | .look r' _ => r' = r
  | _ => False

def Event.IsCall : Event P ρ → Prop
  | .act (.call _ _) => True
  | _ => False

theorem idle_iff {prog : Option Sys} :
    idle prog = true ↔ prog = none ∨ ∃ x, prog = some (.ret x) := by
  unfold idle
  split <;> simp_all

/-- Between two calls the process makes no system call. -/
theorem State.act_idle {a : Act P} (hi : idle s.prog = true)
    (ha : ¬ (Event.act a : Event P ρ).IsCall) :
    (s.act a).prog = s.prog ∨ (s.act a).prog = none := by
  obtain hs | ⟨x, hs⟩ := idle_iff.mp hi <;> cases a <;>
    simp_all [Event.IsCall, State.act, opens, part, succeed, fail]

theorem tell_renamed {e : Event P ρ} (hr : e = .act .succeed → s.renames = false) :
    (tell s t e).renamed = t.renamed := by
  unfold tell
  split
  · split <;> rfl
  · simp [hr]
  · rfl

theorem State.renames_iff : s.renames = true ↔
    ∃ old new k, s.prog = some (.rename old new k) ∧ s.world.fs.names old ≠ none := by
  unfold renames
  split <;> simp_all [Option.isSome_iff_ne_none]

theorem tell_keeps (s : State ρ) (t : Told) (e : Event P ρ) :
    t.renamed <+: (tell s t e).renamed := by
  unfold tell
  split
  · split <;> exact List.prefix_rfl
  · split
    · exact List.prefix_append _ _
    · exact List.prefix_rfl
  · exact List.prefix_rfl

variable [DecidableEq ρ]

theorem Sound.step (h : Sound P s t) (e : Event P ρ) : Sound P (step s e) (tell s t e) := by
  cases e with
  | act a => exact (h.act a).sound h
  | look r path => exact h.of_fs rfl (h.clean.look path.2 r)
  | read r n => exact h.of_fs World.read_fs (h.clean.read r n)

theorem run_sound (start : Start P) (es : List (Event P ρ)) :
    Sound P (run start es) (told start es) :=
  Guarded.ghost_invariant (fun _ _ e _ h _ => h.step e)
    (Guarded.of_forall fun _ _ _ => trivial) start.sound

theorem run_append (start : Start P) (es fs : List (Event P ρ)) :
    run start (es ++ fs) = fs.foldl step (run start es) :=
  List.foldl_append

theorem told_append (start : Start P) (es fs : List (Event P ρ)) :
    told start (es ++ fs) = ghost step tell (run start es) (told start es) fs :=
  ghost_append

/-- What a reader has of the data it opened, if there was any. -/
def Gets (s : State ρ) (r : ρ) : Option Bytes → Prop
  | none => s.world.readers r = none
  | some d => Reading s.world r d

variable {r : ρ} {shown : Option Bytes} {e : Event P ρ}

theorem Sound.look (h : Sound P s t) (r : ρ) (p : P.Path) :
    Gets (Camsnap.step s (.look r p)) r (latest t.renamed p) := by
  rw [← h.shown p p.2]
  cases hp : s.world.fs.read p with
  | none =>
    have hnone : s.world.fs.names p = none := Option.map_eq_none_iff.mp hp
    exact World.look_readers_self.trans (by rw [hnone]; rfl)
  | some d => exact Reading.look hp

/-- Until it opens again, a reader keeps to what it opened. -/
theorem Sound.gets (h : Sound P s t) (hg : Gets s r shown) (he : ¬ e.Opens r) :
    Gets (Camsnap.step s e) r shown := by
  cases e with
  | act a =>
    have m : Moves P s t (s.act a) (tell s t (.act a : Event P ρ)) := h.act a
    obtain ⟨o, e, -⟩ := m.edit
    cases shown with
    | none => exact (congrFun m.readers r).trans hg
    | some d =>
      change Reading (s.act a).world r d
      rw [m.world]
      exact Reading.edit h.clean e hg
  | look r' p =>
    have hr : r ≠ r' := fun h => he h.symm
    cases shown with
    | none => exact (World.look_readers_ne hr).trans hg
    | some d => exact Reading.look_ne hg hr
  | read r' n =>
    cases shown with
    | none => exact World.read_none hg
    | some d => exact Reading.read hg r' n

/-- What sound states keep from step to step they keep along a run. -/
theorem Sound.foldl (h : Sound P s t) {K : State ρ → Told → Prop} {fs : List (Event P ρ)}
    (hstep : ∀ s t, ∀ e ∈ fs, Sound P s t → K s t → K (Camsnap.step s e) (tell s t e))
    (hk : K s t) : K (fs.foldl Camsnap.step s) (ghost Camsnap.step tell s t fs) :=
  (Guarded.ghost_invariant (J := fun s t => Sound P s t ∧ K s t)
    (fun s t e he hj _ => ⟨hj.1.step e, hstep s t e he hj.1 hj.2⟩)
    (Guarded.of_forall fun _ _ _ => trivial) ⟨h, hk⟩).2

theorem run_gets (start : Start P) (es fs : List (Event P ρ)) (p : P.Path)
    (hfs : ∀ e ∈ fs, ¬ e.Opens r) :
    Gets (run start (es ++ .look r p :: fs)) r (latest (told start es).renamed p) := by
  have h := run_sound start es
  rw [run_append, List.foldl_cons]
  apply (h.step (.look r p)).foldl (K := fun s _ => Gets s r (latest (told start es).renamed p))
  · intro s t e he hs hg
    exact hs.gets hg (hfs e he)
  · exact h.look r p

theorem run_finish (start : Start P) (es fs : List (Event P ρ)) (p : P.Path) {d : Bytes} {n : ℕ}
    (hfs : ∀ e ∈ fs, ¬ e.Opens r) (hd : latest (told start es).renamed p = some d)
    (hn : d.length ≤ n) : ∃ R,
      (run start (es ++ .look r p :: fs ++ [.read r n, .read r 1])).world.readers r = some R ∧
        R.got = d ∧ R.done = true := by
  have h := run_gets start es fs p hfs
  rw [hd] at h
  rw [run_append]
  exact Reading.finish h hn

/-- The call made when `renamed` was told has not renamed yet, or it is over and has not failed. -/
def NotFailed (renamed : List (String × Bytes)) (s : State ρ) (t : Told) : Prop :=
  t.renamed = renamed ∨ s.prog = none ∨ s.prog = some (.ret 0)

theorem Sound.notFailed (h : Sound P s t) {renamed : List (String × Bytes)}
    (hn : NotFailed renamed s t) (he : ¬ e.IsCall) :
    NotFailed renamed (Camsnap.step s e) (tell s t e) := by
  obtain hn | hn := hn
  · by_cases hr : e = .act .succeed → s.renames = false
    · exact .inl ((tell_renamed hr).trans hn)
    · -- the rename succeeds and the call returns what it returned
      obtain ⟨rfl, hren⟩ : e = .act .succeed ∧ s.renames = true := by simpa using hr
      obtain ⟨old, new, k, hs, hold⟩ := State.renames_iff.mp hren
      obtain ⟨path, hp, data, ht, hst⟩ := h.pending (by rw [hs]; rfl)
      obtain ⟨-, -, rfl, -⟩ := hst.rename hs
      right; right
      simp [Camsnap.step, State.act, State.succeed, hs, hold]
  · have hi : idle s.prog = true := by
      obtain hs | hs := hn <;> rw [hs] <;> rfl
    right
    cases e with
    | act a =>
      obtain hs | hs := State.act_idle hi he
      · exact hn.imp hs.trans hs.trans
      · exact .inl hs
    | look r p => exact hn
    | read r n => exact hn

theorem told_keeps (start : Start P) (es fs : List (Event P ρ)) :
    (told start es).renamed <+: (told start (es ++ fs)).renamed := by
  rw [told_append]
  apply (run_sound start es).foldl (K := fun _ t => (told start es).renamed <+: t.renamed)
  · intro s t e _ _ ht
    exact ht.trans (tell_keeps s t e)
  · exact List.prefix_rfl

/-- Nothing that is read changes before a rename succeeds. -/
theorem run_read (start : Start P) (es fs : List (Event P ρ)) {gs : List (Event P ρ)}
    (hr : (told start (es ++ fs)).renamed = (told start es).renamed) (hg : gs <+: fs)
    (p : P.Path) : (run start (es ++ gs)).world.fs.read p = (run start es).world.fs.read p := by
  obtain ⟨rest, rfl⟩ := hg
  have hpre := told_keeps start (es ++ gs) rest
  rw [List.append_assoc, hr] at hpre
  have heq : (told start (es ++ gs)).renamed = (told start es).renamed :=
    hpre.eq_of_length_le (told_keeps start es gs).length_le
  rw [(run_sound start _).shown p p.2, (run_sound start es).shown p p.2, heq]

/-- A call that returns anything but zero has renamed nothing. -/
theorem told_failed (start : Start P) (es fs : List (Event P ρ)) (p : P.Path) (data : Buffer)
    (hfs : ∀ e ∈ fs, ¬ e.IsCall)
    (hx : (run start (es ++ .act (.call p data) :: fs)).prog = some (.ret x)) (h0 : x ≠ 0) :
    (told start (es ++ .act (.call p data) :: fs)).renamed = (told start es).renamed := by
  have hn : NotFailed (told start es).renamed (run start (es ++ .act (.call p data) :: fs))
      (told start (es ++ .act (.call p data) :: fs)) := by
    have h := run_sound start es
    rw [run_append, told_append]
    apply (h.step (.act (.call p data))).foldl (K := NotFailed (told start es).renamed)
    · intro s t e he hs hn
      exact hs.notFailed hn (hfs e he)
    · exact .inl (tell_renamed (by simp))
  obtain hr | hnone | hret := hn
  · exact hr
  · simp [hx] at hnone
  · simp [hx, h0] at hret

theorem mem_latest {log : List (String × Bytes)} {p : String} {d : Bytes}
    (h : latest log p = some d) : (p, d) ∈ log := by
  obtain ⟨⟨q, d'⟩, hc, rfl⟩ := Option.map_eq_some_iff.mp h
  have hmem := List.mem_of_getLast? hc
  obtain ⟨hlog, hq⟩ : (q, d') ∈ log ∧ q = p := by simpa using hmem
  exact hq ▸ hlog

/-- What is told as renamed is the whole data of a call. -/
theorem told_call (start : Start P) (es : List (Event P ρ)) {c : String × Bytes}
    (hc : c ∈ (told start es).renamed) :
    ∃ p : P.Path, ∃ data : Buffer, .act (.call p data) ∈ es ∧ c = (p.1, data.1) := by
  have key : ∀ c ∈ (told start es).current.toList ++ (told start es).renamed,
      ∃ p : P.Path, ∃ data : Buffer, .act (.call p data) ∈ es ∧ c = (p.1, data.1) := by
    apply start.sound.foldl (K := fun _ t => ∀ c ∈ t.current.toList ++ t.renamed,
      ∃ p : P.Path, ∃ data : Buffer, .act (.call p data) ∈ es ∧ c = (p.1, data.1))
    · intro s t e he _ hk c hc
      unfold tell at hc
      split at hc
      · rename_i p data
        split at hc
        · obtain rfl | hc : c = (p.1, data.1) ∨ c ∈ t.renamed := by simpa using hc
          · exact ⟨p, data, he, rfl⟩
          · exact hk c (List.mem_append_right _ hc)
        · exact hk c hc
      · split at hc
        · exact hk c (by grind)
        · exact hk c hc
      · exact hk c hc
    · simp
  exact key c (by simp [hc])

/-- What readers of the published files are promised: the data of the last call renamed before they
opened, all of it when they read on, and no change by what is not a rename or by a call that
fails. -/
structure NeverPartial (ρ : Type*) [DecidableEq ρ] (start : Start P) : Prop where
  reads : ∀ (es fs : List (Event P ρ)) (r : ρ) (p : P.Path), (∀ e ∈ fs, ¬ e.Opens r) →
    Gets (run start (es ++ .look r p :: fs)) r (latest (told start es).renamed p)
  finishes : ∀ (es fs : List (Event P ρ)) (r : ρ) (p : P.Path) (d : Bytes) (n : ℕ),
    (∀ e ∈ fs, ¬ e.Opens r) → latest (told start es).renamed p = some d → d.length ≤ n → ∃ R,
      (run start (es ++ .look r p :: fs ++ [.read r n, .read r 1])).world.readers r = some R ∧
        R.got = d ∧ R.done = true
  called : ∀ (es : List (Event P ρ)) (p : P.Path) (d : Bytes),
    latest (told start es).renamed p = some d →
      ∃ data : Buffer, .act (.call p data) ∈ es ∧ data.1 = d
  unrenamed : ∀ es fs gs : List (Event P ρ),
    (told start (es ++ fs)).renamed = (told start es).renamed → gs <+: fs → ∀ q : P.Path,
      (run start (es ++ gs)).world.fs.read q = (run start es).world.fs.read q
  failed : ∀ (es fs gs : List (Event P ρ)) (p : P.Path) (data : Buffer) (x : ℤ),
    (∀ e ∈ fs, ¬ e.IsCall) →
    (run start (es ++ .act (.call p data) :: fs)).prog = some (.ret x) → x ≠ 0 →
    gs <+: .act (.call p data) :: fs → ∀ q : P.Path,
      (run start (es ++ gs)).world.fs.read q = (run start es).world.fs.read q

theorem writeAtomic_readers (start : Start P) : NeverPartial ρ start where
  reads es fs r p hfs := run_gets start es fs p hfs
  finishes es fs r p d n hfs hd hn := run_finish start es fs p hfs hd hn
  called es p d hd := by
    obtain ⟨q, data, hmem, hq⟩ := told_call start es (mem_latest hd)
    obtain ⟨hpq, rfl⟩ := Prod.mk.inj hq
    obtain rfl := Subtype.ext hpq
    exact ⟨data, hmem, rfl⟩
  unrenamed es fs gs hr hg q := run_read start es fs hr hg q
  failed es fs gs p data x hfs hx h0 hg q :=
    run_read start es _ (told_failed start es fs p data hfs hx h0) hg q

/-- `/dev/shm` as the system comes up. -/
def emptyShm : Start published where
  fs := ⟨fun _ => none, fun _ => [], 0⟩
  absent _ _ := rfl
  single := by simp
  named := by simp

def jpg : published.Path := ⟨jpgPath, .inl rfl⟩

/-- A whole call that publishes three bytes, and one that fails with half of its two written. -/
def threeBytes : List (Event published Unit) :=
  [.act (.call jpg ⟨[1, 2, 3], by decide⟩), .act (.opens 3), .act (.part 2), .act (.part 1),
    .act .succeed, .act .succeed, .act .succeed]

def halfWritten : List (Event published Unit) :=
  [.act (.opens 3), .act (.part 1), .act .fail, .act .succeed]

theorem writeAtomic_readers_halfWritten :
    (∃ R, (run emptyShm (threeBytes ++ .look () jpg :: .act (.call jpg ⟨[7, 8], by decide⟩) ::
        .read () 2 :: halfWritten ++ [.read () 5, .read () 1])).world.readers () = some R ∧
      R.got = [1, 2, 3] ∧ R.done = true) ∧
    (run emptyShm (threeBytes ++ .act (.call jpg ⟨[7, 8], by decide⟩) :: halfWritten)).world.fs.read
      jpg = (run emptyShm threeBytes).world.fs.read jpg := by
  have h : NeverPartial Unit emptyShm := writeAtomic_readers emptyShm
  constructor
  · have hlatest : latest (told emptyShm threeBytes).renamed jpgPath = some [1, 2, 3] := by decide
    exact h.finishes threeBytes (.act (.call jpg _) :: .read () 2 :: halfWritten) () jpg _ 5
      (by simp [halfWritten, Event.Opens]) hlatest (by decide)
  · have hret : (run emptyShm (threeBytes ++ .act (.call jpg ⟨[7, 8], by decide⟩) ::
        halfWritten)).prog = some (.ret (-1)) := by
      rw [run_append]
      rfl
    exact h.failed threeBytes halfWritten _ jpg _ (-1) (by simp [halfWritten, Event.IsCall]) hret
      (by decide) List.prefix_rfl jpg

end NervesSystem.Camsnap
