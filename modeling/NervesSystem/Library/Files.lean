import Mathlib.Data.List.TakeDrop
import Mathlib.Data.Set.Defs
import Mathlib.Logic.Function.Basic

namespace NervesSystem.Files

variable {ν β ρ : Type*}

/-- Names point to inodes and inodes hold bytes; `next` is an inode not given out yet. -/
structure FileSystem (ν β : Type*) where
  names : ν → Option ℕ
  files : ℕ → List β
  next : ℕ

namespace FileSystem

/-- What a name shows. -/
def read (fs : FileSystem ν β) (n : ν) : Option (List β) :=
  (fs.names n).map fs.files

/-- New bytes for an inode. -/
def fill (fs : FileSystem ν β) (i : ℕ) (d : List β) : FileSystem ν β :=
  { fs with files := Function.update fs.files i d }

/-- Bytes written at an offset. A hole before them reads as `default`. -/
def write [Inhabited β] (fs : FileSystem ν β) (i off : ℕ) (d : List β) : FileSystem ν β :=
  fs.fill i ((fs.files i).takeD off default ++ d ++ (fs.files i).drop (off + d.length))

/-- A write at the end of a file appends. -/
theorem write_files [Inhabited β] {fs : FileSystem ν β} {i off : ℕ} {d : List β}
    (h : (fs.files i).length = off) : (fs.write i off d).files i = fs.files i ++ d := by
  subst h
  have htake : (fs.files i).takeD (fs.files i).length default = fs.files i := by
    rw [List.takeD_eq_take _ (Nat.le_refl _), List.take_length]
  simp [write, fill, htake]

end FileSystem

/-- An open file being read from its start: its inode, the bytes got so far and whether the end
was met. -/
structure Reader (β : Type*) where
  inode : ℕ
  got : List β
  done : Bool

structure World (ν β ρ : Type*) where
  fs : FileSystem ν β
  readers : ρ → Option (Reader β)

namespace World

variable [DecidableEq ρ] (w : World ν β ρ)

/-- A reader opens a name, if it exists. -/
def look (r : ρ) (n : ν) : World ν β ρ :=
  { w with readers := Function.update w.readers r ((w.fs.names n).map fun i => ⟨i, [], false⟩) }

/-- A reader asks for the next `k` bytes of the inode it holds. -/
def read (r : ρ) (k : ℕ) : World ν β ρ :=
  match w.readers r with
  | none => w
  | some R =>
    let piece := ((w.fs.files R.inode).drop R.got.length).take k
    let R' := ⟨R.inode, R.got ++ piece, R.done || (0 < k && piece.isEmpty)⟩
    { w with readers := Function.update w.readers r (some R') }

end World

/-- No file has two names, and a reader's file has no name outside `P`. -/
structure Clean (P : Set ν) (w : World ν β ρ) : Prop where
  single : ∀ a b i, w.fs.names a = some i → w.fs.names b = some i → a = b
  named : ∀ a i, w.fs.names a = some i → i < w.fs.next
  held : ∀ r R, w.readers r = some R → R.inode < w.fs.next
  shared : ∀ r R a, w.readers r = some R → w.fs.names a = some R.inode → a ∈ P

/-- The reader holds the file with contents `d`, has got a first part of it, and all of it when
it met the end. -/
def Reading (w : World ν β ρ) (r : ρ) (d : List β) : Prop :=
  ∃ R, w.readers r = some R ∧ w.fs.files R.inode = d ∧ R.got <+: d ∧ (R.done = true → R.got = d)

section Readers

variable [DecidableEq ρ] {P : Set ν} {w : World ν β ρ} {n : ν} {k : ℕ} {r r' : ρ} {R : Reader β}
  {d : List β}

@[simp] theorem World.read_fs : (w.read r k).fs = w.fs := by
  unfold read
  split <;> rfl

theorem World.look_readers_ne (h : r' ≠ r) : (w.look r n).readers r' = w.readers r' := by
  simp [look, h]

theorem World.look_readers_self :
    (w.look r n).readers r = (w.fs.names n).map fun i => ⟨i, [], false⟩ := by
  simp [look]

theorem World.read_readers_ne (h : r' ≠ r) : (w.read r k).readers r' = w.readers r' := by
  unfold read
  split <;> simp [h]

theorem World.read_readers_self (h : w.readers r = some R) :
    let piece := ((w.fs.files R.inode).drop R.got.length).take k
    (w.read r k).readers r =
      some ⟨R.inode, R.got ++ piece, R.done || (0 < k && piece.isEmpty)⟩ := by
  simp [read, h]

/-- A read keeps the reader's inode. -/
theorem World.read_readers (h : (w.read r k).readers r' = some R) :
    ∃ R', w.readers r' = some R' ∧ R'.inode = R.inode := by
  unfold read at h
  split at h
  · exact ⟨R, h, rfl⟩
  · rename_i S hS
    by_cases hr : r' = r
    · subst hr
      simp only [Function.update_self, Option.some.injEq] at h
      exact ⟨S, hS, by rw [← h]⟩
    · exact ⟨R, by simpa [hr] using h, rfl⟩

theorem World.read_none (h : w.readers r' = none) : (w.read r k).readers r' = none := by
  apply Option.eq_none_iff_forall_ne_some.mpr
  intro R hR
  obtain ⟨R', hR', -⟩ := World.read_readers hR
  simp [h] at hR'

theorem Clean.look (h : Clean P w) (hn : n ∈ P) (r : ρ) : Clean P (w.look r n) := by
  have hold : ∀ r' R, (w.look r n).readers r' = some R →
      w.fs.names n = some R.inode ∨ w.readers r' = some R := by
    intro r' R hr
    by_cases hrr : r' = r
    · subst hrr
      rw [World.look_readers_self] at hr
      obtain ⟨i, hi, rfl⟩ := Option.map_eq_some_iff.mp hr
      exact .inl hi
    · exact .inr (World.look_readers_ne hrr ▸ hr)
  refine ⟨h.single, h.named, ?_, ?_⟩
  · intro r' R hr
    exact (hold r' R hr).elim (h.named n _) (h.held r' R)
  · intro r' R a hr ha
    obtain hi | hr := hold r' R hr
    · exact h.single a n _ ha hi ▸ hn
    · exact h.shared r' R a hr ha

theorem Clean.read (h : Clean P w) (r : ρ) (k : ℕ) : Clean P (w.read r k) := by
  refine ⟨?_, ?_, ?_, ?_⟩
  · simpa using h.single
  · simpa using h.named
  · intro r' R hr
    obtain ⟨R', hr', hi⟩ := World.read_readers hr
    simpa [hi] using h.held r' R' hr'
  · intro r' R a hr ha
    obtain ⟨R', hr', hi⟩ := World.read_readers hr
    exact h.shared r' R' a hr' (by simpa [hi] using ha)

/-- A reader that opens a name has nothing of the file shown there yet. -/
theorem Reading.look (h : w.fs.read n = some d) : Reading (w.look r n) r d := by
  obtain ⟨i, hi, rfl⟩ := Option.map_eq_some_iff.mp h
  exact ⟨⟨i, [], false⟩, by simp [World.look_readers_self, hi], rfl, by simp, by simp⟩

theorem Reading.look_ne (h : Reading w r d) (hr : r ≠ r') : Reading (w.look r' n) r d := by
  obtain ⟨R, hR, hd⟩ := h
  exact ⟨R, (World.look_readers_ne hr).trans hR, hd⟩

/-- One more piece of an unchanged file extends what was got of it. -/
theorem Reading.read (h : Reading w r d) (r' : ρ) (k : ℕ) : Reading (w.read r' k) r d := by
  obtain ⟨R, hR, rfl, hpre, hdone⟩ := h
  by_cases hr : r = r'
  · subst hr
    set piece := ((w.fs.files R.inode).drop R.got.length).take k with hpiece
    have hget : R.got ++ (w.fs.files R.inode).drop R.got.length = w.fs.files R.inode :=
      List.prefix_iff_eq_append.mp hpre
    refine ⟨⟨R.inode, R.got ++ piece, R.done || (0 < k && piece.isEmpty)⟩,
      World.read_readers_self hR, by simp, ?_, ?_⟩
    · rw [← hget]
      exact (List.prefix_append_right_inj _).mpr (List.take_prefix _ _)
    · intro hd
      obtain hd | hd := Bool.or_eq_true_iff.mp hd
      · simp [hpiece, hdone hd]
      · obtain ⟨hk, hp⟩ : 0 < k ∧ piece = [] := by simpa using hd
        have hnil : (w.fs.files R.inode).drop R.got.length = [] :=
          (List.take_eq_nil_iff.mp hp).resolve_left (by omega)
        rw [hp, ← hnil, hget]
  · exact ⟨R, (World.read_readers_ne hr).trans hR, by simp, hpre, hdone⟩

/-- A reader that asks for enough, and once more, has all of it and knows. -/
theorem Reading.finish (h : Reading w r d) (hk : d.length ≤ k) :
    ∃ R, ((w.read r k).read r 1).readers r = some R ∧ R.got = d ∧ R.done = true := by
  obtain ⟨R, hR, rfl, hpre, -⟩ := h
  have hget : R.got ++ ((w.fs.files R.inode).drop R.got.length).take k = w.fs.files R.inode := by
    rw [List.take_of_length_le (by rw [List.length_drop]; omega)]
    exact List.prefix_iff_eq_append.mp hpre
  have hnext := World.read_readers_self (k := 1) (World.read_readers_self (k := k) hR)
  refine ⟨_, hnext, ?_, ?_⟩ <;> simp [hget]

end Readers

section Writer

variable [DecidableEq ν]

namespace FileSystem

/-- A fresh inode for a name. -/
def create (fs : FileSystem ν β) (n : ν) : FileSystem ν β where
  names := Function.update fs.names n (some fs.next)
  files := Function.update fs.files fs.next []
  next := fs.next + 1

/-- `open` with `O_CREAT | O_TRUNC`: the name's file emptied, or a new empty one; and its inode. -/
def truncate (fs : FileSystem ν β) (n : ν) : FileSystem ν β × ℕ :=
  match fs.names n with
  | some i => (fs.fill i [], i)
  | none => (fs.create n, fs.next)

/-- The new name points to the file of the old one, which is gone. Nothing happens when the old
name does not exist or both name one file. -/
def rename (fs : FileSystem ν β) (old new : ν) : FileSystem ν β :=
  if fs.names old = none ∨ fs.names new = fs.names old then fs else
    { fs with names := Function.update (Function.update fs.names new (fs.names old)) old none }

end FileSystem

/-- What one step of a writer may do that touches the names of `P` by renaming onto them only,
and what it publishes by that. -/
inductive Edit (P : Set ν) (fs : FileSystem ν β) :
    Option (ν × List β) → FileSystem ν β → Prop
  | same : Edit P fs none fs
  | fill {n : ν} {i : ℕ} (hn : n ∉ P) (hi : fs.names n = some i) (d : List β) :
      Edit P fs none (fs.fill i d)
  | create {n : ν} (hn : n ∉ P) : Edit P fs none (fs.create n)
  | publish {old new : ν} {i : ℕ} (ho : old ∉ P) (hn : new ∈ P) (hi : fs.names old = some i) :
      Edit P fs (some (new, fs.files i)) (fs.rename old new)

/-- The last publication under a name. -/
def latest (log : List (ν × List β)) (p : ν) : Option (List β) :=
  (log.filter (·.1 = p)).getLast?.map Prod.snd

@[simp] theorem latest_nil (p : ν) : latest ([] : List (ν × List β)) p = none := rfl

theorem latest_concat (log : List (ν × List β)) (q : ν) (d : List β) (p : ν) :
    latest (log ++ [(q, d)]) p = if q = p then some d else latest log p := by
  unfold latest
  split <;> simp [*]

variable {P : Set ν} {fs fs' : FileSystem ν β} {w : World ν β ρ} {o : Option (ν × List β)}
  {n old new : ν} {i : ℕ} {r : ρ} {R : Reader β} {d : List β}

theorem FileSystem.truncate_edit (hn : n ∉ P) : Edit P fs none (fs.truncate n).1 := by
  unfold truncate
  split
  · exact .fill hn ‹_› []
  · exact .create hn

theorem FileSystem.truncate_names : (fs.truncate n).1.names n = some (fs.truncate n).2 := by
  unfold truncate
  split
  · assumption
  · simp [create]

theorem FileSystem.truncate_files : (fs.truncate n).1.files (fs.truncate n).2 = [] := by
  unfold truncate
  split <;> simp [fill, create]

theorem FileSystem.write_edit [Inhabited β] (hn : n ∉ P) (hi : fs.names n = some i) (off : ℕ)
    (d : List β) : Edit P fs none (fs.write i off d) :=
  .fill hn hi _

theorem FileSystem.rename_eq (hi : fs.names old = some i) (hn : fs.names new ≠ some i) :
    fs.rename old new =
      { fs with names := Function.update (Function.update fs.names new (some i)) old none } := by
  simp [rename, hi, hn]

/-- Onto a name of `P`, a file from outside `P` is really renamed. -/
theorem Clean.rename_eq (h : Clean P w) (ho : old ∉ P) (hn : new ∈ P)
    (hi : w.fs.names old = some i) : w.fs.rename old new =
      { w.fs with names := Function.update (Function.update w.fs.names new (some i)) old none } :=
  FileSystem.rename_eq hi fun hi' => ho (h.single _ _ _ hi' hi ▸ hn)

theorem Edit.clean (h : Clean P w) (e : Edit P w.fs o fs') : Clean P { w with fs := fs' } := by
  cases e with
  | same => exact h
  | fill hn hi d => exact ⟨h.single, h.named, h.held, h.shared⟩
  | @create n hn =>
    have hold : ∀ a i, Function.update w.fs.names n (some w.fs.next) a = some i →
        a = n ∧ i = w.fs.next ∨ w.fs.names a = some i := by
      intro a i ha
      by_cases han : a = n
      · exact .inl ⟨han, by simpa [han, eq_comm] using ha⟩
      · exact .inr (by simpa [han] using ha)
    refine ⟨?_, ?_, fun r R hr => Nat.lt_succ_of_lt (h.held r R hr), ?_⟩
    · intro a b i ha hb
      obtain ⟨ha, hi⟩ | ha := hold a i ha <;> obtain ⟨hb, hj⟩ | hb := hold b i hb
      · exact ha.trans hb.symm
      · exact absurd hi (Nat.ne_of_lt (h.named b i hb))
      · exact absurd hj (Nat.ne_of_lt (h.named a i ha))
      · exact h.single a b i ha hb
    · intro a i ha
      obtain ⟨-, rfl⟩ | ha := hold a i ha
      · exact Nat.lt_succ_self _
      · exact Nat.lt_succ_of_lt (h.named a i ha)
    · intro r R a hr ha
      -- the fresh inode is held by nobody
      obtain ⟨-, hi⟩ | ha := hold a R.inode ha
      · exact absurd hi (Nat.ne_of_lt (h.held r R hr))
      · exact h.shared r R a hr ha
  | @publish old new i ho hn hi =>
    rw [h.rename_eq ho hn hi]
    have hold : ∀ a j,
        Function.update (Function.update w.fs.names new (some i)) old none a = some j →
        a = new ∧ j = i ∨ a ≠ old ∧ w.fs.names a = some j := by
      intro a j ha
      have hao : a ≠ old := by
        rintro rfl
        simp at ha
      by_cases han : a = new
      · exact .inl ⟨han, by simpa [hao, ← han, eq_comm] using ha⟩
      · exact .inr ⟨hao, by simpa [hao, han] using ha⟩
    refine ⟨?_, ?_, h.held, ?_⟩
    · intro a b j ha hb
      obtain ⟨ha, hj⟩ | ⟨hne, ha⟩ := hold a j ha <;> obtain ⟨hb, hj'⟩ | ⟨hne', hb⟩ := hold b j hb
      · exact ha.trans hb.symm
      · exact absurd (h.single b old j hb (hj ▸ hi)) hne'
      · exact absurd (h.single a old j ha (hj' ▸ hi)) hne
      · exact h.single a b j ha hb
    · intro a j ha
      obtain ⟨-, rfl⟩ | ⟨-, ha⟩ := hold a j ha
      · exact h.named old j hi
      · exact h.named a j ha
    · intro r R a hr ha
      obtain ⟨rfl, -⟩ | ⟨-, ha⟩ := hold a R.inode ha
      · exact hn
      · exact h.shared r R a hr ha

/-- Steps of the writer that publish nothing change no name of `P`; the one that does shows the
whole new file. -/
theorem Edit.latest (h : Clean P w) (e : Edit P w.fs o fs') (log : List (ν × List β))
    (hl : ∀ p ∈ P, w.fs.read p = latest log p) :
    ∀ p ∈ P, fs'.read p = latest (log ++ o.toList) p := by
  intro p hp
  cases e with
  | same => simpa using hl p hp
  | @fill n i hn hi d =>
    have hpi : ∀ j, w.fs.names p = some j → j ≠ i := by
      rintro j hj rfl
      exact hn (h.single _ _ _ hj hi ▸ hp)
    rw [Option.toList_none, List.append_nil, ← hl p hp]
    cases hj : w.fs.names p with
    | none => simp [FileSystem.read, FileSystem.fill, hj]
    | some j => simp [FileSystem.read, FileSystem.fill, hj, hpi j hj]
  | @create n hn =>
    have hpn : p ≠ n := fun h => hn (h ▸ hp)
    rw [Option.toList_none, List.append_nil, ← hl p hp]
    cases hj : w.fs.names p with
    | none => simp [FileSystem.read, FileSystem.create, hj, hpn]
    | some j => simp [FileSystem.read, FileSystem.create, hj, hpn, Nat.ne_of_lt (h.named p j hj)]
  | @publish old new i ho hn hi =>
    have hpo : p ≠ old := fun h => ho (h ▸ hp)
    rw [h.rename_eq ho hn hi, Option.toList_some, latest_concat, ← hl p hp]
    by_cases hpn : new = p
    · subst hpn
      simp [FileSystem.read, hpo]
    · simp [FileSystem.read, hpo, hpn, Ne.symm hpn]

/-- What a reader holds stays as it is. -/
theorem Edit.files_held (h : Clean P w) (e : Edit P w.fs o fs') (hr : w.readers r = some R) :
    fs'.files R.inode = w.fs.files R.inode := by
  cases e with
  | same => rfl
  | @fill n i hn hi d =>
    have hne : R.inode ≠ i := by
      rintro rfl
      exact hn (h.shared r R n hr hi)
    simp [FileSystem.fill, hne]
  | create hn => simp [FileSystem.create, Nat.ne_of_lt (h.held r R hr)]
  | publish ho hn hi => rw [h.rename_eq ho hn hi]

theorem Reading.edit (h : Clean P w) (e : Edit P w.fs o fs') (hd : Reading w r d) :
    Reading { w with fs := fs' } r d := by
  obtain ⟨R, hr, hf, hg⟩ := hd
  exact ⟨R, hr, (e.files_held h hr).trans hf, hg⟩

end Writer

end NervesSystem.Files
