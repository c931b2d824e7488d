import NervesSystem.Installed
import Mathlib.Data.Set.Lattice
import Mathlib.Order.CompletePartialOrder
import Mathlib.Order.Interval.Set.Basic

namespace NervesSystem

def idbloaderOffset : ℕ := 64

def ubootItbOffset : ℕ := 16384

def ubootEnvOffset : ℕ := 30720

def ubootEnvCount : ℕ := 256

def bootPartOffset : ℕ := 32768

/-- The block counts of fwup-common.conf that may be overridden from outside. -/
structure Layout where
  bootPartCount : ℕ := 524288
  rootfsAPartCount : ℕ := 1048576
  rootfsBPartCount : ℕ := rootfsAPartCount
  resourcePartCount : ℕ := 32768
  appPartCount : ℕ := 1048576

/-- The regions of the disk, in order. Below p1 only the starts of the vendor's area, which
belongs to nobody here, is drawn in the comment and not defined. -/
inductive Area
  | idbloader
  | vendorEnv
  | ubootItb
  | ubootEnv
  | boot
  | rootfs (x : Slot)
  | resource
  | app
  deriving DecidableEq

/-- About 4 MB into the disk the vendor's U-Boot saves its own environment. -/
def vendorEnvOffset : ℕ := 8192

namespace Layout
variable (L : Layout)

def rootfsAPartOffset : ℕ := bootPartOffset + L.bootPartCount

def rootfsBPartOffset : ℕ := L.rootfsAPartOffset + L.rootfsAPartCount

def resourcePartOffset : ℕ := L.rootfsBPartOffset + L.rootfsBPartCount

def appPartOffset : ℕ := L.resourcePartOffset + L.resourcePartCount

/-- The block that the writes and trims of a region start at. -/
def offset : Region → ℕ
  | .idbloader => idbloaderOffset
  | .ubootItb => ubootItbOffset
  | .rootfs .a => L.rootfsAPartOffset
  | .rootfs .b => L.rootfsBPartOffset
  | .resource => L.resourcePartOffset
  | .app => L.appPartOffset

/-- The second argument of `trim`. The regions below p1 are never trimmed. -/
def partCount : Region → ℕ
  | .idbloader => 0
  | .ubootItb => 0
  | .rootfs .a => L.rootfsAPartCount
  | .rootfs .b => L.rootfsBPartCount
  | .resource => L.resourcePartCount
  | .app => L.appPartCount

/-- The blocks of a region. The partition of the application takes the rest of the disk. -/
def area : Area → Set ℕ
  | .idbloader => Set.Ico idbloaderOffset vendorEnvOffset
  | .vendorEnv => Set.Ico vendorEnvOffset ubootItbOffset
  | .ubootItb => Set.Ico ubootItbOffset ubootEnvOffset
  | .ubootEnv => Set.Ico ubootEnvOffset (ubootEnvOffset + ubootEnvCount)
  | .boot => Set.Ico bootPartOffset (bootPartOffset + L.bootPartCount)
  | .rootfs .a => Set.Ico L.rootfsAPartOffset (L.rootfsAPartOffset + L.rootfsAPartCount)
  | .rootfs .b => Set.Ico L.rootfsBPartOffset (L.rootfsBPartOffset + L.rootfsBPartCount)
  | .resource => Set.Ico L.resourcePartOffset (L.resourcePartOffset + L.resourcePartCount)
  | .app => Set.Ici L.appPartOffset

end Layout

/-- The blocks that so many bytes take. -/
def blocksOf (bytes : ℕ) : ℕ := (bytes + (blockSize - 1)) / blockSize

def Region.area : Region → Area
  | idbloader => .idbloader
  | ubootItb => .ubootItb
  | rootfs x => .rootfs x
  | resource => .resource
  | app => .app

/-- The region that an operation on raw blocks is meant for. -/
def Operation.home : Operation → Option Area
  | ubootEnvWrite _ => some .ubootEnv
  | rawWrite r _ _ | rawMemset r _ _ | trim r => some r.area
  | _ => none

section Confined
variable (L : Layout) (envBytes : ℕ)

/-- The blocks that an operation on raw blocks changes. The size of uboot-env.bin is `envBytes`. -/
def Operation.footprint : Operation → Set ℕ
  | ubootEnvWrite _ => Set.Ico ubootEnvOffset (ubootEnvOffset + blocksOf envBytes)
  | rawWrite r file _ => Set.Ico (L.offset r) (L.offset r + blocksOf file.target.length)
  | rawMemset r blocks _ => Set.Ico (L.offset r) (L.offset r + blocks)
  | trim r => Set.Ico (L.offset r) (L.offset r + L.partCount r)
  | _ => ∅

/-- The operation keeps to the region it is meant for, and off every other one. -/
def Confined (o : Operation) : Prop :=
  ∀ a, o.home = some a → o.footprint L envBytes ⊆ L.area a ∧
    ∀ b, b ≠ a → Disjoint (o.footprint L envBytes) (L.area b)

/-- The `assert-size-lte` of fwup.conf, which count blocks. -/
structure AssertSizes (A : Archive) : Prop where
  resource : A.resource.target.length ≤ L.resourcePartCount * blockSize
  rootfs : A.rootfs.target.length ≤ L.rootfsAPartCount * blockSize

end Confined

/-- The tasks that write to raw blocks. -/
def diskOperations (A : Archive) : List Operation :=
  (complete A).operations fileResources ++ (upgradeA A).operations fileResources ++
    (upgradeB A).operations fileResources ++ preventRevertA.operations opsFileResources ++
    preventRevertB.operations opsFileResources ++ factoryReset.operations opsFileResources

section Areas
variable {L : Layout} {r : Region} {a b : Area} {k c : ℕ}

/-- The last region that starts at a block or before it. -/
def Layout.areaOf (L : Layout) (k : ℕ) : Area :=
  if k < vendorEnvOffset then .idbloader
  else if k < ubootItbOffset then .vendorEnv
  else if k < ubootEnvOffset then .ubootItb
  else if k < bootPartOffset then .ubootEnv
  else if k < L.rootfsAPartOffset then .boot
  else if k < L.rootfsBPartOffset then .rootfs .a
  else if k < L.resourcePartOffset then .rootfs .b
  else if k < L.appPartOffset then .resource
  else .app

/-- Whatever the counts are, each region ends before the next one starts. -/
theorem areaOf_eq (h : k ∈ L.area a) : L.areaOf k = a := by
  have h1 : vendorEnvOffset ≤ ubootItbOffset := by decide
  have h2 : ubootItbOffset ≤ ubootEnvOffset := by decide
  have h3 : ubootEnvOffset + ubootEnvCount ≤ bootPartOffset := by decide
  have h4 : L.rootfsAPartOffset = bootPartOffset + L.bootPartCount := rfl
  have h5 : L.rootfsBPartOffset = L.rootfsAPartOffset + L.rootfsAPartCount := rfl
  have h6 : L.resourcePartOffset = L.rootfsBPartOffset + L.rootfsBPartCount := rfl
  have h7 : L.appPartOffset = L.resourcePartOffset + L.resourcePartCount := rfl
  unfold Layout.areaOf
  rcases a with _ | _ | _ | _ | _ | (_ | _) | _ | _ <;>
    simp only [Layout.area, Set.mem_Ico, Set.mem_Ici] at h
  case idbloader => exact if_pos h.2
  all_goals rw [if_neg (by omega)]
  case vendorEnv => exact if_pos h.2
  all_goals rw [if_neg (by omega)]
  case ubootItb => exact if_pos h.2
  all_goals rw [if_neg (by omega)]
  case ubootEnv => exact if_pos (by omega)
  all_goals rw [if_neg (by omega)]
  case boot => exact if_pos (by omega)
  all_goals rw [if_neg (by omega)]
  case rootfs.a => exact if_pos (by omega)
  all_goals rw [if_neg (by omega)]
  case rootfs.b => exact if_pos (by omega)
  all_goals rw [if_neg (by omega)]
  case resource => exact if_pos (by omega)
  case app => rw [if_neg (by omega)]

theorem area_disjoint (h : b ≠ a) : Disjoint (L.area a) (L.area b) := by
  rw [Set.disjoint_left]
  intro k ha hb
  exact h ((areaOf_eq hb).symm.trans (areaOf_eq ha))

theorem blocksOf_le {bytes : ℕ} : blocksOf bytes ≤ c ↔ bytes ≤ c * blockSize := by
  simp only [blocksOf, blockSize]
  omega

theorem Ico_subset_same {s t : ℕ} (h : s ≤ t) :
    Set.Ico s (s + k) ⊆ Set.Ico s t ↔ k ≤ t - s := by
  constructor
  · intro hs
    by_contra hk
    have hm := hs (show t ∈ Set.Ico s (s + k) from ⟨h, by omega⟩)
    exact absurd hm.2 (Nat.lt_irrefl t)
  · intro hk
    exact Set.Ico_subset_Ico_right (by omega)

/-- The blocks from the offset of a region to its end, unless it has none. -/
def Layout.room (L : Layout) : Region → Option ℕ
  | .idbloader => some (vendorEnvOffset - idbloaderOffset)
  | .ubootItb => some (ubootEnvOffset - ubootItbOffset)
  | .rootfs .a => some L.rootfsAPartCount
  | .rootfs .b => some L.rootfsBPartCount
  | .resource => some L.resourcePartCount
  | .app => none

theorem extent_subset : Set.Ico (L.offset r) (L.offset r + k) ⊆ L.area r.area ↔
    ∀ c, L.room r = some c → k ≤ c := by
  rcases r with _ | _ | (_ | _) | _ | _ <;>
    simp only [Layout.room, Option.some.injEq, forall_eq', Layout.offset, Region.area, Layout.area]
  case idbloader => exact Ico_subset_same (by decide)
  case ubootItb => exact Ico_subset_same (by decide)
  case app => simpa using Set.Ico_subset_Ici_self
  all_goals rw [Ico_subset_same (Nat.le_add_right _ _), Nat.add_sub_cancel_left]

end Areas

section Confined
variable {L : Layout} {envBytes : ℕ} {A : Archive} {o : Operation} {a b : Area} {r : Region}

theorem confined_iff (h : o.home = some a) :
    Confined L envBytes o ↔ o.footprint L envBytes ⊆ L.area a := by
  constructor
  · exact fun hc => (hc a h).1
  · intro hs a' ha
    obtain rfl : a = a' := by simpa [h] using ha
    exact ⟨hs, fun b hb => (area_disjoint hb).mono_left hs⟩

/-- Only operations on raw blocks need to be looked at. -/
theorem confined_filter {ops : List Operation} : (∀ o ∈ ops, Confined L envBytes o) ↔
    ∀ o ∈ ops.filter (·.home.isSome), Confined L envBytes o := by
  constructor
  · exact fun h o ho => h o (List.mem_of_mem_filter ho)
  · intro h o ho a ha
    exact h o (List.mem_filter.mpr ⟨ho, by simp [ha]⟩) a ha

theorem confined_rawWrite {file : Payload Bytes} {source : Option Region} :
    Confined L envBytes (.rawWrite r file source) ↔
      ∀ c, L.room r = some c → file.target.length ≤ c * blockSize := by
  rw [confined_iff (a := r.area) (by cases r <;> rfl)]
  exact extent_subset.trans (forall₂_congr fun c _ => blocksOf_le)

theorem confined_rawMemset {blocks : ℕ} {value : UInt8} :
    Confined L envBytes (.rawMemset r blocks value) ↔ ∀ c, L.room r = some c → blocks ≤ c := by
  rw [confined_iff (a := r.area) (by cases r <;> rfl)]
  exact extent_subset

theorem confined_trim : Confined L envBytes (.trim r) := by
  rw [confined_iff (a := r.area) (by cases r <;> rfl)]
  refine extent_subset.mpr fun c hc => ?_
  rcases r with _ | _ | (_ | _) | _ | _ <;> simp [Layout.room, Layout.partCount] at hc ⊢ <;> omega

theorem confined_ubootEnvWrite {vars : List (String × String)} :
    Confined L envBytes (.ubootEnvWrite vars) ↔ envBytes ≤ ubootEnvCount * blockSize := by
  rw [confined_iff (a := .ubootEnv) rfl, ← blocksOf_le]
  simp only [Operation.footprint, Layout.area]
  rw [Ico_subset_same (Nat.le_add_right _ _), Nat.add_sub_cancel_left]

/-- What must be so beyond the asserts for every write to stay in its region. -/
structure Fits (L : Layout) (envBytes : ℕ) (A : Archive) : Prop where
  idbloader : A.idbloader.target.length ≤ (vendorEnvOffset - idbloaderOffset) * blockSize
  ubootItb : A.ubootItb.target.length ≤ (ubootEnvOffset - ubootItbOffset) * blockSize
  ubootEnv : envBytes ≤ ubootEnvCount * blockSize
  rootfs : A.rootfs.target.length ≤ L.rootfsBPartCount * blockSize
  wipe : 256 ≤ L.rootfsBPartCount

theorem confined_complete (h : AssertSizes L A) :
    (∀ o ∈ (complete A).operations fileResources, Confined L envBytes o) ↔
      A.idbloader.target.length ≤ (vendorEnvOffset - idbloaderOffset) * blockSize ∧
      A.ubootItb.target.length ≤ (ubootEnvOffset - ubootItbOffset) * blockSize ∧
      envBytes ≤ ubootEnvCount * blockSize ∧ 256 ≤ L.rootfsBPartCount := by
  have hraw : ((complete A).operations fileResources).filter (·.home.isSome) =
      [.rawWrite .idbloader A.idbloader none, .rawWrite .ubootItb A.ubootItb none,
       .ubootEnvWrite ubootEnv, .rawWrite .resource A.resource none,
       .rawWrite (.rootfs .a) A.rootfs none, .rawMemset (.rootfs .b) 256 0xff,
       .rawMemset .app 256 0xff] := rfl
  rw [confined_filter, hraw]
  simp [confined_rawWrite, confined_rawMemset, confined_ubootEnvWrite, Layout.room, h.resource,
    h.rootfs]

theorem confined_upgrade (envBytes : ℕ) (x : Slot) (h : AssertSizes L A) :
    (∀ o ∈ (upgradeTask A x).operations fileResources, Confined L envBytes o) ↔
      A.rootfs.target.length ≤ L.partCount (.rootfs x) * blockSize := by
  have hraw : (upgradeOperations A x).filter (·.home.isSome) =
      [.trim (.rootfs x), .rawWrite .resource A.resource (some .resource),
       .rawWrite (.rootfs x) A.rootfs (some (.rootfs x.other))] := rfl
  rw [upgradeTask_operations, confined_filter, hraw]
  cases x <;>
    simp [confined_rawWrite, confined_trim, Layout.room, Layout.partCount, h.resource]

theorem confined_preventRevert (L : Layout) (envBytes : ℕ) (x : Slot) :
    ∀ o ∈ (preventRevertTask x).operations opsFileResources, Confined L envBytes o := by
  have hraw : (preventRevertOperations x).filter (·.home.isSome) = [.trim (.rootfs x)] := rfl
  rw [preventRevertTask_operations, confined_filter, hraw]
  simp [confined_trim]

theorem confined_factoryReset :
    ∀ o ∈ factoryReset.operations opsFileResources, Confined L envBytes o := by
  have hraw : (factoryReset.operations opsFileResources).filter (·.home.isSome) =
      [.trim .app, .rawMemset .app 256 0xff] := rfl
  rw [confined_filter, hraw]
  simp [confined_trim, confined_rawMemset, Layout.room]

/-- The asserts cover the rootfs of slot a and the resource partition. Everything else that is
written stays in its region just when it happens to fit. -/
theorem regions_kept_iff (L : Layout) (envBytes : ℕ) (A : Archive) (h : AssertSizes L A) :
    (∀ o ∈ diskOperations A, Confined L envBytes o) ↔ Fits L envBytes A := by
  have hA := confined_upgrade envBytes .a h
  have hB := confined_upgrade envBytes .b h
  have hp := confined_preventRevert L envBytes
  simp only [diskOperations, List.forall_mem_append, confined_complete h]
  constructor
  · rintro ⟨⟨⟨⟨⟨⟨hi, hu, he, hw⟩, -⟩, hb⟩, -⟩, -⟩, -⟩
    exact ⟨hi, hu, he, hB.mp hb, hw⟩
  · intro hf
    exact ⟨⟨⟨⟨⟨⟨hf.idbloader, hf.ubootItb, hf.ubootEnv, hf.wipe⟩, hA.mpr h.rootfs⟩,
      hB.mpr hf.rootfs⟩, hp .a⟩, hp .b⟩, confined_factoryReset⟩

theorem regions_kept_sample : Fits {} 131072 sampleArchive ∧
    ∀ o ∈ diskOperations sampleArchive, Confined {} 131072 o := by
  have hf : Fits {} 131072 sampleArchive :=
    ⟨by decide, by decide, by decide, by decide, by decide⟩
  exact ⟨hf, (regions_kept_iff {} 131072 sampleArchive ⟨by decide, by decide⟩).mpr hf⟩

/-- A root file system one byte longer than the partition of slot b. -/
def wideArchive : Archive :=
  { sampleArchive with rootfs := .full (List.replicate (256 * blockSize + 1) 0x68) }

/-- It passes the assert, which asks for the partition of slot a, and upgrade.b writes it over
the resource partition. -/
theorem regions_overrun : AssertSizes { rootfsBPartCount := 256 } wideArchive ∧
    ¬ ∀ o ∈ diskOperations wideArchive, Confined { rootfsBPartCount := 256 } 131072 o := by
  have hlen : wideArchive.rootfs.target.length = 256 * blockSize + 1 := List.length_replicate
  have h : AssertSizes { rootfsBPartCount := 256 } wideArchive :=
    ⟨by decide, by rw [hlen]; decide⟩
  refine ⟨h, fun hc => ?_⟩
  have hb : ∀ o ∈ (upgradeTask wideArchive .b).operations fileResources,
      Confined { rootfsBPartCount := 256 } 131072 o := fun o ho =>
    hc o (by simp only [diskOperations, List.mem_append]; exact .inl (.inl (.inl (.inr ho))))
  have hf := (confined_upgrade _ .b h).mp hb
  rw [hlen] at hf
  exact absurd hf (by decide)

end Confined

end NervesSystem
