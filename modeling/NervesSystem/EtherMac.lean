import NervesSystem.Media
import NervesSystem.Library.Trace
import Mathlib.Data.Int.Notation
import Mathlib.Data.Nat.Count

namespace NervesSystem.EtherMac

open Trace

def macAddrLen : ℕ := 6

/-- The `u8 [MAC_ADDR_LEN]` of an address. -/
abbrev Mac := { a : Bytes // a.length = macAddrLen }

/-- The group bit of the first octet is clear. -/
def Unicast (a : Mac) : Prop :=
  ∃ octet rest, a.1 = octet :: rest ∧ octet.toNat % 2 = 0

/-- The kernel's test of an address, as it is documented: neither multicast nor zero. -/
structure Etherdevice where
  isValidEtherAddr : Mac → Bool
  valid_iff : ∀ a, isValidEtherAddr a = true ↔ Unicast a ∧ a.1 ≠ List.replicate macAddrLen 0

variable {L : Etherdevice}

/-- What one probe meets: the two tests of the storage, which stays once it is there; an early end
of the probe for another reason; the address in the chip, which is none; what `rk_vendor_read` gives
without an item of the size asked for; what `eth_random_addr` draws; the result of
`rk_vendor_write`; and the address that the rest of the driver takes instead of one not valid. -/
structure Probe (L : Etherdevice) where
  readyAtDefer : Bool
  readyAtMac : Bool
  stays : readyAtDefer = true → readyAtMac = true
  aborts : Bool
  chip : { a : Mac // L.isValidEtherAddr a = false }
  vret : { n : ℤ // n ≠ macAddrLen }
  vmac : Mac
  random : { a : Mac // L.isValidEtherAddr a = true }
  writeFails : Bool
  fallback : Mac

/-- The storage is there at one of the two tests. -/
def Probe.ready (p : Probe L) : Bool :=
  p.readyAtDefer || p.readyAtMac

/-- The static counter of the driver, an `int` that wraps, and the item `LAN_MAC_ID` of the vendor
storage. -/
structure State where
  vendorDeferCount : Int32
  item : Option Bytes

inductive Outcome
  | defer
  | abort
  | assign (mac : Mac)
  deriving DecidableEq

/-- `rk_vendor_read(LAN_MAC_ID, vmac, MAC_ADDR_LEN)`: its result and the buffer. -/
def rkVendorRead (item : Option Bytes) (p : Probe L) : ℤ × Mac :=
  match item with
  | some b => if h : b.length = macAddrLen then (macAddrLen, ⟨b, h⟩) else (p.vret, p.vmac)
  | none => (p.vret, p.vmac)

/-- `rk_vendor_write(LAN_MAC_ID, vmac, MAC_ADDR_LEN)`. One that fails leaves the item. -/
def rkVendorWrite (item : Option Bytes) (mac : Mac) (p : Probe L) : Option Bytes :=
  if p.writeFails then item else some mac.1

/-- The address that the driver gets for the device, and the item then. -/
def getMacAddress (item : Option Bytes) (p : Probe L) : Mac × Option Bytes :=
  let (mac, item) :=
    if !L.isValidEtherAddr p.chip && p.readyAtMac then
      let (vret, vmac) := rkVendorRead item p
      -- Nothing stored, another length, or six bytes that are no address.
      if vret ≠ macAddrLen || !L.isValidEtherAddr vmac then
        (p.random.1, rkVendorWrite item p.random p)
      else (vmac, item)
    else (p.chip.1, item)
  (if !L.isValidEtherAddr mac then p.fallback else mac, item)

/-- `rtl8168_init_one` past the deferral. -/
def proceed (s : State) (p : Probe L) : Outcome × State :=
  if p.aborts then (.abort, s) else
    let (mac, item) := getMacAddress s.item p
    (.assign mac, { s with item := item })

def initOne (s : State) (p : Probe L) : Outcome × State :=
  if p.readyAtDefer then proceed s p else
    -- The count goes up at every miss, also past the bound.
    let s' := { s with vendorDeferCount := s.vendorDeferCount + 1 }
    if s.vendorDeferCount < 30 then (.defer, s') else proceed s' p

inductive Event (L : Etherdevice)
  | boot
  | probe (p : Probe L)

/-- A boot clears the counter and keeps the storage. -/
def step (s : State) : Event L → State
  | .boot => { s with vendorDeferCount := 0 }
  | .probe p => (initOne s p).2

/-- The life of a device from a boot with this item. -/
def run (item : Option Bytes) (es : List (Event L)) : State :=
  es.foldl step ⟨0, item⟩

/-- The probes deferred since the last boot. -/
def deferrals (item : Option Bytes) (es : List (Event L)) : ℕ :=
  ghost step (fun s n e =>
    match e with
    | .boot => 0
    | .probe p => if (initOne s p).1 = .defer then n + 1 else n) ⟨0, item⟩ 0 es

/-- The probes since the last boot that do not find the storage when they might defer. -/
def unready (es : List (Event L)) : ℕ :=
  es.foldl (fun n e =>
    match e with
    | .boot => 0
    | .probe p => if p.readyAtDefer then n else n + 1) 0

variable {s : State} {p : Probe L} {e : Event L} {item : Option Bytes} {es fs : List (Event L)}
  {a mac : Mac} {u k : ℕ}

theorem Probe.readyAtMac_of_ready (h : p.ready = true) : p.readyAtMac = true := by
  obtain h | h := Bool.or_eq_true_iff.mp h
  · exact p.stays h
  · exact h

theorem proceed_ne_defer (s : State) (p : Probe L) : (proceed s p).1 ≠ .defer := by
  unfold proceed
  split <;> simp

theorem proceed_count (s : State) (p : Probe L) :
    (proceed s p).2.vendorDeferCount = s.vendorDeferCount := by
  unfold proceed
  split <;> rfl

theorem proceed_item (s : State) (p : Probe L) :
    (proceed s p).2.item = s.item ∨ (proceed s p).2.item = (getMacAddress s.item p).2 := by
  unfold proceed
  split
  · exact .inl rfl
  · exact .inr rfl

theorem proceed_assign (h : (proceed s p).1 = .assign mac) : mac = (getMacAddress s.item p).1 := by
  unfold proceed at h
  split at h
  · cases h
  · exact (Outcome.assign.inj h).symm

theorem initOne_defer :
    (initOne s p).1 = .defer ↔ p.readyAtDefer = false ∧ s.vendorDeferCount < 30 := by
  unfold initOne
  split
  · simp [*, proceed_ne_defer]
  · split <;> simp [*, proceed_ne_defer]

theorem initOne_count (s : State) (p : Probe L) : (initOne s p).2.vendorDeferCount =
    if p.readyAtDefer then s.vendorDeferCount else s.vendorDeferCount + 1 := by
  unfold initOne
  split
  · exact proceed_count s p
  · split
    · rfl
    · exact proceed_count _ p

theorem initOne_item (s : State) (p : Probe L) :
    (initOne s p).2.item = s.item ∨ (initOne s p).2.item = (getMacAddress s.item p).2 := by
  unfold initOne
  split
  · exact proceed_item s p
  · split
    · exact .inl rfl
    · exact proceed_item { s with vendorDeferCount := s.vendorDeferCount + 1 } p

theorem initOne_assign (h : (initOne s p).1 = .assign mac) :
    mac = (getMacAddress s.item p).1 := by
  unfold initOne at h
  split at h
  · exact proceed_assign h
  · split at h
    · cases h
    · exact proceed_assign (s := { s with vendorDeferCount := s.vendorDeferCount + 1 }) h

/-- With the storage there, the address read or drawn is valid and the driver keeps it. -/
theorem getMacAddress_valid (item : Option Bytes) (h : p.readyAtMac = true) :
    L.isValidEtherAddr (getMacAddress item p).1 = true := by
  have hc := p.chip.2
  have hr := p.random.2
  unfold getMacAddress
  by_cases hv : (rkVendorRead item p).1 = macAddrLen ∧
      L.isValidEtherAddr (rkVendorRead item p).2 = true
  · simp [hc, h, hv]
  · rw [not_and_or, Bool.not_eq_true] at hv
    simp [hc, h, hv, hr]

/-- `LAN_MAC_ID` holds the six bytes of a valid address. -/
def Holds (L : Etherdevice) (item : Option Bytes) (a : Mac) : Prop :=
  item = some a.1 ∧ L.isValidEtherAddr a = true

theorem Holds.getMacAddress (h : Holds L item a) (p : Probe L) :
    (getMacAddress item p).2 = item ∧
      (p.readyAtMac = true → (getMacAddress item p).1 = a) := by
  obtain ⟨rfl, ha⟩ := h
  have hread : rkVendorRead (some a.1) p = ((macAddrLen : ℤ), a) := by
    simp [rkVendorRead, a.2]
  have hc := p.chip.2
  unfold EtherMac.getMacAddress
  cases hr : p.readyAtMac <;> simp [hc, hread, ha]

/-- The probes deferred among the first `u` of a boot that might defer. -/
def deferred (u : ℕ) : ℕ :=
  Nat.count (fun k => Int32.ofNat k < 30) u

theorem deferred_succ (u : ℕ) :
    deferred (u + 1) = if Int32.ofNat u < 30 then deferred u + 1 else deferred u := by
  unfold deferred
  rw [Nat.count_succ]
  split <;> rfl

theorem count_lt_iff (hk : k < 2 ^ 31) : Int32.ofNat k < 30 ↔ k < 30 := by
  have h30 : (30 : Int32).toInt = 30 := rfl
  rw [Int32.lt_iff_toInt_lt, Int32.toInt_ofNat_of_lt hk, h30]
  omega

theorem deferred_eq_min (hu : u ≤ 2 ^ 31) : deferred u = min u 30 := by
  induction u with
  | zero => simp [deferred]
  | succ u ih =>
    have hu' : u < 2 ^ 31 := by omega
    rw [deferred_succ, ih (by omega)]
    simp only [count_lt_iff hu']
    split <;> omega

theorem count_wraps (hk : k = 2 ^ 31) : Int32.ofNat k < 30 := by
  have h30 : (30 : Int32).toInt = 30 := rfl
  have hsize : Int32.size = 2 ^ 32 := rfl
  rw [Int32.lt_iff_toInt_lt, Int32.toInt_ofNat', h30, hsize, Int.bmod_def]
  omega

/-- After `2 ^ 31` of them the counter is negative, and the next is deferred again. -/
theorem deferred_le_iff (u : ℕ) : deferred u ≤ 30 ↔ u ≤ 2 ^ 31 := by
  constructor
  · intro h
    by_contra hu
    obtain ⟨k, hk⟩ : ∃ k, k = 2 ^ 31 := ⟨_, rfl⟩
    have hmin : deferred k = min k 30 := deferred_eq_min (by omega)
    have hmono : deferred (k + 1) ≤ deferred u := Nat.count_monotone _ (by omega)
    have hsucc : deferred (k + 1) = deferred k + 1 := by
      rw [deferred_succ, if_pos (count_wraps hk)]
    omega
  · intro hu
    rw [deferred_eq_min hu]
    omega

theorem run_append (item : Option Bytes) (es fs : List (Event L)) :
    run item (es ++ fs) = fs.foldl step (run item es) :=
  List.foldl_append

theorem unready_concat (es : List (Event L)) (e : Event L) : unready (es ++ [e]) =
    match e with
    | .boot => 0
    | .probe p => if p.readyAtDefer then unready es else unready es + 1 := by
  unfold unready
  rw [List.foldl_append]
  rfl

theorem deferrals_concat (item : Option Bytes) (es : List (Event L)) (e : Event L) :
    deferrals item (es ++ [e]) =
      match e with
      | .boot => 0
      | .probe p => if (initOne (run item es) p).1 = .defer then deferrals item es + 1
        else deferrals item es := by
  unfold deferrals
  rw [ghost_append]
  rfl

/-- The counter counts the probes that might defer, and its value says which of them did. -/
theorem run_count (item : Option Bytes) (es : List (Event L)) :
    (run item es).vendorDeferCount = Int32.ofNat (unready es) ∧
      deferrals item es = deferred (unready es) := by
  induction es using List.reverseRecOn with
  | nil => exact ⟨rfl, rfl⟩
  | append_singleton es e ih =>
    obtain ⟨hcount, hdef⟩ := ih
    rw [run_append, unready_concat, deferrals_concat]
    cases e with
    | boot => exact ⟨rfl, rfl⟩
    | probe p =>
      simp only [List.foldl_cons, List.foldl_nil, step, initOne_count, initOne_defer]
      cases hr : p.readyAtDefer with
      | true => simp [hcount, hdef]
      | false =>
        constructor
        · simp [hcount]
        · simp [hcount, hdef, deferred_succ]

theorem deferrals_le_iff (item : Option Bytes) (es : List (Event L)) :
    deferrals item es ≤ 30 ↔ unready es ≤ 2 ^ 31 := by
  rw [(run_count item es).2, deferred_le_iff]

theorem holds_step (h : Holds L s.item a) (e : Event L) : Holds L (step s e).item a := by
  cases e with
  | boot => exact h
  | probe p =>
    have hitem : (initOne s p).2.item = s.item := by
      obtain hi | hi := initOne_item s p
      · exact hi
      · exact hi.trans (h.getMacAddress p).1
    exact ⟨hitem.trans h.1, h.2⟩

theorem holds_run (h : Holds L (run item es).item a) (fs : List (Event L)) :
    Holds L (run item (es ++ fs)).item a := by
  have hall : Guarded step (fun _ _ => True) (run item es) fs :=
    Guarded.of_forall fun _ _ _ => trivial
  rw [run_append]
  exact hall.invariant (I := fun s : State => Holds L s.item a) (fun _ e _ h _ => holds_step h e) h

/-- Any probe that goes on with the storage there has a valid address. -/
theorem initOne_valid (hr : p.ready = true) (h : (initOne s p).1 = .assign mac) :
    L.isValidEtherAddr mac = true ∧ Unicast mac := by
  have hv : L.isValidEtherAddr mac = true := by
    rw [initOne_assign h]
    exact getMacAddress_valid s.item (p.readyAtMac_of_ready hr)
  exact ⟨hv, ((L.valid_iff mac).mp hv).1⟩

/-- The address held is the one given. -/
theorem Holds.initOne (ha : Holds L s.item a) (hr : p.ready = true)
    (h : (initOne s p).1 = .assign mac) : mac = a := by
  rw [initOne_assign h]
  exact (ha.getMacAddress p).2 (p.readyAtMac_of_ready hr)

/-- What is asked of the probes in the life of a device: thirty deferrals at most in a boot, a
valid address whenever the storage is there, and a valid address once held neither overwritten nor
passed over. -/
structure StableMac (L : Etherdevice) (item : Option Bytes) (es : List (Event L)) : Prop where
  bounded : ∀ pre, pre <+: es → deferrals item pre ≤ 30
  valid : ∀ pre p mac, pre ++ [.probe p] <+: es → p.ready = true →
    (initOne (run item pre) p).1 = .assign mac → L.isValidEtherAddr mac = true ∧ Unicast mac
  kept : ∀ pre more a, pre ++ more <+: es → Holds L (run item pre).item a →
    Holds L (run item (pre ++ more)).item a
  given : ∀ pre more p a mac, pre ++ more ++ [.probe p] <+: es → Holds L (run item pre).item a →
    p.ready = true → (initOne (run item (pre ++ more)) p).1 = .assign mac → mac = a

/-- In no boot do more than `2 ^ 31` probes miss the storage at the first test. -/
def WithinCounter (es : List (Event L)) : Prop :=
  ∀ pre, pre <+: es → unready pre ≤ 2 ^ 31

theorem stableMac_iff (item : Option Bytes) (es : List (Event L)) :
    StableMac L item es ↔ WithinCounter es := by
  constructor
  · intro h pre hpre
    exact (deferrals_le_iff item pre).mp (h.bounded pre hpre)
  · intro h
    constructor
    · intro pre hpre
      exact (deferrals_le_iff item pre).mpr (h pre hpre)
    · intro pre p mac _ hr hmac
      exact initOne_valid hr hmac
    · intro pre more a _ ha
      exact holds_run ha more
    · intro pre more p a mac _ ha hr hmac
      exact (holds_run ha more).initOne hr hmac

/-- Octets as the kernel judges them. -/
def etherdevice : Etherdevice where
  isValidEtherAddr a := decide ((a.1.headD 0).toNat % 2 = 0 ∧ a.1 ≠ List.replicate macAddrLen 0)
  valid_iff a := by
    obtain ⟨_ | ⟨octet, rest⟩, h⟩ := a
    · cases h
    · simp [Unicast]

/-- A probe on a board whose vendor storage never registers. -/
def noStorage : Probe etherdevice where
  readyAtDefer := false
  readyAtMac := false
  stays h := h
  aborts := false
  chip := ⟨⟨[0, 0, 0, 0, 0, 0], rfl⟩, by decide⟩
  vret := ⟨-1, by decide⟩
  vmac := ⟨[0, 0, 0, 0, 0, 0], rfl⟩
  random := ⟨⟨[2, 0, 0, 0, 0, 1], rfl⟩, by decide⟩
  writeFails := false
  fallback := ⟨[2, 0, 0, 0, 0, 1], rfl⟩

theorem unready_replicate (hp : p.readyAtDefer = false) (n : ℕ) :
    unready (List.replicate n (.probe p)) = n := by
  induction n with
  | zero => rfl
  | succ n ih => simp [List.replicate_succ', unready_concat, ih, hp]

theorem not_stableMac_replicate (hp : p.readyAtDefer = false) (item : Option Bytes) {n : ℕ}
    (hn : 2 ^ 31 < n) : ¬ StableMac L item (List.replicate n (.probe p)) := by
  intro h
  have hle := (deferrals_le_iff item _).mp (h.bounded _ List.prefix_rfl)
  rw [unready_replicate hp] at hle
  omega

/-- The probe after `2 ^ 31` that missed the storage in one boot is the thirty-first deferred. -/
theorem not_stableMac_noStorage :
    ¬ StableMac etherdevice none (List.replicate (2 ^ 31 + 1) (.probe noStorage)) :=
  not_stableMac_replicate rfl none (by omega)

end NervesSystem.EtherMac
