import NervesSystem.Library.Lanes
import Mathlib.Logic.Function.Iterate

namespace NervesSystem

/-- `struct frame_queue`. The three counts are sixteen bits wide. -/
structure FrameQueue (α : Type*) where
  numPrio : ℕ
  hiPrio : Fin 8
  qmax : ℕ
  qcnt : ℕ
  queuelist : Lanes 8 α

namespace FrameQueue

open Lanes

variable {α : Type*} {q : FrameQueue α} {n : ℕ}

def u16Inc (c : ℕ) : ℕ := (c + 1) % 65536

def u16Dec (c : ℕ) : ℕ := (c + 65535) % 65536

def frameQueueInit (numPrio maxLen : ℕ) : FrameQueue α where
  numPrio := numPrio % 65536
  hiPrio := 0
  qmax := maxLen % 65536
  qcnt := 0
  queuelist := fun _ => []

def frameQueuePenq (q : FrameQueue α) (prio : Fin 8) (p : α) : Option (FrameQueue α) :=
  if q.qmax ≤ (q.queuelist prio).length then none
  else some { q with
    queuelist := push q.queuelist prio p
    qcnt := u16Inc q.qcnt
    hiPrio := if q.hiPrio < prio then prio else q.hiPrio }

def frameEnq (q : FrameQueue α) (pkt : α) (prio : Fin 8) : Bool × FrameQueue α :=
  if (q.queuelist prio).length < q.qmax ∧ q.qcnt < q.qmax then
    (true, (frameQueuePenq q prio pkt).getD q)
  else (false, q)

def isFramequeueEmpty (q : FrameQueue α) : Bool :=
  let len := (((List.finRange 8).filter (· ≤ q.hiPrio)).map fun p => (q.queuelist p).length).sum
  !decide (0 < len)

/-- The loop of `aicwf_frame_dequeue` that leaves the empty priorities. -/
def lowerHi (queuelist : Lanes 8 α) : (prio : ℕ) → prio < 8 → Fin 8
  | 0, _ => 0
  | prio + 1, h =>
    if (queuelist ⟨prio + 1, h⟩).isEmpty then lowerHi queuelist prio (Nat.lt_of_succ_lt h)
    else ⟨prio + 1, h⟩

def frameDequeue (q : FrameQueue α) : Option α × FrameQueue α :=
  if q.qcnt = 0 then (none, q)
  else
    let prio := lowerHi q.queuelist q.hiPrio q.hiPrio.isLt
    match q.queuelist prio with
    | [] => (none, { q with hiPrio := prio })
    | p :: _ => (some p, { q with
        hiPrio := prio
        queuelist := pop q.queuelist prio
        qcnt := u16Dec q.qcnt })

/-- The frames that are freed, and the queue without them. -/
def frameQueueFlush (q : FrameQueue α) : List α × FrameQueue α :=
  let freed := ((List.finRange 8).filter (·.val < q.numPrio)).flatMap q.queuelist
  (freed, { q with
    queuelist := fun p => if p.val < q.numPrio then [] else q.queuelist p
    qcnt := u16Dec^[freed.length] q.qcnt })

/-- The count is that of the frames, and no frame lies above the highest priority. -/
structure Sound (q : FrameQueue α) (n : ℕ) : Prop where
  prios : q.numPrio = n
  max : q.qmax < 65536
  count : q.qcnt = total q.queuelist
  bound : q.qcnt ≤ q.qmax
  above : ∀ p, q.hiPrio < p → q.queuelist p = []

theorem sound_init {maxLen : ℕ} (hn : n < 65536) :
    Sound (frameQueueInit n maxLen : FrameQueue α) n where
  prios := Nat.mod_eq_of_lt hn
  max := Nat.mod_lt _ (by decide)
  count := (total_eq_zero.mpr fun _ => rfl).symm
  bound := Nat.zero_le _
  above := fun _ _ => rfl

theorem Sound.enq (h : Sound q n) (pkt : α) (prio : Fin 8) :
    if total q.queuelist < q.qmax then
      (frameEnq q pkt prio).1 = true ∧ Sound (frameEnq q pkt prio).2 n ∧
        (frameEnq q pkt prio).2.queuelist = push q.queuelist prio pkt ∧
        (frameEnq q pkt prio).2.qmax = q.qmax
    else frameEnq q pkt prio = (false, q) := by
  have hlen := length_le_total q.queuelist prio
  have hcount := h.count
  split
  · next hlt =>
    have hlane : ¬ q.qmax ≤ (q.queuelist prio).length := by omega
    have hboth : (q.queuelist prio).length < q.qmax ∧ q.qcnt < q.qmax := by omega
    rw [frameEnq, if_pos hboth, frameQueuePenq, if_neg hlane]
    have hinc : u16Inc q.qcnt = q.qcnt + 1 := by
      have hmax := h.max
      exact Nat.mod_eq_of_lt (by omega)
    refine ⟨rfl, ⟨h.prios, h.max, ?_, ?_, ?_⟩, rfl, rfl⟩
    · show u16Inc q.qcnt = total (push q.queuelist prio pkt)
      rw [hinc, total_push, hcount]
    · show u16Inc q.qcnt ≤ q.qmax
      rw [hinc]
      exact hboth.2
    · intro p hp
      replace hp : (if q.hiPrio < prio then prio else q.hiPrio) < p := hp
      show push q.queuelist prio pkt p = []
      have hne : p ≠ prio := by
        rintro rfl
        split at hp <;> omega
      rw [push_of_ne pkt hne]
      apply h.above
      split at hp <;> omega
  · next hge =>
    rw [frameEnq, if_neg (by omega)]

theorem Sound.isEmpty (h : Sound q n) :
    isFramequeueEmpty q = true ↔ total q.queuelist = 0 := by
  rw [isFramequeueEmpty, Bool.not_eq_true', decide_eq_false_iff_not, Nat.not_lt, Nat.le_zero,
    List.sum_eq_zero_iff, total_eq_zero]
  constructor
  · intro hz p
    by_cases hp : p ≤ q.hiPrio
    · apply List.eq_nil_of_length_eq_zero
      apply hz
      exact List.mem_map.mpr ⟨p, List.mem_filter.mpr ⟨List.mem_finRange p, decide_eq_true hp⟩, rfl⟩
    · exact h.above p (by omega)
  · intro hz n hn
    obtain ⟨p, -, rfl⟩ := List.mem_map.mp hn
    rw [hz p, List.length_nil]

/-- Either the lane it stops at holds a frame, or it is the lowest. -/
theorem lowerHi_above (queuelist : Lanes 8 α) {prio : ℕ} (h : prio < 8)
    (habove : ∀ p : Fin 8, prio < p.val → queuelist p = []) :
    (∀ p, lowerHi queuelist prio h < p → queuelist p = []) ∧
      (queuelist (lowerHi queuelist prio h) = [] → lowerHi queuelist prio h = 0) := by
  induction prio with
  | zero => exact ⟨fun p hp => habove p hp, fun _ => rfl⟩
  | succ prio ih =>
    rw [lowerHi]
    split
    · next hempty =>
      apply ih
      intro p hp
      by_cases he : p.val = prio + 1
      · have hpe : p = ⟨prio + 1, h⟩ := Fin.ext he
        rw [hpe]
        exact List.isEmpty_iff.mp hempty
      · exact habove p (by omega)
    · next hempty =>
      refine ⟨fun p hp => habove p hp, fun hnil => absurd ?_ hempty⟩
      rw [hnil]
      rfl

/-- What is dequeued is the oldest frame of the highest priority that has one. -/
theorem Sound.dequeue (h : Sound q n) :
    (total q.queuelist = 0 ∧ frameDequeue q = (none, q)) ∨
      ∃ p a t, IsTop q.queuelist p ∧ q.queuelist p = a :: t ∧ (frameDequeue q).1 = some a ∧
        (frameDequeue q).2.queuelist = pop q.queuelist p ∧ Sound (frameDequeue q).2 n ∧
        (frameDequeue q).2.qmax = q.qmax := by
  rw [frameDequeue]
  by_cases hz : q.qcnt = 0
  · left
    rw [if_pos hz]
    exact ⟨h.count ▸ hz, rfl⟩
  right
  rw [if_neg hz]
  obtain ⟨habove, hlow⟩ := lowerHi_above q.queuelist q.hiPrio.isLt fun p hp => h.above p hp
  set p := lowerHi q.queuelist q.hiPrio q.hiPrio.isLt with hpdef
  have hne : q.queuelist p ≠ [] := by
    intro hnil
    apply hz
    rw [h.count, total_eq_zero]
    intro r
    by_cases hr : p < r
    · exact habove r hr
    · have hr0 : r = p := by
        have hp0 := hlow hnil
        omega
      rw [hr0, hnil]
  obtain ⟨a, t, hat⟩ := List.exists_cons_of_ne_nil hne
  refine ⟨p, a, t, ⟨hne, habove⟩, hat, ?_⟩
  dsimp only
  rw [hat]
  have hdec : u16Dec q.qcnt + 1 = q.qcnt := by
    have hmax := h.max
    have hbound := h.bound
    rw [u16Dec]
    omega
  have htot := total_pop hne
  have hcount := h.count
  have hbound := h.bound
  refine ⟨rfl, rfl, ⟨h.prios, h.max, ?_, ?_, ?_⟩, rfl⟩
  · show u16Dec q.qcnt = total (pop q.queuelist p)
    omega
  · show u16Dec q.qcnt ≤ q.qmax
    omega
  · intro r hr
    show pop q.queuelist p r = []
    rw [pop_of_ne (by rintro rfl; exact absurd hr (Nat.lt_irrefl _))]
    exact habove r hr

theorem iterate_u16Dec {n c : ℕ} (hn : n ≤ c) (hc : c < 65536) : u16Dec^[n] c = c - n := by
  induction n with
  | zero => rfl
  | succ n ih =>
    rw [Function.iterate_succ_apply', ih (by omega), u16Dec]
    omega

theorem length_flatMap_finRange (l : Lanes 8 α) :
    ((List.finRange 8).flatMap l).length = total l := by
  rw [List.length_flatMap, total, Fin.sum_univ_def]

theorem Sound.flush (h : Sound q 8) :
    (frameQueueFlush q).1 = (List.finRange 8).flatMap q.queuelist ∧
      (frameQueueFlush q).2.queuelist = (fun _ => []) ∧ Sound (frameQueueFlush q).2 8 := by
  have hall : ∀ p : Fin 8, p.val < q.numPrio := fun p => by
    rw [h.prios]
    exact p.isLt
  have hfilter : (List.finRange 8).filter (·.val < q.numPrio) = List.finRange 8 :=
    List.filter_eq_self.mpr fun p _ => decide_eq_true (hall p)
  have hlist : (frameQueueFlush q).2.queuelist = fun _ => [] := by
    funext p
    exact if_pos (hall p)
  have hfreed : (frameQueueFlush q).1 = (List.finRange 8).flatMap q.queuelist := by
    rw [frameQueueFlush, hfilter]
  have hcnt : (frameQueueFlush q).2.qcnt = 0 := by
    show u16Dec^[(frameQueueFlush q).1.length] q.qcnt = 0
    have hmax := h.max
    have hbound := h.bound
    rw [hfreed, length_flatMap_finRange, ← h.count, iterate_u16Dec (Nat.le_refl _) (by omega),
      Nat.sub_self]
  refine ⟨hfreed, hlist, ⟨h.prios, h.max, ?_, ?_, ?_⟩⟩
  · rw [hcnt, hlist]
    exact (total_eq_zero.mpr fun _ => rfl).symm
  · rw [hcnt]
    exact Nat.zero_le _
  · intro p _
    rw [hlist]

end FrameQueue

end NervesSystem
