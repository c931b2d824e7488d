import NervesSystem.RxReorder
import NervesSystem.Library.Reorder
import Mathlib.Data.List.Perm.Subperm
import Mathlib.Data.Nat.Bitwise

namespace NervesSystem.RxReorder

open Trace Reorder

/-- The twelve bits on the air of a number that the sender counts without bound. -/
def Stands (s : UInt16) (n : ℤ) : Prop :=
  (s.toNat : ℤ) = n % 4096

theorem toNat_and_fff (x : UInt16) : (x &&& 0xFFF).toNat = x.toNat % 4096 := by
  rw [UInt16.toNat_and]
  exact Nat.and_two_pow_sub_one_eq_mod x.toNat 12

theorem snLess_iff (a b : UInt16) :
    snLess a b = true ↔ 2048 ≤ (a.toNat + (65536 - b.toNat)) % 4096 := by
  have hb := b.toNat_lt
  have hsub : (a - b).toNat = (65536 - b.toNat + a.toNat) % 65536 := UInt16.toNat_sub a b
  have hbit : (a - b).toNat.testBit 11 = decide ((a - b).toNat / 2048 % 2 = 1) :=
    Nat.testBit_eq_decide_div_mod_eq
  rw [snLess, bne_iff_ne, ne_eq, ← UInt16.toNat_inj, UInt16.toNat_and,
    show (0x800 : UInt16).toNat = 2 ^ 11 from rfl, show (0 : UInt16).toNat = 0 from rfl,
    Nat.and_two_pow, hbit, hsub]
  by_cases h : (65536 - b.toNat + a.toNat) % 65536 / 2048 % 2 = 1
  · simp only [h, decide_true, Bool.toNat_true]
    omega
  · simp only [h, decide_false, Bool.toNat_false]
    omega

/-- Numbers less than half the range apart compare as what stands for them. -/
theorem snLess_of_stands {a b : UInt16} {m n : ℤ} (ha : Stands a m) (hb : Stands b n)
    (h1 : n - 2048 ≤ m) (h2 : m < n + 2048) : snLess a b = decide (m < n) := by
  unfold Stands at ha hb
  rw [Bool.eq_iff_iff, snLess_iff, decide_eq_true_iff]
  have := b.toNat_lt
  omega

theorem snEqual_of_stands {a b : UInt16} {m n : ℤ} (ha : Stands a m) (hb : Stands b n)
    (h1 : n - 2048 ≤ m) (h2 : m < n + 2048) : snEqual a b = decide (m = n) := by
  unfold Stands at ha hb
  rw [Bool.eq_iff_iff, snEqual, beq_iff_eq, decide_eq_true_iff, ← UInt16.toNat_inj]
  omega

theorem Stands.succ {s : UInt16} {n : ℤ} (h : Stands s n) :
    Stands ((s + 1) &&& 0xFFF) (n + 1) := by
  unfold Stands at h ⊢
  rw [toNat_and_fff, UInt16.toNat_add, show (1 : UInt16).toNat = 1 from rfl]
  omega

theorem Stands.ne_fresh {s : UInt16} {n : ℤ} (h : Stands s n) : s ≠ 0xFFFF := by
  rintro rfl
  unfold Stands at h
  rw [show (0xFFFF : UInt16).toNat = 65535 from rfl] at h
  omega

theorem Stands.window_end {s : UInt16} {n : ℤ} (h : Stands s n) :
    Stands ((s + 64 - 1) &&& 0xFFF) (n + 63) := by
  unfold Stands at h ⊢
  have := s.toNat_lt
  rw [toNat_and_fff, UInt16.toNat_sub, UInt16.toNat_add, show (1 : UInt16).toNat = 1 from rfl,
    show (64 : UInt16).toNat = 64 from rfl]
  omega

/-- The two ways to go back by a window, one of them around zero. -/
theorem Stands.window_start {s : UInt16} {n : ℤ} (h : Stands s n) :
    Stands (if 64 - 1 ≤ s then s - (64 - 1) else 0xFFF - (64 - (s + 1)) + 1) (n - 63) := by
  unfold Stands at h ⊢
  have hlt : s.toNat < 4096 := by omega
  split_ifs with hs
  · have hs : 63 ≤ s.toNat := UInt16.le_iff_toNat_le.mp hs
    rw [UInt16.toNat_sub, show (64 - 1 : UInt16).toNat = 63 from rfl]
    omega
  · have hs : ¬63 ≤ s.toNat := fun h => hs (UInt16.le_iff_toNat_le.mpr h)
    simp only [UInt16.toNat_sub, UInt16.toNat_add, show (1 : UInt16).toNat = 1 from rfl,
      show (64 : UInt16).toNat = 64 from rfl, show (0xFFF : UInt16).toNat = 4095 from rfl]
    omega

/-- The control and the buffer with unbounded numbers are in step. -/
structure Follows (c : ReordCtrl) (b : Buffer RecvMsdu) : Prop where
  wsize : c.wsizeB = reorderWinsize
  next : Stands c.indSn b.next
  held : c.reordList = b.held.map Prod.snd
  numbers : ∀ p ∈ b.held, Stands p.2.seqNum p.1

theorem reordNeedCheck_follows {c : ReordCtrl} {b : Buffer RecvMsdu} (h : Follows c b)
    {s : UInt16} {n : ℤ} (hs : Stands s n) (h1 : b.next - 2048 ≤ n) (h2 : n < b.next + 2048) :
    (reordNeedCheck c s).1 = decide (n < b.next) ∧
      ∃ x, (reordNeedCheck c s).2 = { c with indSn := x } ∧
        Stands x (if n < b.next then b.next else slide 64 b.next n) := by
  have hsize : c.wsizeB.toUInt16 = 64 := by rw [h.wsize]; rfl
  have hlate := snLess_of_stands hs h.next h1 h2
  have heq := snEqual_of_stands hs h.next h1 h2
  simp only [reordNeedCheck, if_neg h.next.ne_fresh, hlate, heq, hsize, decide_eq_true_eq]
  by_cases hlt : n < b.next
  · simp only [if_pos hlt, decide_eq_true hlt, true_and]
    exact ⟨_, rfl, h.next⟩
  by_cases hn : n = b.next
  · simp only [if_neg hlt, if_pos hn, slide, decide_eq_false hlt, true_and]
    exact ⟨_, rfl, h.next.succ⟩
  have hend := snLess_of_stands h.next.window_end hs (by omega) (by omega)
  simp only [if_neg hlt, if_neg hn, hend, slide, decide_eq_true_eq, decide_eq_false hlt]
  by_cases hw : b.next + 63 < n
  · simp only [if_pos hw, if_pos (show b.next + 64 ≤ n by omega), true_and]
    exact ⟨_, rfl, by
      have := hs.window_start
      rwa [show n - 64 + 1 = n - 63 by omega]⟩
  · simp only [if_neg hw, if_neg (show ¬b.next + 64 ≤ n by omega), true_and]
    exact ⟨_, rfl, h.next⟩

theorem reordRxframeEnqueue_place {f : RecvMsdu} {n : ℤ} (hf : Stands f.seqNum n)
    {l : List (ℤ × RecvMsdu)} (hl : ∀ p ∈ l, Stands p.2.seqNum p.1)
    (hnear : ∀ p ∈ l, n - 2048 ≤ p.1 ∧ p.1 < n + 2048) :
    reordRxframeEnqueue f (l.map Prod.snd) = (place n f l).map (·.map Prod.snd) := by
  induction l with
  | nil => rfl
  | cons p l ih =>
    have hp := hl p (by simp)
    have hpn := hnear p (by simp)
    have ih := ih (fun q hq => hl q (by simp [hq])) (fun q hq => hnear q (by simp [hq]))
    simp only [List.map_cons, reordRxframeEnqueue, place, ih,
      snLess_of_stands hp hf hpn.1 hpn.2, snEqual_of_stands hp hf hpn.1 hpn.2, decide_eq_true_eq]
    split_ifs <;> simp [Function.comp_def]

/-- The walk of the code ends at the number that the buffer wants next, and it meets a gap where the
buffer keeps something. -/
theorem processWalk_settle {s : UInt16} {next lo top : ℤ} {l : List (ℤ × RecvMsdu)}
    (hs : Stands s next) (hl : ∀ p ∈ l, Stands p.2.seqNum p.1)
    (hspan : top < lo + 2047) (hlo : lo ≤ next) (htop : next ≤ top + 1)
    (hin : ∀ p ∈ l, lo ≤ p.1 ∧ p.1 ≤ top) :
    Stands (processWalk s (l.map Prod.snd)).1 (settle next l).2.next ∧
      ((processWalk s (l.map Prod.snd)).2 = true ↔ (settle next l).2.held ≠ []) := by
  induction l generalizing s next with
  | nil => exact ⟨hs, by simp [processWalk, settle]⟩
  | cons p l ih =>
    have hp := hl p (by simp)
    have hpi := hin p (by simp)
    have hl : ∀ q ∈ l, Stands q.2.seqNum q.1 := fun q hq => hl q (by simp [hq])
    have hin : ∀ q ∈ l, lo ≤ q.1 ∧ q.1 ≤ top := fun q hq => hin q (by simp [hq])
    have hless := snLess_of_stands hs hp (by omega) (by omega)
    have heq := snEqual_of_stands hs hp (by omega) (by omega)
    simp only [List.map_cons, processWalk, settle, hless, heq, Bool.not_eq_true',
      decide_eq_false_iff_not, decide_eq_true_eq]
    by_cases hle : p.1 ≤ next
    · rw [if_pos (by omega), if_pos hle]
      by_cases hn : p.1 = next
      · rw [if_pos hn.symm, if_pos hn]
        exact ih hs.succ hl (by omega) (by omega) hin
      · rw [if_neg (fun h => hn h.symm), if_neg hn]
        exact ih hs hl hlo htop hin
    · rw [if_neg (by omega), if_neg hle]
      exact ⟨hs, by simp⟩

theorem span_append {β : Type*} {p : β → Bool} {l l' : List β} (h : ∀ x ∈ l, p x = true)
    (h' : ∀ x ∈ l', p x = false) :
    (l ++ l').takeWhile p = l ∧ (l ++ l').dropWhile p = l' := by
  rw [List.takeWhile_append_of_pos h, List.dropWhile_append_of_pos h]
  cases l' with
  | nil => simp
  | cons x l' => simp [h' x (by simp)]

/-- The numbers that a pass over the list meets lie in one half of the range. -/
structure Span (lo top next : ℤ) (l : List (ℤ × RecvMsdu)) : Prop where
  narrow : top < lo + 2047
  le_next : lo ≤ next
  next_le : next ≤ top + 1
  mem : ∀ p ∈ l, lo ≤ p.1 ∧ p.1 ≤ top
  stands : ∀ p ∈ l, Stands p.2.seqNum p.1
  ascending : Ascending l

/-- The two passes of the code over its list do what the buffer does in one. -/
theorem passes_settle {c : ReordCtrl} {s : UInt16} {lo top next : ℤ} {l : List (ℤ × RecvMsdu)}
    (hw : c.wsizeB = reorderWinsize) (hs : Stands s next) (hl : Span lo top next l)
    (hc : c.reordList = l.map Prod.snd) (hi : c.indSn = (processWalk s c.reordList).1) :
    ((processWalk s c.reordList).2 = true ↔ (settle next l).2.held ≠ []) ∧
      (reordRxframesInd c).1 = (settle next l).1.map Prod.snd ∧
      Follows (reordRxframesInd c).2 (settle next l).2 := by
  obtain ⟨hwalk, hgap⟩ := processWalk_settle hs hl.stands hl.narrow hl.le_next hl.next_le hl.mem
  rw [← hc] at hwalk hgap
  rw [← hi] at hwalk
  have hle := le_settle next l
  have htop := settle_le hl.next_le fun p hp => (hl.mem p hp).2
  have hlo := hl.le_next
  have hnar := hl.narrow
  have hdue : ∀ f ∈ (settle next l).1.map Prod.snd,
      (!snLess c.indSn f.seqNum) = true := by
    intro f hf
    obtain ⟨p, hp, rfl⟩ := List.mem_map.mp hf
    have hm := hl.mem p (mem_of_mem_due hp)
    have hlt := settle_due next l p hp
    rw [snLess_of_stands hwalk (hl.stands p (mem_of_mem_due hp)) (by omega) (by omega),
      decide_eq_false (by omega), Bool.not_false]
  have hheld : ∀ f ∈ (settle next l).2.held.map Prod.snd,
      (!snLess c.indSn f.seqNum) = false := by
    intro f hf
    obtain ⟨p, hp, rfl⟩ := List.mem_map.mp hf
    have hm := hl.mem p (mem_of_mem_held hp)
    have hlt := settle_held hl.ascending p hp
    rw [snLess_of_stands hwalk (hl.stands p (mem_of_mem_held hp)) (by omega) (by omega),
      decide_eq_true hlt, Bool.not_true]
  obtain ⟨htake, hdrop⟩ := span_append hdue hheld
  rw [← List.map_append, settle_append, ← hc] at htake hdrop
  exact ⟨hgap, htake, hw, hwalk, hdrop, fun p hp => hl.stands p (mem_of_mem_held hp)⟩

theorem reordRxframesProcess_false (c : ReordCtrl) : reordRxframesProcess c false =
    ((processWalk c.indSn c.reordList).2,
      { c with indSn := (processWalk c.indSn c.reordList).1 }) := by
  obtain ⟨enable, indSn, wsizeB, l, timerPending, timerExpired, workPending⟩ := c
  cases l <;> rfl

/-- The code and the buffer come to one verdict. -/
inductive SameVerdict : Verdict → Reorder.Verdict RecvMsdu → Prop
  | late : SameVerdict .late .late
  | duplicate : SameVerdict .duplicate .duplicate
  | queued (due : List (ℤ × RecvMsdu)) : SameVerdict (.queued (due.map Prod.snd)) (.queued due)

/-- Frames are held only while the timer runs, or its handler or its work is due. -/
def Armed (c : ReordCtrl) : Prop :=
  c.reordList ≠ [] → c.timerPending = true ∨ c.timerExpired = true ∨ c.workPending = true

theorem reordUnit_follows {c : ReordCtrl} {b : Buffer RecvMsdu} (h : Follows c b)
    (hb : b.Valid 64) {f : RecvMsdu} {n : ℤ} (hf : Stands f.seqNum n)
    (h1 : b.next - 2048 ≤ n) (h2 : n < b.next + 2048) :
    SameVerdict (reordUnit c f).1 (b.accept 64 n f).1 ∧
      Follows (reordUnit c f).2 (b.accept 64 n f).2 ∧ (Armed c → Armed (reordUnit c f).2) := by
  obtain ⟨hlate, x, hx, hst⟩ := reordNeedCheck_follows h hf h1 h2
  have hnear : ∀ p ∈ b.held, b.next < p.1 ∧ p.1 < b.next + 64 :=
    fun p hp => ⟨hb.ahead p hp, hb.within p hp⟩
  simp only [reordUnit, hlate, hx]
  rcases accept_cases 64 b n f with ⟨hn, he⟩ | ⟨hn, hp, he⟩ | ⟨hn, l, hp, he⟩
  · rw [he, if_pos (decide_eq_true hn)]
    rw [if_pos hn] at hst
    exact ⟨.late, ⟨h.wsize, hst, h.held, h.numbers⟩, id⟩
  · have hnone : reordRxframeEnqueue f c.reordList = none := by
      rw [h.held, reordRxframeEnqueue_place hf h.numbers (fun p hp => by
        have := hnear p hp
        omega), hp]
      rfl
    rw [he, if_neg (by simpa using hn)]
    rw [if_neg (by omega)] at hst
    simp only [hnone]
    exact ⟨.duplicate, ⟨h.wsize, hst, h.held, h.numbers⟩, id⟩
  · have hsome : reordRxframeEnqueue f c.reordList = some (l.map Prod.snd) := by
      rw [h.held, reordRxframeEnqueue_place hf h.numbers (fun p hp => by
        have := hnear p hp
        omega), hp]
      rfl
    rw [he, if_neg (by simpa using hn)]
    rw [if_neg (by omega)] at hst
    have hmem := fun p => (place_perm hp).mem_iff (a := p)
    have hspan : Span (if b.next + 64 ≤ n then b.next + 1 else b.next) (max (b.next + 63) n)
        (slide 64 b.next n) l := by
      refine ⟨by split_ifs <;> omega, ?_, ?_, fun p hpl => ?_, fun p hpl => ?_,
        place_ascending hb.ascending hp⟩
      · unfold slide
        split_ifs <;> omega
      · have := slide_le (w := 64) (by omega) hn
        omega
      · rcases List.mem_cons.mp ((hmem p).mp hpl) with rfl | hpb
        · dsimp only
          split_ifs <;> omega
        · have := hnear p hpb
          split_ifs <;> omega
      · rcases List.mem_cons.mp ((hmem p).mp hpl) with rfl | hpb
        · exact hf
        · exact h.numbers p hpb
    let w := processWalk x (l.map Prod.snd)
    obtain ⟨hgap, hdue, hfol⟩ := passes_settle
      (c := { c with indSn := w.1, reordList := l.map Prod.snd, timerPending := w.2 })
      h.wsize hst hspan rfl rfl
    simp only [hsome, reordRxframesProcess_false]
    refine ⟨?_, hfol, fun _ hne => .inl (hgap.mpr ?_)⟩
    · rw [hdue]
      exact .queued _
    · rintro hnil
      exact hne (by rw [hfol.held, hnil, List.map_nil])

theorem reordTimeoutWorker_follows {c : ReordCtrl} {b : Buffer RecvMsdu} (h : Follows c b)
    (hb : b.Valid 64) : (reordTimeoutWorker c).1 = b.expire.1.map Prod.snd ∧
      Follows (reordTimeoutWorker c).2 b.expire.2 ∧ Armed (reordTimeoutWorker c).2 := by
  have hc := h.held
  cases hl : b.held with
  | nil =>
    rw [hl, List.map_nil] at hc
    simp only [reordTimeoutWorker, reordRxframesProcess, hc, Buffer.expire, hl, reordRxframesInd,
      Bool.false_eq_true, ↓reduceIte, List.takeWhile_nil, List.dropWhile_nil, List.map_nil,
      true_and]
    exact ⟨⟨h.wsize, h.next, by simp [hl], h.numbers⟩, fun hne => absurd rfl hne⟩
  | cons q l =>
    have hq := hb.ahead q (by simp [hl])
    have hspan : Span b.next (b.next + 63) q.1 b.held := by
      refine ⟨by omega, by omega, ?_, fun p hp => ?_, h.numbers, hb.ascending⟩
      · have := hb.within q (by simp [hl])
        omega
      · have h1 := hb.ahead p hp
        have h2 := hb.within p hp
        omega
    let w := processWalk q.2.seqNum (b.held.map Prod.snd)
    obtain ⟨hgap, hdue, hfol⟩ := passes_settle
      (c := { c with indSn := w.1, reordList := b.held.map Prod.snd, workPending := false,
                     timerPending := if w.2 then true else c.timerPending })
      h.wsize (h.numbers q (by simp [hl])) hspan rfl rfl
    have he : b.expire = settle q.1 b.held := by simp only [Buffer.expire, hl]
    have hwork : reordTimeoutWorker c = reordRxframesInd
        { c with indSn := w.1, reordList := b.held.map Prod.snd, workPending := false,
                 timerPending := if w.2 then true else c.timerPending } := by
      simp only [reordTimeoutWorker, reordRxframesProcess, hc, hl, List.map_cons, ↓reduceIte, w]
      split_ifs <;> rfl
    rw [hwork, he]
    refine ⟨hdue, hfol, fun hne => .inl ?_⟩
    have hw : w.2 = true := hgap.mpr fun hnil => hne (by rw [hfol.held, hnil, List.map_nil])
    simp only [reordRxframesInd, hw, ↓reduceIte]

/-- What the control of one traffic id meets: a frame, the end of its timer, its handler, its
work. -/
inductive CtrlEvent
  | unit (f : RecvMsdu)
  | timer
  | handler
  | work

def ctrlStep (c : ReordCtrl) : CtrlEvent → ReordCtrl
  | .unit f => (reordUnit c f).2
  | .timer => expireTimer c
  | .handler => reordTimeoutHandler c
  | .work => (reordTimeoutWorker c).2

/-- The frames that an event hands on from the list. -/
def released (c : ReordCtrl) : CtrlEvent → List RecvMsdu
  | .unit f =>
    match (reordUnit c f).1 with
    | .queued due => due
    | _ => []
  | .timer | .handler => []
  | .work => (reordTimeoutWorker c).1

/-- An event of the code with the number of its frame, as the buffer meets it. -/
def meant : ℤ × CtrlEvent → List (Event RecvMsdu)
  | (n, .unit f) => [.arrive n f]
  | (_, .timer) | (_, .handler) => []
  | (_, .work) => [.expire]

def Carries (p : ℤ × CtrlEvent) : Prop :=
  ∀ f, p.2 = .unit f → Stands f.seqNum p.1

/-- A control that has met no frame yet. -/
structure Fresh (c : ReordCtrl) : Prop where
  indSn : c.indSn = 0xFFFF
  wsize : c.wsizeB = reorderWinsize
  empty : c.reordList = []

theorem reordUnit_fresh {c : ReordCtrl} (h : Fresh c) (f : RecvMsdu) :
    reordUnit c f = reordUnit { c with indSn := f.seqNum } f := by
  have hless : snLess f.seqNum f.seqNum = false := by
    simp [snLess]
  have heq : snEqual f.seqNum f.seqNum = true := beq_self_eq_true _
  have hf : f.seqNum.1 ≠ 0xFFFF := fun he => by
    have := f.seqNum.2
    rw [he] at this
    exact absurd this (by decide)
  simp only [reordUnit, reordNeedCheck, h.indSn, hf, hless, heq, ↓reduceIte, Bool.false_eq_true]

/-- The control and the buffer after the same events. -/
inductive InStep : ReordCtrl → Option (Buffer RecvMsdu) → Prop
  | fresh {c : ReordCtrl} (h : Fresh c) : InStep c none
  | running {c : ReordCtrl} {b : Buffer RecvMsdu} (h : Follows c b) (hb : b.Valid 64) :
      InStep c (some b)

/-- A frame takes control and buffer to one verdict, from the first frame on. -/
theorem InStep.unit {c : ReordCtrl} {b : Option (Buffer RecvMsdu)} (h : InStep c b) {n : ℤ}
    {f : RecvMsdu} (hf : Stands f.seqNum n) (hn : Close 2048 2048 b (.arrive n f)) :
    SameVerdict (reordUnit c f).1 (verdict 64 b n f).1 ∧
      InStep (reordUnit c f).2 (some (verdict 64 b n f).2) ∧
      (Armed c → Armed (reordUnit c f).2) := by
  cases h with
  | fresh h =>
    have hfol : Follows { c with indSn := f.seqNum } ⟨n, []⟩ :=
      ⟨h.wsize, hf, h.empty, by simp⟩
    have hval : (⟨n, []⟩ : Buffer RecvMsdu).Valid 64 := Buffer.fresh_valid 64 n
    rw [reordUnit_fresh h]
    obtain ⟨hv, hc, ha⟩ :=
      reordUnit_follows hfol hval hf (by dsimp only; omega) (by dsimp only; omega)
    exact ⟨hv, .running hc (hval.accept (by omega) n f), ha⟩
  | running h hb =>
    obtain ⟨h1, h2⟩ := hn _ rfl
    obtain ⟨hv, hc, ha⟩ := reordUnit_follows h hb hf h1 h2
    exact ⟨hv, .running hc (hb.accept (by omega) n f), ha⟩

theorem InStep.work {c : ReordCtrl} {b : Option (Buffer RecvMsdu)} (h : InStep c b) :
    (reordTimeoutWorker c).1 = (Reorder.released 64 b .expire).map Prod.snd ∧
      InStep (reordTimeoutWorker c).2 (step 64 b .expire) ∧ Armed (reordTimeoutWorker c).2 := by
  cases h with
  | fresh h =>
    have hw : reordTimeoutWorker c = ([], { c with workPending := false }) := by
      simp [reordTimeoutWorker, reordRxframesProcess, reordRxframesInd, h.empty]
    rw [hw]
    exact ⟨rfl, .fresh ⟨h.indSn, h.wsize, h.empty⟩, fun hne => absurd h.empty hne⟩
  | running h hb =>
    obtain ⟨hdue, hc, ha⟩ := reordTimeoutWorker_follows h hb
    exact ⟨hdue, .running hc hb.expire, ha⟩

/-- What timer and work are at does not matter to the order. -/
theorem InStep.congr {c c' : ReordCtrl} {b : Option (Buffer RecvMsdu)} (h : InStep c b)
    (hi : c'.indSn = c.indSn) (hw : c'.wsizeB = c.wsizeB) (hl : c'.reordList = c.reordList) :
    InStep c' b := by
  cases h with
  | fresh h => exact .fresh ⟨hi.trans h.indSn, hw.trans h.wsize, hl.trans h.empty⟩
  | running h hb =>
    exact .running ⟨hw.trans h.wsize, hi.symm ▸ h.next, hl.trans h.held, h.numbers⟩ hb

theorem released_of_sameVerdict {c : ReordCtrl} {f : RecvMsdu} {b : Option (Buffer RecvMsdu)}
    {n : ℤ} (h : SameVerdict (reordUnit c f).1 (verdict 64 b n f).1) :
    released c (.unit f) = (Reorder.released 64 b (.arrive n f)).map Prod.snd := by
  simp only [released, Reorder.released]
  generalize (reordUnit c f).1 = v, (verdict 64 b n f).1 = v' at h
  cases h <;> rfl

/-- The code with its twelve bits does what the buffer does with unbounded numbers. -/
theorem InStep.run {es : List (ℤ × CtrlEvent)} {c : ReordCtrl} {b : Option (Buffer RecvMsdu)}
    (h : InStep c b) (hes : ∀ p ∈ es, Carries p)
    (hclose : Guarded (step 64) (Close 2048 2048) b (es.flatMap meant)) :
    emitted ctrlStep released c (es.map Prod.snd) =
      (emitted (step 64) (Reorder.released 64) b (es.flatMap meant)).map Prod.snd := by
  induction es generalizing c b with
  | nil => rfl
  | cons p es ih =>
    have hp := hes p (by simp)
    have hrest : ∀ q ∈ es, Carries q := fun q hq => hes q (by simp [hq])
    obtain ⟨n, e⟩ := p
    cases e with
    | unit f =>
      obtain ⟨hn, hclose⟩ := hclose
      obtain ⟨hv, hc, -⟩ := h.unit (hp f rfl) hn
      have hrun := ih hc hrest hclose
      have hrel := released_of_sameVerdict hv
      simp only [List.map_cons, List.flatMap_cons, meant, List.singleton_append, emitted,
        List.map_append, hrel, ctrlStep, step, hrun]
    | timer => exact ih (h.congr rfl rfl rfl) hrest hclose
    | handler => exact ih (h.congr rfl rfl rfl) hrest hclose
    | work =>
      obtain ⟨hw, hc, -⟩ := h.work
      have hrun := ih hc hrest hclose.2
      simp only [List.map_cons, List.flatMap_cons, meant, List.singleton_append, emitted,
        List.map_append, released, ctrlStep, hw, hrun]

theorem inStep_init : InStep .init none :=
  .fresh ⟨rfl, rfl, rfl⟩

/-- Frames that the list hands on go up in the order the sender numbered them, each at most once,
whenever the timer ends or its work runs. -/
theorem released_in_order (es : List (ℤ × CtrlEvent)) (hes : ∀ p ∈ es, Carries p)
    (hnear : Guarded highest (Near 2047 1984) none (es.flatMap meant)) :
    ∃ out : List (ℤ × RecvMsdu),
      emitted ctrlStep released .init (es.map Prod.snd) = out.map Prod.snd ∧
      out.Pairwise (·.1 < ·.1) ∧ ∀ p ∈ out, (p.1, CtrlEvent.unit p.2) ∈ es := by
  have hclose : Guarded (step 64) (Close 2048 2048) none (es.flatMap meant) :=
    close_of_near (by omega) (.inl ⟨rfl, rfl⟩) hnear
  refine ⟨_, inStep_init.run hes hclose, emitted_ascending (by omega) _, fun p hp => ?_⟩
  have hmem := mem_arrivals_of_emitted p hp
  obtain ⟨⟨n, e⟩, hne, hm⟩ := List.mem_flatMap.mp hmem
  cases e with
  | unit f =>
    simp only [meant, List.mem_singleton, Event.arrive.injEq] at hm
    rw [hm.1, hm.2]
    exact hne
  | timer | handler | work => simp [meant] at hm

/-- A frame lost where the numbers wrap: its successor waits for the work, and it comes too late. -/
theorem released_in_order_wrapped :
    let f (s : SeqNum) : RecvMsdu := ⟨⟨[], []⟩, 0, s, true, false⟩
    let es : List (ℤ × CtrlEvent) := [(4095, .unit (f ⟨4095, by decide⟩)),
      (4097, .unit (f ⟨1, by decide⟩)), (0, .timer), (0, .handler), (0, .work),
      (4096, .unit (f ⟨0, by decide⟩))]
    emitted ctrlStep released .init (es.map Prod.snd) = [f ⟨4095, by decide⟩, f ⟨1, by decide⟩] ∧
    ∃ out : List (ℤ × RecvMsdu),
      emitted ctrlStep released .init (es.map Prod.snd) = out.map Prod.snd ∧
      out.Pairwise (·.1 < ·.1) ∧ ∀ p ∈ out, (p.1, CtrlEvent.unit p.2) ∈ es := by
  intro f es
  refine ⟨by decide, released_in_order es ?_ ?_⟩
  · intro p hp f' hf
    simp only [es, List.mem_cons, List.not_mem_nil, or_false] at hp
    rcases hp with rfl | rfl | rfl | rfl | rfl | rfl <;> cases hf <;> rfl
  · simp [es, meant, Guarded, Near, highest]

/-- Every sequence number stands for one number that is close enough. -/
theorem exists_number (b : Option (Buffer RecvMsdu)) (f : RecvMsdu) :
    ∃ n, Stands f.seqNum n ∧ Close 2048 2048 b (.arrive n f) := by
  have hs := f.seqNum.2
  cases b with
  | none => exact ⟨f.seqNum.1.toNat, by unfold Stands; omega, by simp [Close]⟩
  | some b =>
    refine ⟨b.next - 2048 + ((f.seqNum.1.toNat : ℤ) - (b.next - 2048)) % 4096, ?_, ?_⟩
    · unfold Stands
      omega
    · intro b' hb
      rw [← Option.some.inj hb]
      omega

/-- Whatever frame comes, the control stays in step with some buffer. -/
theorem InStep.unit_any {c : ReordCtrl} {b : Option (Buffer RecvMsdu)} (h : InStep c b)
    (f : RecvMsdu) : ∃ b', InStep (reordUnit c f).2 b' := by
  obtain ⟨n, hs, hn⟩ := exists_number b f
  exact ⟨_, (h.unit hs hn).2.1⟩

theorem InStep.armed_unit {c : ReordCtrl} {b : Option (Buffer RecvMsdu)} (h : InStep c b)
    (f : RecvMsdu) (ha : Armed c) : Armed (reordUnit c f).2 := by
  obtain ⟨n, hs, hn⟩ := exists_number b f
  exact (h.unit hs hn).2.2 ha

theorem reordRxframesInd_append (c : ReordCtrl) :
    (reordRxframesInd c).1 ++ (reordRxframesInd c).2.reordList = c.reordList :=
  List.takeWhile_append_dropWhile

theorem reordRxframesProcess_reordList (c : ReordCtrl) (bforced : Bool) :
    (reordRxframesProcess c bforced).2.reordList = c.reordList := by
  obtain ⟨enable, indSn, wsizeB, l, timerPending, timerExpired, workPending⟩ := c
  cases l <;> rfl

theorem reordTimeoutWorker_append (c : ReordCtrl) :
    (reordTimeoutWorker c).1 ++ (reordTimeoutWorker c).2.reordList = c.reordList := by
  have h := reordRxframesProcess_reordList { c with workPending := false } true
  rw [reordTimeoutWorker, reordRxframesInd_append]
  split_ifs <;> exact h

/-- A run of the work lets the first frame held go. -/
theorem InStep.work_ne_nil {c : ReordCtrl} {b : Option (Buffer RecvMsdu)} (h : InStep c b)
    (hc : c.reordList ≠ []) : (reordTimeoutWorker c).1 ≠ [] := by
  cases h with
  | fresh h => exact absurd h.empty hc
  | @running b h hb =>
    obtain ⟨hdue, -, -⟩ := reordTimeoutWorker_follows h hb
    rw [h.held] at hc
    rw [hdue, Buffer.expire]
    cases hl : b.held with
    | nil => simp [hl] at hc
    | cons p l => simp [settle]

/-- How far a frame lies behind the number awaited. -/
def ahead (c : ReordCtrl) (f : RecvMsdu) : ℕ :=
  (f.seqNum.1.toNat + (65536 - c.indSn.toNat)) % 4096

/-- The frames held ascend from the number awaited on, inside its window. -/
structure Windowed (c : ReordCtrl) : Prop where
  ascending : (c.reordList.map (ahead c)).Pairwise (· < ·)
  ahead_pos : ∀ f ∈ c.reordList, 0 < ahead c f
  ahead_lt : ∀ f ∈ c.reordList, ahead c f < c.wsizeB.toNat

theorem Follows.ahead_eq {c : ReordCtrl} {b : Buffer RecvMsdu} (h : Follows c b)
    (hb : b.Valid 64) {p : ℤ × RecvMsdu} (hp : p ∈ b.held) :
    (ahead c p.2 : ℤ) = p.1 - b.next := by
  have h1 := h.next
  have h2 := h.numbers p hp
  have h3 := hb.ahead p hp
  have h4 := hb.within p hp
  have h5 := c.indSn.toNat_lt
  unfold Stands at h1 h2
  unfold ahead
  omega

theorem InStep.windowed {c : ReordCtrl} {b : Option (Buffer RecvMsdu)} (h : InStep c b) :
    Windowed c := by
  cases h with
  | fresh h =>
    have he := h.empty
    exact ⟨by simp [he], by simp [he], by simp [he]⟩
  | @running b h hb =>
    have hsize : c.wsizeB.toNat = 64 := by
      rw [h.wsize]
      rfl
    have hmem : ∀ f ∈ c.reordList, ∃ p ∈ b.held, p.2 = f := fun f hf => by
      rw [h.held] at hf
      exact List.mem_map.mp hf
    refine ⟨?_, fun f hf => ?_, fun f hf => ?_⟩
    · rw [h.held, List.map_map]
      refine List.pairwise_map.mpr (hb.ascending.imp_of_mem fun hp hq hlt => ?_)
      have h1 := h.ahead_eq hb hp
      have h2 := h.ahead_eq hb hq
      dsimp only [Function.comp_apply]
      omega
    · obtain ⟨p, hp, rfl⟩ := hmem f hf
      have h1 := h.ahead_eq hb hp
      have h2 := hb.ahead p hp
      omega
    · obtain ⟨p, hp, rfl⟩ := hmem f hf
      have h1 := h.ahead_eq hb hp
      have h2 := hb.within p hp
      omega

theorem InStep.length_lt {c : ReordCtrl} {b : Option (Buffer RecvMsdu)} (h : InStep c b) :
    c.reordList.length < 64 := by
  have hw := h.windowed
  have hsize : c.wsizeB.toNat = 64 := by
    cases h with
    | fresh h => rw [h.wsize]; rfl
    | running h hb => rw [h.wsize]; rfl
  have hsub : c.reordList.map (ahead c) ⊆ List.range' 1 63 := by
    intro k hk
    obtain ⟨f, hf, rfl⟩ := List.mem_map.mp hk
    have h1 := hw.ahead_pos f hf
    have h2 := hw.ahead_lt f hf
    rw [List.mem_range'_1]
    omega
  have hnodup : List.Nodup (c.reordList.map (ahead c)) := hw.ascending.imp fun h => Nat.ne_of_lt h
  have hle := (hnodup.subperm hsub).length_le
  rw [List.length_map, List.length_range'] at hle
  omega

end NervesSystem.RxReorder
