import NervesSystem.RxOrder
import Mathlib.Data.List.FinRange
import Mathlib.Data.List.Flatten

namespace NervesSystem.RxReorder

open Trace
open scoped List

def maxReordRxframe : ℕ := 250

inductive Iftype
  | station
  | p2pClient
  | ap
  | p2pGo
  | other

structure ReordCtrlInfo where
  macAddr : Bytes
  preorderCtrl : Fin 8 → ReordCtrl

/-- What becomes of a buffer: up to the network stack, or freed. -/
inductive Fate
  | netif (f : RecvMsdu)
  | kfree (skb : SkBuff)

def Fate.skb : Fate → SkBuff
  | netif f => f.pkt
  | kfree skb => skb

/-- The free `recv_msdu` by their number, the stations, and what became of buffers so far. -/
structure RxPriv where
  rxframesFreequeue : ℕ
  stasReordList : List ReordCtrlInfo
  fates : List Fate

def RxPriv.init : RxPriv := ⟨maxReordRxframe, [], []⟩

def hDest (skb : SkBuff) : Bytes := skb.data.take 6

def hSource (skb : SkBuff) : Bytes := (skb.data.drop 6).take 6

def hProto (skb : SkBuff) : ℕ := (skb.data.getD 12 0).toNat * 256 + (skb.data.getD 13 0).toNat

def ethPPae : ℕ := 0x888E

def isMcast (skb : SkBuff) : Bool := skb.data.getD 0 0 &&& 0x01 != 0

/-- The address that a frame is ordered by. -/
def macOf (iftype : Iftype) (skb : SkBuff) : Option Bytes :=
  match iftype with
  | .station | .p2pClient => some (hDest skb)
  | .ap | .p2pGo => some (hSource skb)
  | .other => none

def devKfreeSkb (s : RxPriv) (skb : SkBuff) : RxPriv :=
  { s with fates := s.fates ++ [.kfree skb] }

def reordRxframeFree (s : RxPriv) : RxPriv :=
  { s with rxframesFreequeue := s.rxframesFreequeue + 1 }

def reordSingleFrameInd (s : RxPriv) (prframe : RecvMsdu) : RxPriv :=
  if prframe.forward then
    reordRxframeFree { s with fates := s.fates ++ [.netif prframe] }
  else reordRxframeFree (devKfreeSkb s prframe.pkt)

/-- Freed, and its `recv_msdu` back in the pool. -/
def drop (s : RxPriv) (prframe : RecvMsdu) : RxPriv :=
  reordRxframeFree (devKfreeSkb s prframe.pkt)

def reordInitSta (macAddr : Bytes) : ReordCtrlInfo := ⟨macAddr, fun _ => .init⟩

def ReordCtrlInfo.set (i : ReordCtrlInfo) (tid : Fin 8) (c : ReordCtrl) : ReordCtrlInfo :=
  { i with preorderCtrl := fun t => if t = tid then c else i.preorderCtrl t }

/-- The first station with the address takes the new entry. -/
def setSta (mac : Bytes) (i' : ReordCtrlInfo) : List ReordCtrlInfo → List ReordCtrlInfo
  | [] => []
  | i :: l => if i.macAddr = mac then i' :: l else i :: setSta mac i' l

def findSta (mac : Bytes) (l : List ReordCtrlInfo) : Option ReordCtrlInfo :=
  l.find? fun i => i.macAddr = mac

/-- A control that a flush has shut starts afresh. -/
def reenable (c : ReordCtrl) : ReordCtrl :=
  if c.enable then c else
    { c with enable := true, indSn := 0xFFFF, wsizeB := reorderWinsize }

/-- What the verdict on the frame, and the control after it, mean for frame and pool. -/
def settleUnit (s : RxPriv) (c : ReordCtrl) (pframe : RecvMsdu) : Verdict → RxPriv
  | .late => if passesLate c pframe then reordSingleFrameInd s pframe else drop s pframe
  | .duplicate => drop s pframe
  | .queued due => due.foldl reordSingleFrameInd s

/-- `noMem`: `reord_init_sta` gives no control, the bus down or no memory left. -/
def reordProcessUnit (s : RxPriv) (vif : Option Iftype) (noMem : Bool) (skb : SkBuff)
    (seqNum : SeqNum) (tid : Fin 8) (forward isAmsdu : Bool) : RxPriv :=
  match vif with
  | none => devKfreeSkb s skb
  | some iftype =>
    if skb.data.length ≤ 14 then devKfreeSkb s skb
    else if s.rxframesFreequeue = 0 then devKfreeSkb s skb
    else
      let s := { s with rxframesFreequeue := s.rxframesFreequeue - 1 }
      let pframe : RecvMsdu := ⟨skb, tid, seqNum, forward, isAmsdu⟩
      if hProto skb = ethPPae || isMcast skb then reordSingleFrameInd s pframe
      else
        match macOf iftype skb with
        -- Here and without a control the `recv_msdu` is not given back.
        | none => devKfreeSkb s skb
        | some mac =>
          match findSta mac s.stasReordList with
          | none =>
            if noMem then devKfreeSkb s skb
            else
              let i := reordInitSta mac
              let u := reordUnit (i.preorderCtrl tid) pframe
              settleUnit { s with stasReordList := s.stasReordList ++ [i.set tid u.2] } u.2 pframe
                u.1
          | some i =>
            let u := reordUnit (reenable (i.preorderCtrl tid)) pframe
            settleUnit { s with stasReordList := setSta mac (i.set tid u.2) s.stasReordList } u.2
              pframe u.1

/-- What a flush leaves of a control. `del_timer_sync` is called only where the timer is pending,
and then it waits for a handler that runs. -/
def shutCtrl (c : ReordCtrl) : ReordCtrl :=
  { c with reordList := [], enable := false, timerPending := false,
           timerExpired := c.timerExpired && !c.timerPending, workPending := false }

def reordFlushTid (s : RxPriv) (iftype : Iftype) (skb : SkBuff) (tid : Fin 8) : RxPriv :=
  match macOf iftype skb with
  | none => devKfreeSkb s skb
  | some mac =>
    match findSta mac s.stasReordList with
    | none => s
    | some i =>
      let c := i.preorderCtrl tid
      if c.enable then
        let s := c.reordList.foldl reordSingleFrameInd s
        { s with stasReordList := setSta mac (i.set tid (shutCtrl c)) s.stasReordList }
      else s

/-- The frames of a station, those of each traffic id in its order. -/
def ReordCtrlInfo.held (i : ReordCtrlInfo) : List RecvMsdu :=
  (List.finRange 8).flatMap fun t => (i.preorderCtrl t).reordList

/-- The controls go with all they hold. -/
def reordDeinitSta (s : RxPriv) (mac : Bytes) : RxPriv :=
  match findSta mac s.stasReordList with
  | none => s
  | some i =>
    let s := i.held.foldl drop s
    { s with stasReordList := s.stasReordList.eraseP fun i => i.macAddr = mac }

/-- A control goes on by itself once that is due. -/
def onCtrl (s : RxPriv) (mac : Bytes) (tid : Fin 8) (due : ReordCtrl → Bool)
    (next : ReordCtrl → ReordCtrl) : RxPriv :=
  match findSta mac s.stasReordList with
  | none => s
  | some i =>
    let c := i.preorderCtrl tid
    if due c then { s with stasReordList := setSta mac (i.set tid (next c)) s.stasReordList }
    else s

/-- A timer that is set anew does not end before its earlier handler is through. -/
def timerDue (c : ReordCtrl) : Bool := c.timerPending && !c.timerExpired

def timerEnds (s : RxPriv) (mac : Bytes) (tid : Fin 8) : RxPriv :=
  onCtrl s mac tid timerDue expireTimer

def handlerRuns (s : RxPriv) (mac : Bytes) (tid : Fin 8) : RxPriv :=
  onCtrl s mac tid ReordCtrl.timerExpired reordTimeoutHandler

/-- The work of a control runs while it is pending. -/
def workRuns (s : RxPriv) (mac : Bytes) (tid : Fin 8) : RxPriv :=
  match findSta mac s.stasReordList with
  | none => s
  | some i =>
    let c := i.preorderCtrl tid
    if c.workPending then
      let w := reordTimeoutWorker c
      w.1.foldl reordSingleFrameInd
        { s with stasReordList := setSta mac (i.set tid w.2) s.stasReordList }
    else s

inductive RxEvent
  | unit (vif : Option Iftype) (noMem : Bool) (skb : SkBuff) (seqNum : SeqNum) (tid : Fin 8)
      (forward isAmsdu : Bool)
  | flush (iftype : Iftype) (skb : SkBuff) (tid : Fin 8)
  | deinit (mac : Bytes)
  | timer (mac : Bytes) (tid : Fin 8)
  | handler (mac : Bytes) (tid : Fin 8)
  | work (mac : Bytes) (tid : Fin 8)

def rxStep (s : RxPriv) : RxEvent → RxPriv
  | .unit vif noMem skb seqNum tid forward isAmsdu =>
    reordProcessUnit s vif noMem skb seqNum tid forward isAmsdu
  | .flush iftype skb tid => reordFlushTid s iftype skb tid
  | .deinit mac => reordDeinitSta s mac
  | .timer mac tid => timerEnds s mac tid
  | .handler mac tid => handlerRuns s mac tid
  | .work mac tid => workRuns s mac tid

def rxRun (es : List RxEvent) : RxPriv := es.foldl rxStep .init

/-- The control that an event finds, a new one where the station is not known. -/
def RxPriv.ctrl (s : RxPriv) (mac : Bytes) (tid : Fin 8) : ReordCtrl :=
  ((findSta mac s.stasReordList).getD (reordInitSta mac)).preorderCtrl tid

/-- The event is about the control of this address and traffic id. -/
def RxEvent.concerns (mac : Bytes) (tid : Fin 8) : RxEvent → Bool
  | .unit none .. => false
  | .unit (some iftype) _ skb _ t .. =>
    14 < skb.data.length && !(hProto skb = ethPPae || isMcast skb) &&
      macOf iftype skb = some mac && t = tid
  | .flush iftype skb t => macOf iftype skb = some mac && t = tid
  | .deinit m => m = mac
  | .timer m t | .handler m t | .work m t => m = mac && t = tid

/-- The frames in all the lists. -/
def RxPriv.held (s : RxPriv) : List RecvMsdu :=
  s.stasReordList.flatMap ReordCtrlInfo.held

/-- The buffers that an event brings to be ordered or freed. -/
def RxEvent.taken : RxEvent → List SkBuff
  | .unit _ _ skb .. => [skb]
  | .flush .other skb _ => [skb]
  | _ => []

/-- The two ways in which a `recv_msdu` can go missing. -/
def RxEvent.mayLeak : RxEvent → Bool
  | .unit vif noMem .. => noMem || match vif with | some .other => true | _ => false
  | _ => false

theorem reordRxframeEnqueue_perm {f : RecvMsdu} {l l' : List RecvMsdu}
    (h : reordRxframeEnqueue f l = some l') : l' ~ f :: l := by
  induction l generalizing l' with
  | nil =>
    simp only [reordRxframeEnqueue, Option.some.injEq] at h
    rw [← h]
  | cons p l ih =>
    simp only [reordRxframeEnqueue] at h
    split_ifs at h
    · obtain ⟨k, hk, rfl⟩ := Option.map_eq_some_iff.mp h
      exact ((ih hk).cons p).trans (.swap _ _ _)
    · rw [Option.some.injEq] at h
      rw [← h]

theorem reordNeedCheck_reordList (c : ReordCtrl) (seqNum : UInt16) :
    (reordNeedCheck c seqNum).2.reordList = c.reordList := by
  simp only [reordNeedCheck]
  split_ifs <;> rfl

/-- A frame is put in line with the others, or the list stays as it is. -/
theorem reordUnit_cases (c : ReordCtrl) (f : RecvMsdu) :
    (((reordUnit c f).1 = .late ∨ (reordUnit c f).1 = .duplicate) ∧
      (reordUnit c f).2.reordList = c.reordList) ∨
    ∃ due, (reordUnit c f).1 = .queued due ∧
      due ++ (reordUnit c f).2.reordList ~ f :: c.reordList := by
  have hlist := reordNeedCheck_reordList c f.seqNum
  unfold reordUnit
  generalize reordNeedCheck c f.seqNum = r at hlist
  obtain ⟨late, c'⟩ := r
  dsimp only at hlist ⊢
  split_ifs
  · exact .inl ⟨.inl rfl, hlist⟩
  · cases he : reordRxframeEnqueue f c'.reordList with
    | none => exact .inl ⟨.inr rfl, hlist⟩
    | some l =>
      right
      refine ⟨_, rfl, ?_⟩
      rw [reordRxframesInd_append, reordRxframesProcess_reordList, ← hlist]
      exact reordRxframeEnqueue_perm he

/-- One entry of a family changed: what goes and what comes. -/
theorem flatMap_update {ι β : Type*} [DecidableEq ι] (g g' : ι → List β) {i : ι} {l : List ι}
    (hl : l.Nodup) (hi : i ∈ l) (hg : ∀ j, j ≠ i → g' j = g j) :
    l.flatMap g' ++ g i ~ l.flatMap g ++ g' i := by
  induction l with
  | nil => simp at hi
  | cons j l ih =>
    obtain ⟨hj, hl⟩ := List.nodup_cons.mp hl
    simp only [List.flatMap_cons]
    rcases List.mem_cons.mp hi with rfl | hi
    · have hsame : l.flatMap g' = l.flatMap g :=
        List.flatMap_congr fun k hk => hg k fun he => hj (he ▸ hk)
      rw [hsame]
      calc g' i ++ l.flatMap g ++ g i ~ g i ++ (g' i ++ l.flatMap g) := List.perm_append_comm
        _ ~ g i ++ (l.flatMap g ++ g' i) := List.perm_append_comm.append_left _
        _ = g i ++ l.flatMap g ++ g' i := (List.append_assoc _ _ _).symm
    · rw [hg j fun he => hj (he ▸ hi), List.append_assoc, List.append_assoc]
      exact (ih hl hi).append_left _

theorem held_set (i : ReordCtrlInfo) (tid : Fin 8) (c : ReordCtrl) :
    (i.set tid c).held ++ (i.preorderCtrl tid).reordList ~ i.held ++ c.reordList := by
  have h := flatMap_update (fun t => (i.preorderCtrl t).reordList)
    (fun t => ((i.set tid c).preorderCtrl t).reordList) (List.nodup_finRange 8)
    (List.mem_finRange tid) fun t ht => by simp [ReordCtrlInfo.set, ht]
  simpa [ReordCtrlInfo.held, ReordCtrlInfo.set] using h

theorem held_setSta {mac : Bytes} {i i' : ReordCtrlInfo} {l : List ReordCtrlInfo}
    (h : findSta mac l = some i) :
    (setSta mac i' l).flatMap ReordCtrlInfo.held ++ i.held ~
      l.flatMap ReordCtrlInfo.held ++ i'.held := by
  induction l with
  | nil => simp [findSta] at h
  | cons k l ih =>
    by_cases hk : k.macAddr = mac
    · have hki : k = i := by simpa [findSta, hk] using h
      subst hki
      simp only [setSta, if_pos hk, List.flatMap_cons]
      calc i'.held ++ l.flatMap ReordCtrlInfo.held ++ k.held
          ~ k.held ++ (i'.held ++ l.flatMap ReordCtrlInfo.held) := List.perm_append_comm
        _ ~ k.held ++ (l.flatMap ReordCtrlInfo.held ++ i'.held) :=
          List.perm_append_comm.append_left _
        _ = k.held ++ l.flatMap ReordCtrlInfo.held ++ i'.held := (List.append_assoc _ _ _).symm
    · have hl : findSta mac l = some i := by simpa [findSta, hk] using h
      simp only [setSta, if_neg hk, List.flatMap_cons, List.append_assoc]
      exact (ih hl).append_left _

/-- One control of a station changed. -/
theorem held_setCtrl {mac : Bytes} {i : ReordCtrlInfo} {l : List ReordCtrlInfo}
    (h : findSta mac l = some i) (tid : Fin 8) (c : ReordCtrl) :
    (setSta mac (i.set tid c) l).flatMap ReordCtrlInfo.held ++ (i.preorderCtrl tid).reordList ~
      l.flatMap ReordCtrlInfo.held ++ c.reordList := by
  refine (List.perm_append_left_iff i.held).mp ?_
  calc i.held ++ ((setSta mac (i.set tid c) l).flatMap ReordCtrlInfo.held ++
        (i.preorderCtrl tid).reordList)
      = i.held ++ (setSta mac (i.set tid c) l).flatMap ReordCtrlInfo.held ++
        (i.preorderCtrl tid).reordList := (List.append_assoc _ _ _).symm
    _ ~ (setSta mac (i.set tid c) l).flatMap ReordCtrlInfo.held ++ i.held ++
        (i.preorderCtrl tid).reordList := List.perm_append_comm.append_right _
    _ ~ l.flatMap ReordCtrlInfo.held ++ (i.set tid c).held ++
        (i.preorderCtrl tid).reordList := (held_setSta h).append_right _
    _ = l.flatMap ReordCtrlInfo.held ++ ((i.set tid c).held ++
        (i.preorderCtrl tid).reordList) := List.append_assoc _ _ _
    _ ~ l.flatMap ReordCtrlInfo.held ++ (i.held ++ c.reordList) :=
      (held_set i tid c).append_left _
    _ ~ i.held ++ (l.flatMap ReordCtrlInfo.held ++ c.reordList) := by
      rw [← List.append_assoc, ← List.append_assoc]
      exact List.perm_append_comm.append_right _

theorem held_eraseSta {mac : Bytes} {i : ReordCtrlInfo} {l : List ReordCtrlInfo}
    (h : findSta mac l = some i) :
    (l.eraseP fun i => i.macAddr = mac).flatMap ReordCtrlInfo.held ++ i.held ~
      l.flatMap ReordCtrlInfo.held := by
  induction l with
  | nil => simp [findSta] at h
  | cons k l ih =>
    by_cases hk : k.macAddr = mac
    · have hki : k = i := by simpa [findSta, hk] using h
      subst hki
      simp only [List.eraseP_cons, hk, decide_true, cond_true, List.flatMap_cons]
      exact List.perm_append_comm
    · have hl : findSta mac l = some i := by simpa [findSta, hk] using h
      simp only [List.eraseP_cons, hk, decide_false, cond_false, List.flatMap_cons,
        List.append_assoc]
      exact (ih hl).append_left _

/-- The frames are done with: their buffers have a fate and their `recv_msdu` are free. -/
structure Done (s s' : RxPriv) (fs : List RecvMsdu) : Prop where
  stas : s'.stasReordList = s.stasReordList
  fates : s'.fates.map Fate.skb = s.fates.map Fate.skb ++ fs.map RecvMsdu.pkt
  free : s'.rxframesFreequeue = s.rxframesFreequeue + fs.length

theorem done_ind (s : RxPriv) (f : RecvMsdu) : Done s (reordSingleFrameInd s f) [f] := by
  unfold reordSingleFrameInd
  split_ifs
  · exact ⟨rfl, by simp [reordRxframeFree, Fate.skb], rfl⟩
  · exact ⟨rfl, by simp [reordRxframeFree, devKfreeSkb, Fate.skb], rfl⟩

theorem done_drop (s : RxPriv) (f : RecvMsdu) : Done s (drop s f) [f] :=
  ⟨rfl, by simp [drop, reordRxframeFree, devKfreeSkb, Fate.skb], rfl⟩

theorem done_foldl {g : RxPriv → RecvMsdu → RxPriv} (hg : ∀ s f, Done s (g s f) [f])
    (s : RxPriv) (fs : List RecvMsdu) : Done s (fs.foldl g s) fs := by
  induction fs generalizing s with
  | nil => exact ⟨rfl, by simp, rfl⟩
  | cons f fs ih =>
    have h1 := hg s f
    have h2 := ih (g s f)
    refine ⟨h2.stas.trans h1.stas, ?_, ?_⟩
    · rw [List.foldl_cons, h2.fates, h1.fates]
      simp
    · rw [List.foldl_cons, h2.free, h1.free]
      simp only [List.length_cons, List.length_nil]
      omega

theorem done_settleUnit (s : RxPriv) (c : ReordCtrl) (f : RecvMsdu) (v : Verdict) :
    Done s (settleUnit s c f v) (match v with | .queued due => due | _ => [f]) := by
  cases v with
  | late =>
    simp only [settleUnit]
    split_ifs
    · exact done_ind s f
    · exact done_drop s f
  | duplicate => exact done_drop s f
  | queued due => exact done_foldl done_ind s due

/-- All the buffers that the receive path has met and not passed over. -/
def RxPriv.skbs (s : RxPriv) : List SkBuff :=
  s.fates.map Fate.skb ++ s.held.map RecvMsdu.pkt

/-- What an event brings is added, and `lost` of the `recv_msdu` are gone. -/
structure Moved (s s' : RxPriv) (ins : List SkBuff) (lost : ℕ) : Prop where
  skbs : s'.skbs ~ s.skbs ++ ins
  pool : s'.rxframesFreequeue + s'.held.length + lost = s.rxframesFreequeue + s.held.length

theorem Moved.refl (s : RxPriv) : Moved s s [] 0 :=
  ⟨by simp, rfl⟩

theorem moved_kfree (s : RxPriv) (skb : SkBuff) : Moved s (devKfreeSkb s skb) [skb] 0 := by
  refine ⟨?_, rfl⟩
  show (s.fates ++ [Fate.kfree skb]).map Fate.skb ++ s.held.map RecvMsdu.pkt ~ _
  rw [List.map_append, RxPriv.skbs, List.append_assoc, List.append_assoc]
  exact List.perm_append_comm.append_left _

/-- Frames leave the lists and are done with, after a frame has come. -/
theorem moved_done {s s' : RxPriv} (s₁ : RxPriv) (ins fs : List RecvMsdu) (h : Done s₁ s' fs)
    (hf : s₁.fates = s.fates) (hn : s₁.rxframesFreequeue + ins.length = s.rxframesFreequeue)
    (hl : s₁.held ++ fs ~ s.held ++ ins) : Moved s s' (ins.map RecvMsdu.pkt) 0 := by
  have hheld : s'.held = s₁.held := by rw [RxPriv.held, h.stas, RxPriv.held]
  constructor
  · have hperm := hl.map RecvMsdu.pkt
    rw [List.map_append, List.map_append] at hperm
    rw [RxPriv.skbs, RxPriv.skbs, h.fates, hheld, hf, List.append_assoc, List.append_assoc]
    exact (List.perm_append_comm.trans hperm).append_left _
  · have hlen := hl.length_eq
    rw [List.length_append, List.length_append] at hlen
    rw [hheld, h.free]
    omega

theorem moved_unit {s s₁ : RxPriv} {c : ReordCtrl} {f : RecvMsdu} (hf : s₁.fates = s.fates)
    (hn : s₁.rxframesFreequeue + 1 = s.rxframesFreequeue)
    (hl : s₁.held ++ c.reordList ~ s.held ++ (reordUnit c f).2.reordList) :
    Moved s (settleUnit s₁ (reordUnit c f).2 f (reordUnit c f).1) [f.pkt] 0 := by
  have hdone := done_settleUnit s₁ (reordUnit c f).2 f (reordUnit c f).1
  refine moved_done s₁ [f] _ hdone hf hn ?_
  refine (List.perm_append_right_iff c.reordList).mp ?_
  rcases reordUnit_cases c f with ⟨hv, hlist⟩ | ⟨due, hv, hdue⟩
  · have hfs : (match (reordUnit c f).1 with | .queued due => due | _ => [f]) = [f] := by
      rcases hv with hv | hv <;> rw [hv]
    rw [hlist] at hl
    rw [hfs]
    exact (((List.perm_append_right_iff c.reordList).mp hl).append_right [f]).append_right _
  · rw [hv]
    calc s₁.held ++ due ++ c.reordList ~ s₁.held ++ c.reordList ++ due := by
          rw [List.append_assoc, List.append_assoc]
          exact List.perm_append_comm.append_left _
      _ ~ s.held ++ (reordUnit c f).2.reordList ++ due := hl.append_right _
      _ ~ s.held ++ (due ++ (reordUnit c f).2.reordList) := by
          rw [List.append_assoc]
          exact List.perm_append_comm.append_left _
      _ ~ s.held ++ (f :: c.reordList) := hdue.append_left _
      _ = s.held ++ [f] ++ c.reordList := by rw [List.append_assoc, List.singleton_append]

theorem held_init (mac : Bytes) : (reordInitSta mac).held = [] := by
  rw [ReordCtrlInfo.held, List.flatMap_eq_nil_iff]
  intro t _
  rfl

theorem reenable_reordList (c : ReordCtrl) : (reenable c).reordList = c.reordList := by
  unfold reenable
  split_ifs <;> rfl

theorem concerns_unit {vif : Option Iftype} {noMem : Bool} {skb : SkBuff} {seqNum : SeqNum}
    {tid t : Fin 8} {forward isAmsdu : Bool} {mac : Bytes} :
    (RxEvent.unit vif noMem skb seqNum t forward isAmsdu).concerns mac tid = true ↔
      (∃ iftype, vif = some iftype ∧ macOf iftype skb = some mac) ∧ 14 < skb.data.length ∧
        (hProto skb = ethPPae || isMcast skb) = false ∧ t = tid := by
  cases vif with
  | none => simp [RxEvent.concerns]
  | some iftype =>
    simp only [RxEvent.concerns, Bool.and_eq_true, decide_eq_true_eq, Bool.not_eq_true',
      Option.some.injEq, exists_eq_left']
    tauto

theorem ctrl_none {s : RxPriv} {mac : Bytes} (h : findSta mac s.stasReordList = none)
    (tid : Fin 8) : s.ctrl mac tid = .init := by
  rw [RxPriv.ctrl, h]
  rfl

theorem ctrl_some {s : RxPriv} {mac : Bytes} {i : ReordCtrlInfo}
    (h : findSta mac s.stasReordList = some i) (tid : Fin 8) :
    s.ctrl mac tid = i.preorderCtrl tid := by
  rw [RxPriv.ctrl, h]
  rfl

/-- The stations with one control set to `c`, in a new entry where there is none. -/
inductive SetCtrl (stas : List ReordCtrlInfo) (mac : Bytes) (tid : Fin 8) (c : ReordCtrl) :
    List ReordCtrlInfo → Prop
  | new (h : findSta mac stas = none) :
      SetCtrl stas mac tid c (stas ++ [(reordInitSta mac).set tid c])
  | known {i : ReordCtrlInfo} (h : findSta mac stas = some i) :
      SetCtrl stas mac tid c (setSta mac (i.set tid c) stas)

/-- What becomes of a frame: freed for good or with its `recv_msdu` lost, up at once, or to its
control. -/
inductive Processed (s : RxPriv) (noMem : Bool) (f : RecvMsdu) (e : RxEvent) : RxPriv → Prop
  | freed (h : ∀ mac tid, e.concerns mac tid = true → s.rxframesFreequeue = 0) :
      Processed s noMem f e (devKfreeSkb s f.pkt)
  | ind (hfree : s.rxframesFreequeue ≠ 0) (h : ∀ mac tid, ¬e.concerns mac tid = true) :
      Processed s noMem f e (reordSingleFrameInd
        { s with rxframesFreequeue := s.rxframesFreequeue - 1 } f)
  | lost (hfree : s.rxframesFreequeue ≠ 0) (hleak : e.mayLeak = true)
      (h : ∀ mac tid, e.concerns mac tid = true →
        noMem = true ∧ findSta mac s.stasReordList = none) :
      Processed s noMem f e (devKfreeSkb
        { s with rxframesFreequeue := s.rxframesFreequeue - 1 } f.pkt)
  | ctrl {mac : Bytes} {stas : List ReordCtrlInfo} (hfree : s.rxframesFreequeue ≠ 0)
      (h : ∀ m t, e.concerns m t = true ↔ m = mac ∧ t = f.tid)
      (hset : SetCtrl s.stasReordList mac f.tid
        (reordUnit (reenable (s.ctrl mac f.tid)) f).2 stas) :
      Processed s noMem f e (settleUnit
        { s with rxframesFreequeue := s.rxframesFreequeue - 1, stasReordList := stas }
        (reordUnit (reenable (s.ctrl mac f.tid)) f).2 f
        (reordUnit (reenable (s.ctrl mac f.tid)) f).1)

theorem reordProcessUnit_processed (s : RxPriv) (vif : Option Iftype) (noMem : Bool)
    (skb : SkBuff) (seqNum : SeqNum) (tid : Fin 8) (forward isAmsdu : Bool) :
    Processed s noMem ⟨skb, tid, seqNum, forward, isAmsdu⟩
      (.unit vif noMem skb seqNum tid forward isAmsdu)
      (reordProcessUnit s vif noMem skb seqNum tid forward isAmsdu) := by
  cases vif with
  | none => exact .freed fun mac t h => by simp [RxEvent.concerns] at h
  | some iftype =>
    simp only [reordProcessUnit]
    by_cases hlen : skb.data.length ≤ 14
    · rw [if_pos hlen]
      exact .freed fun mac t h => absurd (concerns_unit.mp h).2.1 (Nat.not_lt.mpr hlen)
    by_cases hfree : s.rxframesFreequeue = 0
    · rw [if_neg hlen, if_pos hfree]
      exact .freed fun _ _ _ => hfree
    rw [if_neg hlen, if_neg hfree]
    by_cases hpae : (hProto skb = ethPPae || isMcast skb) = true
    · rw [if_pos hpae]
      refine .ind hfree fun mac t h => ?_
      have hnot := (concerns_unit.mp h).2.2.1
      rw [hpae] at hnot
      cases hnot
    rw [if_neg hpae]
    cases hmac : macOf iftype skb with
    | none =>
      have hi : iftype = .other := by
        cases iftype <;> simp [macOf] at hmac
        rfl
      subst hi
      exact .lost hfree (by simp [RxEvent.mayLeak]) fun mac t h => by
        simp [concerns_unit, macOf] at h
    | some mac =>
      have hconcerns : ∀ m t, (RxEvent.unit (some iftype) noMem skb seqNum tid forward
          isAmsdu).concerns m t = true ↔ m = mac ∧ t = tid := by
        intro m t
        rw [concerns_unit, Bool.eq_false_iff]
        refine ⟨fun ⟨⟨_, hv, hm⟩, _, _, ht⟩ => ?_, fun ⟨hm, ht⟩ => ?_⟩
        · rw [← Option.some.inj hv, hmac] at hm
          exact ⟨(Option.some.inj hm).symm, ht.symm⟩
        · exact ⟨⟨_, rfl, hm ▸ hmac⟩, Nat.not_le.mp hlen, hpae, ht.symm⟩
      dsimp only
      cases hsta : findSta mac s.stasReordList with
      | none =>
        dsimp only
        by_cases hmem : noMem = true
        · rw [if_pos hmem]
          refine .lost hfree (by simp [RxEvent.mayLeak, hmem]) fun m t h => ⟨hmem, ?_⟩
          rw [((hconcerns m t).mp h).1]
          exact hsta
        · rw [if_neg hmem]
          have h : Processed s noMem ⟨skb, tid, seqNum, forward, isAmsdu⟩ _ _ :=
            .ctrl hfree hconcerns (.new hsta)
          rw [ctrl_none hsta] at h
          exact h
      | some i =>
        have h : Processed s noMem ⟨skb, tid, seqNum, forward, isAmsdu⟩ _ _ :=
          .ctrl hfree hconcerns (.known hsta)
        rw [ctrl_some hsta] at h
        exact h

theorem SetCtrl.held {stas stas' : List ReordCtrlInfo} {mac : Bytes} {tid : Fin 8}
    {c : ReordCtrl} (h : SetCtrl stas mac tid c stas') {s : RxPriv} (hs : s.stasReordList = stas) :
    stas'.flatMap ReordCtrlInfo.held ++ (s.ctrl mac tid).reordList ~
      stas.flatMap ReordCtrlInfo.held ++ c.reordList := by
  subst hs
  cases h with
  | new hsta =>
    have h := held_set (reordInitSta mac) tid c
    rw [held_init, List.nil_append] at h
    rw [ctrl_none hsta, List.flatMap_append, List.flatMap_singleton, List.append_assoc]
    exact h.append_left _
  | known hsta =>
    rw [ctrl_some hsta]
    exact held_setCtrl hsta tid c

/-- The `recv_msdu` that a frame costs the pool for good. -/
theorem moved_reordProcessUnit (s : RxPriv) (vif : Option Iftype) (noMem : Bool) (skb : SkBuff)
    (seqNum : SeqNum) (tid : Fin 8) (forward isAmsdu : Bool) :
    ∃ lost ≤ (RxEvent.unit vif noMem skb seqNum tid forward isAmsdu).mayLeak.toNat,
      Moved s (reordProcessUnit s vif noMem skb seqNum tid forward isAmsdu) [skb] lost := by
  have h := reordProcessUnit_processed s vif noMem skb seqNum tid forward isAmsdu
  generalize reordProcessUnit s vif noMem skb seqNum tid forward isAmsdu = s' at h
  cases h with
  | freed => exact ⟨0, Nat.zero_le _, moved_kfree s skb⟩
  | ind hfree =>
    exact ⟨0, Nat.zero_le _, moved_done _ [⟨skb, tid, seqNum, forward, isAmsdu⟩] _
      (done_ind _ _) rfl (Nat.sub_one_add_one hfree) (.refl _)⟩
  | lost hfree hleak =>
    refine ⟨1, by rw [hleak]; rfl, (moved_kfree _ skb).skbs, ?_⟩
    show s.rxframesFreequeue - 1 + s.held.length + 1 = _
    omega
  | ctrl hfree _ hset =>
    refine ⟨0, Nat.zero_le _, moved_unit rfl (Nat.sub_one_add_one hfree) ?_⟩
    rw [reenable_reordList]
    exact hset.held rfl

theorem moved_reordFlushTid (s : RxPriv) (iftype : Iftype) (skb : SkBuff) (tid : Fin 8) :
    Moved s (reordFlushTid s iftype skb tid) (RxEvent.flush iftype skb tid).taken 0 := by
  by_cases hi : iftype = .other
  · subst hi
    exact moved_kfree s skb
  have htaken : (RxEvent.flush iftype skb tid).taken = [] := by
    cases iftype <;> first | rfl | exact absurd rfl hi
  obtain ⟨mac, hmac⟩ : ∃ mac, macOf iftype skb = some mac := by
    cases iftype <;> first | exact ⟨_, rfl⟩ | exact absurd rfl hi
  rw [htaken]
  simp only [reordFlushTid, hmac]
  cases hsta : findSta mac s.stasReordList with
  | none => exact .refl s
  | some i =>
    dsimp only
    split_ifs
    · have h := done_foldl done_ind s (i.preorderCtrl tid).reordList
      rw [h.stas]
      refine moved_done { s with
        stasReordList := setSta mac (i.set tid (shutCtrl (i.preorderCtrl tid))) s.stasReordList }
        [] _ ⟨rfl, h.fates, h.free⟩ rfl rfl ?_
      exact held_setCtrl hsta tid _
    · exact .refl s

theorem moved_reordDeinitSta (s : RxPriv) (mac : Bytes) :
    Moved s (reordDeinitSta s mac) [] 0 := by
  simp only [reordDeinitSta]
  cases hsta : findSta mac s.stasReordList with
  | none => exact .refl s
  | some i =>
    have h := done_foldl done_drop s i.held
    dsimp only
    rw [h.stas]
    refine moved_done
      { s with stasReordList := s.stasReordList.eraseP fun i => i.macAddr = mac } [] _
      ⟨rfl, h.fates, h.free⟩ rfl rfl ?_
    rw [List.append_nil]
    exact held_eraseSta hsta

theorem moved_onCtrl (s : RxPriv) (mac : Bytes) (tid : Fin 8) (due : ReordCtrl → Bool)
    (next : ReordCtrl → ReordCtrl) (hnext : ∀ c, (next c).reordList = c.reordList) :
    Moved s (onCtrl s mac tid due next) [] 0 := by
  simp only [onCtrl]
  cases hsta : findSta mac s.stasReordList with
  | none => exact .refl s
  | some i =>
    dsimp only
    split_ifs
    · refine moved_done _ [] [] ⟨rfl, by simp, rfl⟩ rfl rfl ?_
      have h := held_setCtrl hsta tid (next (i.preorderCtrl tid))
      rw [hnext] at h
      rw [List.append_nil, List.append_nil]
      exact (List.perm_append_right_iff _).mp h
    · exact .refl s

theorem moved_workRuns (s : RxPriv) (mac : Bytes) (tid : Fin 8) :
    Moved s (workRuns s mac tid) [] 0 := by
  simp only [workRuns]
  cases hsta : findSta mac s.stasReordList with
  | none => exact .refl s
  | some i =>
    dsimp only
    split_ifs
    · refine moved_done _ [] _ (done_foldl done_ind _ _) rfl rfl ?_
      have h := held_setCtrl hsta tid (reordTimeoutWorker (i.preorderCtrl tid)).2
      rw [← reordTimeoutWorker_append, ← List.append_assoc] at h
      rw [List.append_nil]
      exact (List.perm_append_right_iff _).mp h
    · exact .refl s

theorem moved_rxStep (s : RxPriv) (e : RxEvent) :
    ∃ lost ≤ e.mayLeak.toNat, Moved s (rxStep s e) e.taken lost := by
  cases e with
  | unit vif noMem skb seqNum tid forward isAmsdu =>
    exact moved_reordProcessUnit s vif noMem skb seqNum tid forward isAmsdu
  | flush iftype skb tid => exact ⟨0, Nat.zero_le _, moved_reordFlushTid s iftype skb tid⟩
  | deinit mac => exact ⟨0, Nat.zero_le _, moved_reordDeinitSta s mac⟩
  | timer mac tid =>
    exact ⟨0, Nat.zero_le _, moved_onCtrl s mac tid timerDue expireTimer fun _ => rfl⟩
  | handler mac tid =>
    exact ⟨0, Nat.zero_le _, moved_onCtrl s mac tid _ reordTimeoutHandler fun _ => rfl⟩
  | work mac tid => exact ⟨0, Nat.zero_le _, moved_workRuns s mac tid⟩

theorem moved_foldl (s : RxPriv) (es : List RxEvent) :
    ∃ lost ≤ es.countP RxEvent.mayLeak, Moved s (es.foldl rxStep s)
      (es.flatMap RxEvent.taken) lost := by
  induction es generalizing s with
  | nil => exact ⟨0, Nat.zero_le _, .refl s⟩
  | cons e es ih =>
    obtain ⟨l₁, h₁, hm₁⟩ := moved_rxStep s e
    obtain ⟨l₂, h₂, hm₂⟩ := ih (rxStep s e)
    refine ⟨l₁ + l₂, ?_, ?_, ?_⟩
    · rw [List.countP_cons]
      cases he : e.mayLeak <;> simp [he] at h₁ ⊢ <;> omega
    · rw [List.foldl_cons, List.flatMap_cons, ← List.append_assoc]
      exact hm₂.skbs.trans (hm₁.skbs.append_right _)
    · rw [List.foldl_cons]
      have h := hm₁.pool
      have h' := hm₂.pool
      omega

/-- In any run, every buffer that came to be ordered is exactly one of handed up, freed and held; no
`recv_msdu` is made up, and none goes missing but where an address or a control is not to be had. -/
theorem rxRun_accounts (es : List RxEvent) :
    ((rxRun es).fates.map Fate.skb ++ (rxRun es).held.map RecvMsdu.pkt) ~
        es.flatMap RxEvent.taken ∧
      (rxRun es).rxframesFreequeue + (rxRun es).held.length ≤ maxReordRxframe ∧
      maxReordRxframe ≤
        (rxRun es).rxframesFreequeue + (rxRun es).held.length + es.countP RxEvent.mayLeak := by
  obtain ⟨lost, hlost, h⟩ := moved_foldl .init es
  have hpool : (rxRun es).rxframesFreequeue + (rxRun es).held.length + lost = maxReordRxframe :=
    h.pool
  exact ⟨h.skbs, by omega, by omega⟩

/-- What holds of a control at any time: its list fits its window, frames wait only for a timer,
handler or work that will come, and a control that is shut has neither frames nor timer. Where
flushes are `calm` it waits for nothing. -/
structure Sound (calm : Prop) (c : ReordCtrl) : Prop where
  inStep : ∃ b, InStep c b
  armed : Armed c
  shut : c.enable = false → c.reordList = [] ∧ c.timerPending = false ∧
    (calm → c.timerExpired = false ∧ c.workPending = false)

section Sound

variable {calm : Prop} {c : ReordCtrl}

theorem sound_init : Sound calm .init :=
  ⟨⟨_, inStep_init⟩, fun h => absurd rfl h, fun h => by simp [ReordCtrl.init] at h⟩

theorem reordUnit_enable (c : ReordCtrl) (f : RecvMsdu) : (reordUnit c f).2.enable = c.enable := by
  have hcheck : (reordNeedCheck c f.seqNum).2.enable = c.enable := by
    simp only [reordNeedCheck]
    split_ifs <;> rfl
  unfold reordUnit
  generalize reordNeedCheck c f.seqNum = r at hcheck
  obtain ⟨late, c'⟩ := r
  dsimp only at hcheck ⊢
  split_ifs
  · exact hcheck
  · cases reordRxframeEnqueue f c'.reordList with
    | none => exact hcheck
    | some l =>
      simp only [reordRxframesProcess_false]
      exact hcheck

theorem Sound.unit (h : Sound calm c) (he : c.enable = true) (f : RecvMsdu) :
    Sound calm (reordUnit c f).2 := by
  obtain ⟨b, hb⟩ := h.inStep
  refine ⟨hb.unit_any f, hb.armed_unit f h.armed, fun hs => ?_⟩
  rw [reordUnit_enable, he] at hs
  exact absurd hs (by simp)

theorem Sound.reenable (h : Sound calm c) :
    Sound calm (reenable c) ∧ (reenable c).enable = true := by
  unfold RxReorder.reenable
  split_ifs with he
  · exact ⟨h, he⟩
  · obtain ⟨hl, -, -⟩ := h.shut (by simpa using he)
    exact ⟨⟨⟨_, .fresh ⟨rfl, rfl, hl⟩⟩, fun hne => absurd hl hne, fun hs => by simp at hs⟩, rfl⟩

theorem Sound.timer (h : Sound calm c) (hp : c.timerPending = true) :
    Sound calm (expireTimer c) := by
  obtain ⟨b, hb⟩ := h.inStep
  refine ⟨⟨b, hb.congr rfl rfl rfl⟩, fun _ => .inr (.inl rfl), fun hs => ?_⟩
  have := (h.shut hs).2.1
  simp [hp] at this

theorem Sound.handler (h : Sound calm c) (hp : c.timerExpired = true) :
    Sound calm (reordTimeoutHandler c) := by
  obtain ⟨b, hb⟩ := h.inStep
  refine ⟨⟨b, hb.congr rfl rfl rfl⟩, fun _ => .inr (.inr rfl), fun hs => ?_⟩
  obtain ⟨hl, ht, hcalm⟩ := h.shut hs
  refine ⟨hl, ht, fun hc => ?_⟩
  have := (hcalm hc).1
  simp [hp] at this

theorem reordTimeoutWorker_enable (c : ReordCtrl) :
    (reordTimeoutWorker c).2.enable = c.enable := by
  obtain ⟨enable, indSn, wsizeB, l, timerPending, timerExpired, workPending⟩ := c
  cases l with
  | nil => rfl
  | cons p l =>
    simp only [reordTimeoutWorker, reordRxframesProcess, reordRxframesInd]
    split_ifs <;> rfl

/-- The work finds nothing to do where no frame is held. -/
theorem reordTimeoutWorker_nil (h : c.reordList = []) :
    reordTimeoutWorker c = ([], { c with workPending := false }) := by
  simp [reordTimeoutWorker, reordRxframesProcess, reordRxframesInd, h]

theorem Sound.work (h : Sound calm c) : Sound calm (reordTimeoutWorker c).2 := by
  obtain ⟨b, hb⟩ := h.inStep
  refine ⟨⟨_, hb.work.2.1⟩, hb.work.2.2, fun hs => ?_⟩
  rw [reordTimeoutWorker_enable] at hs
  obtain ⟨hl, ht, hcalm⟩ := h.shut hs
  rw [reordTimeoutWorker_nil hl]
  exact ⟨hl, ht, fun hc => ⟨(hcalm hc).1, rfl⟩⟩

theorem Sound.flushed (h : Sound calm c)
    (hcalm : calm → c.timerExpired = true → c.timerPending = true) : Sound calm (shutCtrl c) := by
  refine ⟨?_, fun hne => absurd rfl hne, fun _ => ⟨rfl, rfl, fun hc => ⟨?_, rfl⟩⟩⟩
  · obtain ⟨b, hb⟩ := h.inStep
    cases hb with
    | fresh hf => exact ⟨none, .fresh ⟨hf.indSn, hf.wsize, rfl⟩⟩
    | @running b hf hv =>
      exact ⟨some ⟨b.next, []⟩, .running ⟨hf.wsize, hf.next, rfl, by simp⟩
        (Reorder.Buffer.fresh_valid _ _)⟩
  · show (c.timerExpired && !c.timerPending) = false
    cases ht : c.timerExpired with
    | false => rfl
    | true => rw [hcalm hc ht]; rfl

end Sound

/-- Every control is sound, and no address has two entries. -/
structure AllSound (calm : Prop) (s : RxPriv) : Prop where
  sound : ∀ i ∈ s.stasReordList, ∀ t, Sound calm (i.preorderCtrl t)
  nodup : (s.stasReordList.map ReordCtrlInfo.macAddr).Nodup

theorem mem_of_mem_setSta {mac : Bytes} {i' j : ReordCtrlInfo} {l : List ReordCtrlInfo}
    (h : j ∈ setSta mac i' l) : j = i' ∨ j ∈ l := by
  induction l with
  | nil => simp [setSta] at h
  | cons i l ih =>
    rw [setSta] at h
    split_ifs at h
    · rcases List.mem_cons.mp h with rfl | h
      · exact .inl rfl
      · exact .inr (List.mem_cons_of_mem _ h)
    · rcases List.mem_cons.mp h with rfl | h
      · exact .inr List.mem_cons_self
      · exact (ih h).imp_right (List.mem_cons_of_mem _)

theorem setSta_macs {mac : Bytes} (i' : ReordCtrlInfo) (hi : i'.macAddr = mac)
    (l : List ReordCtrlInfo) :
    (setSta mac i' l).map ReordCtrlInfo.macAddr = l.map ReordCtrlInfo.macAddr := by
  induction l with
  | nil => rfl
  | cons i l ih =>
    rw [setSta]
    split_ifs with h
    · rw [List.map_cons, List.map_cons, hi, h]
    · rw [List.map_cons, List.map_cons, ih]

theorem findSta_mem {mac : Bytes} {i : ReordCtrlInfo} {l : List ReordCtrlInfo}
    (h : findSta mac l = some i) : i ∈ l ∧ i.macAddr = mac :=
  ⟨List.mem_of_find?_eq_some h, by simpa using List.find?_some h⟩

/-- One control changed for a sound one. -/
theorem AllSound.setCtrl {calm : Prop} {s : RxPriv} (h : AllSound calm s) {mac : Bytes}
    {i : ReordCtrlInfo} (hi : findSta mac s.stasReordList = some i) {tid : Fin 8} {c : ReordCtrl}
    (hc : Sound calm c) {s' : RxPriv}
    (hs : s'.stasReordList = setSta mac (i.set tid c) s.stasReordList) : AllSound calm s' := by
  obtain ⟨him, hmac⟩ := findSta_mem hi
  constructor
  · intro j hj t
    rw [hs] at hj
    rcases mem_of_mem_setSta hj with rfl | hj
    · simp only [ReordCtrlInfo.set]
      split_ifs
      · exact hc
      · exact h.sound i him t
    · exact h.sound j hj t
  · rw [hs, setSta_macs (i.set tid c) hmac]
    exact h.nodup

theorem AllSound.of_stas {calm : Prop} {s s' : RxPriv} (h : AllSound calm s)
    (hs : s'.stasReordList = s.stasReordList) : AllSound calm s' :=
  ⟨by rw [hs]; exact h.sound, by rw [hs]; exact h.nodup⟩

theorem settleUnit_stas (s : RxPriv) (c : ReordCtrl) (f : RecvMsdu) (v : Verdict) :
    (settleUnit s c f v).stasReordList = s.stasReordList :=
  (done_settleUnit s c f v).stas

theorem AllSound.ctrl {calm : Prop} {s : RxPriv} (h : AllSound calm s) (mac : Bytes)
    (tid : Fin 8) : Sound calm (s.ctrl mac tid) := by
  cases hsta : findSta mac s.stasReordList with
  | none =>
    rw [ctrl_none hsta]
    exact sound_init
  | some i =>
    rw [ctrl_some hsta]
    exact h.sound i (findSta_mem hsta).1 tid

theorem AllSound.set {calm : Prop} {s : RxPriv} (h : AllSound calm s) (mac : Bytes)
    (tid : Fin 8) {c : ReordCtrl} (hc : Sound calm c) {s' : RxPriv}
    (hs : SetCtrl s.stasReordList mac tid c s'.stasReordList) : AllSound calm s' := by
  generalize hstas : s'.stasReordList = stas at hs
  cases hs with
  | known hsta => exact h.setCtrl hsta hc hstas
  | new hsta =>
    have hnew : ∀ i ∈ s.stasReordList, i.macAddr ≠ mac := by
      simpa [findSta] using hsta
    constructor
    · intro j hj t
      rw [hstas] at hj
      rcases List.mem_append.mp hj with hj | hj
      · exact h.sound j hj t
      · rw [List.mem_singleton.mp hj]
        simp only [ReordCtrlInfo.set]
        split_ifs
        · exact hc
        · exact sound_init
    · rw [hstas, List.map_append]
      refine List.nodup_append.mpr ⟨h.nodup, List.nodup_singleton _, ?_⟩
      intro a ha b hb
      obtain ⟨i, hi, rfl⟩ := List.mem_map.mp ha
      rw [List.map_singleton, List.mem_singleton] at hb
      rw [hb]
      exact hnew i hi

theorem allSound_reordProcessUnit {calm : Prop} {s : RxPriv} (h : AllSound calm s)
    (vif : Option Iftype) (noMem : Bool) (skb : SkBuff) (seqNum : SeqNum) (tid : Fin 8)
    (forward isAmsdu : Bool) :
    AllSound calm (reordProcessUnit s vif noMem skb seqNum tid forward isAmsdu) := by
  have hp := reordProcessUnit_processed s vif noMem skb seqNum tid forward isAmsdu
  generalize reordProcessUnit s vif noMem skb seqNum tid forward isAmsdu = s' at hp
  cases hp with
  | freed => exact h.of_stas rfl
  | ind => exact h.of_stas (done_ind _ _).stas
  | lost => exact h.of_stas rfl
  | @ctrl mac stas _ _ hset =>
    obtain ⟨hc, he⟩ := (h.ctrl mac tid).reenable
    refine h.set mac tid (hc.unit he ⟨skb, tid, seqNum, forward, isAmsdu⟩) ?_
    rw [settleUnit_stas]
    exact hset

theorem allSound_onCtrl {calm : Prop} {s : RxPriv} (h : AllSound calm s) (mac : Bytes)
    (tid : Fin 8) (due : ReordCtrl → Bool) (next : ReordCtrl → ReordCtrl)
    (hnext : ∀ c, Sound calm c → due c = true → Sound calm (next c)) :
    AllSound calm (onCtrl s mac tid due next) := by
  simp only [onCtrl]
  cases hsta : findSta mac s.stasReordList with
  | none => exact h
  | some i =>
    dsimp only
    split_ifs with hd
    · exact h.setCtrl hsta (hnext _ (h.sound i (findSta_mem hsta).1 tid) hd) rfl
    · exact h

/-- A flush does not come between the end of the timer and its handler, or the timer is pending
again. -/
def RxEvent.Calm (s : RxPriv) : RxEvent → Prop
  | .flush iftype skb tid => ∀ mac i, macOf iftype skb = some mac →
      findSta mac s.stasReordList = some i → (i.preorderCtrl tid).enable = true →
      (i.preorderCtrl tid).timerExpired = true → (i.preorderCtrl tid).timerPending = true
  | _ => True

theorem allSound_rxStep {calm : Prop} {s : RxPriv} (h : AllSound calm s) (e : RxEvent)
    (hcalm : calm → e.Calm s) : AllSound calm (rxStep s e) := by
  cases e with
  | unit vif noMem skb seqNum tid forward isAmsdu =>
    exact allSound_reordProcessUnit h vif noMem skb seqNum tid forward isAmsdu
  | flush iftype skb tid =>
    simp only [rxStep, reordFlushTid]
    cases hmac : macOf iftype skb with
    | none => exact h.of_stas rfl
    | some mac =>
      dsimp only
      cases hsta : findSta mac s.stasReordList with
      | none => exact h
      | some i =>
        dsimp only
        split_ifs with he
        · rw [(done_foldl done_ind s _).stas]
          exact h.setCtrl hsta ((h.sound i (findSta_mem hsta).1 tid).flushed
            fun hc => hcalm hc mac i hmac hsta he) rfl
        · exact h
  | deinit mac =>
    simp only [rxStep, reordDeinitSta]
    cases findSta mac s.stasReordList with
    | none => exact h
    | some i =>
      have hsub := List.eraseP_sublist (p := fun i => decide (i.macAddr = mac))
        (l := s.stasReordList)
      dsimp only
      rw [(done_foldl done_drop s _).stas]
      exact ⟨fun j hj t => h.sound j (hsub.subset hj) t, h.nodup.sublist (hsub.map _)⟩
  | timer mac tid =>
    exact allSound_onCtrl h mac tid timerDue expireTimer fun c hc hd =>
      hc.timer (Bool.and_eq_true_iff.mp hd).1
  | handler mac tid =>
    exact allSound_onCtrl h mac tid _ reordTimeoutHandler fun c hc hd => hc.handler hd
  | work mac tid =>
    simp only [rxStep, workRuns]
    cases hsta : findSta mac s.stasReordList with
    | none => exact h
    | some i =>
      dsimp only
      split_ifs with hp
      · exact h.setCtrl hsta (h.sound i (findSta_mem hsta).1 tid).work
          (done_foldl done_ind _ _).stas
      · exact h

theorem allSound_rxRun {calm : Prop} (es : List RxEvent)
    (hcalm : calm → Guarded rxStep (fun s e => e.Calm s) .init es) : AllSound calm (rxRun es) := by
  have h : Guarded rxStep (fun s e => calm → e.Calm s) .init es := by
    by_cases hc : calm
    · exact (hcalm hc).imp fun s e he _ => he
    · exact .of_forall fun e _ s h => absurd h hc
  exact h.invariant (fun s e _ hs he => allSound_rxStep hs e he) ⟨by simp [RxPriv.init], .nil⟩

/-- In any reachable state the frames of a control ascend from the number it awaits and lie in its
window, fewer than 64 of them, and while any is held a timer, its handler or its work is on the way.
A control that is shut has neither frames nor timer, and nothing else to come unless a flush
overtook a handler. -/
theorem rxRun_windowed (es : List RxEvent) :
    ∀ i ∈ (rxRun es).stasReordList, ∀ t, Windowed (i.preorderCtrl t) ∧
      (i.preorderCtrl t).reordList.length < 64 ∧ Armed (i.preorderCtrl t) ∧
      ((i.preorderCtrl t).enable = false → (i.preorderCtrl t).reordList = [] ∧
        (i.preorderCtrl t).timerPending = false ∧
        (Guarded rxStep (fun s e => e.Calm s) .init es →
          (i.preorderCtrl t).timerExpired = false ∧ (i.preorderCtrl t).workPending = false)) := by
  intro i hi t
  have h := (allSound_rxRun es id).sound i hi t
  obtain ⟨b, hb⟩ := h.inStep
  exact ⟨hb.windowed, hb.length_lt, h.armed, h.shut⟩

/-- A frame two numbers ahead of the one before waits in a sound control. -/
theorem rxRun_windowed_gap :
    let e (s : SeqNum) : RxEvent :=
      .unit (some .station) false ⟨List.replicate 20 2, []⟩ s 0 true false
    ∃ i ∈ (rxRun [e ⟨5, by decide⟩, e ⟨7, by decide⟩]).stasReordList,
      (i.preorderCtrl 0).reordList.length = 1 ∧ Windowed (i.preorderCtrl 0) ∧
      Armed (i.preorderCtrl 0) := by
  intro e
  have hne : (rxRun [e ⟨5, by decide⟩, e ⟨7, by decide⟩]).stasReordList ≠ [] :=
    List.ne_nil_of_length_pos (by decide)
  have h := rxRun_windowed [e ⟨5, by decide⟩, e ⟨7, by decide⟩] _ (List.head_mem hne) 0
  exact ⟨_, List.head_mem hne, rfl, h.1, h.2.2.1⟩

/-- A flush between the end of the timer and its handler: the handler puts work on a control that is
shut. -/
example :
    let skb : SkBuff := ⟨List.replicate 20 2, []⟩
    let e (s : SeqNum) : RxEvent := .unit (some .station) false skb s 0 true false
    let mac := hDest skb
    ((rxRun [e ⟨5, by decide⟩, e ⟨7, by decide⟩, .timer mac 0, .flush .station skb 0,
      .handler mac 0]).stasReordList.map fun i =>
        ((i.preorderCtrl 0).enable, (i.preorderCtrl 0).workPending)) = [(false, true)] := by
  decide

end NervesSystem.RxReorder
