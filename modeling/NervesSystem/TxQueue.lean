import NervesSystem.FrameQueue
import NervesSystem.Library.SafeWalk
import Mathlib.Logic.Function.Basic

namespace NervesSystem.TxSched

open FrameQueue (u16Inc u16Dec)
open SafeWalk (rotateLeft walk)

inductive PsId
  | legacy
  | uapsd
  deriving DecidableEq

inductive Hwq
  | bk
  | be
  | vi
  | vo
  deriving DecidableEq

inductive StopReason
  | full
  | csa
  | staPs
  | vifPs
  | chan
  deriving DecidableEq

inductive Sta
  | remote (i : Fin 32)
  | bcmc (vif : Fin 4)
  deriving DecidableEq

/-- The queues: nine for each station (the last for management), two for each interface, one for
frames off the channel. -/
inductive TxqId
  | sta (i : Fin 32) (tid : Fin 9)
  | bcmc (vif : Fin 4)
  | unk (vif : Fin 4)
  | offchan
  deriving DecidableEq

def nxRemoteStaMax (oldIc : Bool) : ℕ := if oldIc then 10 else 32

/-- Where the queue stands in `rwnx_hw->txq`. -/
def TxqId.idx (oldIc : Bool) : TxqId → ℕ
  | .sta i tid => i * 9 + tid
  | .bcmc vif => nxRemoteStaMax oldIc * 9 + vif
  | .unk vif => nxRemoteStaMax oldIc * 9 + vif + 4
  | .offchan => nxRemoteStaMax oldIc * 9 + 4 * 2

/-- `NX_NB_TXQ` -/
def nxNbTxq : ℕ := 9 * 32 + 2 * 4 + 1

/-- The older chips have room for fewer stations. -/
def TxqId.fits (oldIc : Bool) : TxqId → Prop
  | .sta i _ => i.val < nxRemoteStaMax oldIc
  | .bcmc _ | .unk _ | .offchan => True

theorem TxqId.idx_lt {oldIc : Bool} {q : TxqId} (hq : q.fits oldIc) : q.idx oldIc < nxNbTxq := by
  have hmax : nxRemoteStaMax oldIc ≤ 32 := by cases oldIc <;> decide
  unfold nxNbTxq
  cases q <;> simp only [TxqId.idx, TxqId.fits] at hq ⊢ <;> omega

/-- No two queues share an entry. -/
theorem TxqId.idx_injective {oldIc : Bool} {a b : TxqId} (ha : a.fits oldIc) (hb : b.fits oldIc)
    (h : a.idx oldIc = b.idx oldIc) : a = b := by
  cases a <;> cases b <;> simp only [TxqId.idx, TxqId.fits] at ha hb h <;> try omega
  case sta.sta i t j u =>
    have hi : i = j := Fin.ext (by omega)
    have ht : t = u := Fin.ext (by omega)
    rw [hi, ht]
  case bcmc.bcmc v w => exact congrArg _ (Fin.ext (by omega))
  case unk.unk v w => exact congrArg _ (Fin.ext (by omega))
  case offchan.offchan => rfl

def TxqId.owner : TxqId → Option Sta
  | .sta i _ => some (.remote i)
  | .bcmc vif => some (.bcmc vif)
  | .unk _ | .offchan => none

def Sta.txqs : Sta → List TxqId
  | .remote i => (List.finRange 9).map (.sta i)
  | .bcmc vif => [.bcmc vif]

def tid2hwq : Fin 9 → Hwq :=
  ![.be, .bk, .bk, .be, .vi, .vi, .vo, .vo, .vo]

def TxqId.hwq : TxqId → Hwq
  | .sta _ tid => tid2hwq tid
  | .bcmc _ => .be
  | .unk _ | .offchan => .vo

/-- `nx_txdesc_cnt` -/
def Hwq.size : Hwq → ℕ
  | .bk => 8
  | .be => 64
  | .vi => 64
  | .vo => 32

/-- Whether the queue is one of the net device. -/
def TxqId.hasNdev : TxqId → Bool
  | .sta _ tid => tid.val < 8
  | .bcmc _ => true
  | .unk _ | .offchan => false

def nxTxqInitialCredits : ℤ := 64

def ndevFlowCtrlStop : ℕ := 64

def ndevFlowCtrlRestart : ℕ := 64

/-- A buffer, by its address; management frames are confirmed in another way. -/
structure Skb where
  addr : ℕ
  mgmt : Bool
  deriving DecidableEq

/-- `struct rwnx_txq`, with the flags of its status one by one. The last four are not in the driver:
the frames queued for the first time since the queue was set up, those of them that were pushed, and
likewise for the frames queued again. -/
structure Txq where
  active : Bool
  inHwqList : Bool
  stop : List StopReason
  ndevFlowCtrl : Bool
  credits : ℤ
  pktSent : ℕ
  pktPushed : ℕ
  skList : List Skb
  lastRetrySkb : Option Skb
  nbRetry : ℕ
  pushLimit : ℕ
  psId : PsId
  queued : List Skb
  sent : List Skb
  requeued : List Skb
  resent : List Skb

def Txq.isStopped (t : Txq) : Bool := !t.stop.isEmpty

/-- `struct rwnx_sta_ps` with three flags of the station and its interface. -/
structure Ps where
  valid : Bool
  active : Bool
  pktReady : PsId → ℕ
  spCnt : PsId → ℕ
  tdlsActive : Bool
  mesh : Bool

/-- A frame given to `aicwf_frame_tx`. -/
structure Pushed where
  txq : TxqId
  skb : Skb
  eosp : Bool
  moreData : Bool

/-- `rwnx_set_traffic_status` -/
structure TrafficStatus where
  sta : Sta
  psId : PsId
  available : Bool

structure TxState where
  txq : TxqId → Txq
  hwqList : Hwq → List TxqId
  needProcessing : Hwq → Bool
  ps : Sta → Ps
  pushed : List Pushed
  status : List TrafficStatus
  bug : Bool
  warned : Bool

def TxState.setTxq (s : TxState) (q : TxqId) (t : Txq) : TxState :=
  { s with txq := Function.update s.txq q t }

def TxState.setPs (s : TxState) (i : Sta) (p : Ps) : TxState :=
  { s with ps := Function.update s.ps i p }

def TxState.setList (s : TxState) (h : Hwq) (l : List TxqId) : TxState :=
  { s with hwqList := Function.update s.hwqList h l }

def txqInit (stop : List StopReason) (psId : PsId) : Txq where
  active := true
  inHwqList := false
  stop := stop
  ndevFlowCtrl := false
  credits := nxTxqInitialCredits
  pktSent := 0
  pktPushed := 0
  skList := []
  lastRetrySkb := none
  nbRetry := 0
  pushLimit := 0
  psId := psId
  queued := []
  sent := []
  requeued := []
  resent := []

/-- No queue is set up and no station has come. -/
def TxState.init : TxState where
  txq := fun _ => { txqInit [] .legacy with active := false }
  hwqList := fun _ => []
  needProcessing := fun _ => false
  ps := fun _ => ⟨false, false, fun _ => 0, fun _ => 0, false, false⟩
  pushed := []
  status := []
  bug := false
  warned := false

def addToHwList (s : TxState) (q : TxqId) : TxState :=
  if (s.txq q).inHwqList then s
  else
    let s := s.setTxq q { s.txq q with inHwqList := true }
    let s := s.setList q.hwq (s.hwqList q.hwq ++ [q])
    { s with needProcessing := Function.update s.needProcessing q.hwq true }

def delFromHwList (s : TxState) (q : TxqId) : TxState :=
  if (s.txq q).inHwqList then
    let s := s.setTxq q { s.txq q with inHwqList := false }
    s.setList q.hwq ((s.hwqList q.hwq).erase q)
  else s

def txqStart (s : TxState) (q : TxqId) (reason : StopReason) : TxState :=
  if (s.txq q).active = true ∧ reason ∈ (s.txq q).stop then
    let s := s.setTxq q { s.txq q with stop := (s.txq q).stop.filter (· ≠ reason) }
    if (s.txq q).isStopped = false ∧ (s.txq q).skList ≠ [] then addToHwList s q else s
  else s

def txqStop (s : TxState) (q : TxqId) (reason : StopReason) : TxState :=
  if (s.txq q).active then
    delFromHwList (s.setTxq q { s.txq q with stop := (s.txq q).stop.insert reason }) q
  else s

def txqFlush (s : TxState) (q : TxqId) : TxState := s.setTxq q { s.txq q with skList := [] }

def txqDeinit (s : TxState) (q : TxqId) : TxState :=
  if (s.txq q).active then
    let s := delFromHwList s q
    txqFlush (s.setTxq q { s.txq q with active := false }) q
  else s

/-- `skb_append`: the frame is put behind another. -/
def skbAppend (old new : Skb) : List Skb → List Skb
  | [] => []
  | x :: xs => if x = old then x :: new :: xs else x :: skbAppend old new xs

def setTrafficStatus (s : TxState) (i : Sta) (available : Bool) (psId : PsId) : TxState :=
  { s with status := s.status ++ [⟨i, psId, available⟩] }

/-- A frame that is ready for a sleeping station is counted, and the first one is announced. -/
def countReady (s : TxState) (q : TxqId) : TxState :=
  match q.owner with
  | none => s
  | some i =>
    if (s.ps i).active then
      let p := (s.txq q).psId
      let ready := u16Inc ((s.ps i).pktReady p)
      let s := s.setPs i { s.ps i with pktReady := Function.update (s.ps i).pktReady p ready }
      if ready = 1 then setTrafficStatus s i true p else s
    else s

def Txq.enqueue (t : Txq) (skb : Skb) (retry : Bool) : Txq :=
  if retry then
    { t with
      skList := match t.lastRetrySkb with
        | some last => skbAppend last skb t.skList
        | none => skb :: t.skList
      lastRetrySkb := some skb
      nbRetry := t.nbRetry + 1
      requeued := t.requeued ++ [skb] }
  else { t with skList := t.skList ++ [skb], queued := t.queued ++ [skb] }

/-- The answer says whether the queue is in the list of its hardware queue. -/
def txqQueueSkb (s : TxState) (q : TxqId) (skb : Skb) (retry : Bool) : Bool × TxState :=
  let s := countReady s q
  let t := (s.txq q).enqueue skb retry
  let t := if q.hasNdev ∧ ndevFlowCtrlStop < t.skList.length then { t with ndevFlowCtrl := true }
    else t
  let s := s.setTxq q t
  if (s.txq q).isStopped then (false, s) else (true, addToHwList s q)

def Txq.getCredits (t : Txq) : ℤ :=
  if t.pushLimit ≠ 0 ∧ (t.pushLimit : ℤ) < t.credits then t.pushLimit else t.credits

/-- The frames to push, those that stay, and whether the queue has none ready after them. -/
def Txq.getSkbToPush (t : Txq) : List Skb × List Skb × Bool :=
  if (t.skList.length : ℤ) ≤ t.getCredits then (t.skList, [], true)
  else
    (t.skList.take t.getCredits.toNat, t.skList.drop t.getCredits.toNat,
      t.pushLimit ≠ 0 ∧ t.getCredits = t.pushLimit)

/-- What a push changes of the queue. -/
def Txq.push (t : Txq) (skb : Skb) : Txq :=
  let t := if t.nbRetry ≠ 0 then
      { t with
        nbRetry := t.nbRetry - 1
        lastRetrySkb := if t.nbRetry = 1 then none else t.lastRetrySkb
        resent := t.resent ++ [skb] }
    else { t with pktSent := (t.pktSent + 1) % 256, sent := t.sent ++ [skb] }
  { t with pktPushed := (t.pktPushed + 1) % 256, pushLimit := t.pushLimit - 1 }

/-- `rwnx_set_more_data_flag`: the end of the service period, and whether more is ready. -/
def setMoreDataFlag (s : TxState) (q : TxqId) : (Bool × Bool) × TxState :=
  match q.owner with
  | none => ((false, false), s)
  | some i =>
    if (s.ps i).active then
      let p := (s.txq q).psId
      let ready := u16Dec ((s.ps i).pktReady p)
      let left := u16Dec ((s.ps i).spCnt p)
      let eosp := (p == .uapsd || (s.ps i).mesh || (s.ps i).tdlsActive) && left == 0
      let s := s.setPs i { s.ps i with
        pktReady := Function.update (s.ps i).pktReady p ready
        spCnt := Function.update (s.ps i).spCnt p left }
      if ready ≠ 0 then ((eosp, true), s) else ((eosp, false), setTrafficStatus s i false p)
    else ((false, false), s)

/-- The warning is for a last frame to be sent again that is not the one noted. -/
def txPush (q : TxqId) (s : TxState) (skb : Skb) : TxState :=
  let t := s.txq q
  let unexpected := t.nbRetry = 1 ∧ t.lastRetrySkb ≠ some skb
  let (flags, s) := setMoreDataFlag s q
  let s := s.setTxq q (t.push skb)
  { s with
    warned := s.warned || decide unexpected
    pushed := s.pushed ++ [⟨q, skb, flags.1, flags.2⟩] }

/-- What is done with the queue after its frames are pushed: it leaves the list where it has no
more, and else it may have to let others go first. -/
def settleList (s : TxState) (q : TxqId) (empty : Bool) : TxState :=
  if empty then
    let s := delFromHwList s q
    s.setTxq q { s.txq q with pktSent := 0 }
  else if (s.txq q).inHwqList = true ∧ q.hwq.size < (s.txq q).pktSent then
    let s := s.setTxq q { s.txq q with pktSent := 0 }
    s.setList q.hwq (rotateLeft (s.hwqList q.hwq))
  else s

/-- A legacy service period that could not be served is given up. -/
def abortSp (s : TxState) (q : TxqId) : TxState :=
  match q.owner with
  | none => s
  | some i =>
    if (s.txq q).pushLimit ≠ 0 ∧ (s.txq q).psId = .legacy then
      let left := ((s.ps i).spCnt .legacy + 65536 - (s.txq q).pushLimit) % 65536
      let s := s.setPs i { s.ps i with spCnt := Function.update (s.ps i).spCnt .legacy left }
      s.setTxq q { s.txq q with pushLimit := 0 }
    else s

def wakeNdev (s : TxState) (q : TxqId) : TxState :=
  if (s.txq q).ndevFlowCtrl = true ∧ (s.txq q).skList.length < ndevFlowCtrlRestart then
    s.setTxq q { s.txq q with ndevFlowCtrl := false }
  else s

/-- The body of the loop of `rwnx_hwq_process`. -/
def visit (s : TxState) (q : TxqId) : TxState :=
  if (s.txq q).inHwqList = false then { s with bug := true }
  else if (s.txq q).active = false then txqFlush (delFromHwList s q) q
  else if (s.txq q).credits ≤ 0 ∨ (s.txq q).skList = [] then { s with bug := true }
  else
    let (out, rest, empty) := (s.txq q).getSkbToPush
    let s := s.setTxq q { s.txq q with skList := rest }
    let s := out.foldl (txPush q) s
    wakeNdev (abortSp (settleList s q empty) q) q

/-- No more visits than this many can be made: each takes a frame, or a queue off the list. -/
def visits (s : TxState) (h : Hwq) : ℕ :=
  ((s.hwqList h).map fun q => (s.txq q).skList.length + 1).sum

def hwqProcess (s : TxState) (h : Hwq) : TxState :=
  let s := { s with needProcessing := Function.update s.needProcessing h false }
  walk (fun s => s.hwqList h) visit TxState.bug (visits s h) s (s.hwqList h).head?

def hwqProcessAll (s : TxState) : TxState :=
  [.vo, .vi, .be, .bk].foldl
    (fun s h => if s.bug = false ∧ s.needProcessing h = true then hwqProcess s h else s) s

def u16 (n : ℤ) : ℕ := (n % 65536).toNat

/-- What `rwnx_ps_bh_enable` counts. -/
def readyCount (s : TxState) (i : Sta) (p : PsId) : ℕ :=
  match i with
  | .bcmc vif => if p = .legacy then (s.txq (.bcmc vif)).skList.length % 65536 else 0
  | .remote j => (((Sta.remote j).txqs.filter fun q => (s.txq q).psId = p).map
      fun q => (s.txq q).skList.length).sum % 65536

def psBhEnable (s : TxState) (i : Sta) (enable : Bool) : TxState :=
  if enable then
    let s := s.setPs i { s.ps i with active := true, spCnt := fun _ => 0 }
    let s := i.txqs.foldl (fun s q => txqStop s q .staPs) s
    s.setPs i { s.ps i with pktReady := readyCount s i }
  else
    let s := s.setPs i { s.ps i with active := false }
    let s := i.txqs.foldl (fun s q => s.setTxq q { s.txq q with pushLimit := 0 }) s
    let s := i.txqs.foldl (fun s q => txqStart s q .staPs) s
    if (s.ps i).pktReady .legacy ≠ 0 then setTrafficStatus s i false .legacy else s

def psSpInterrupted : ℕ := 255

def nxTidPrio : List (Fin 9) := [7, 6, 5, 4, 3, 0, 2, 1]

/-- A queue gets its part of the request. -/
def grant (s : TxState) (i : Sta) (q : TxqId) (n : ℕ) : TxState :=
  let p := (s.txq q).psId
  let s := s.setTxq q { s.txq q with pushLimit := n % 256 }
  let s := s.setPs i { s.ps i with
    spCnt := Function.update (s.ps i).spCnt p (((s.ps i).spCnt p + n) % 65536) }
  addToHwList s q

/-- The loop of `rwnx_ps_bh_traffic_req` over the queues of a station. -/
def dispatch (i : Fin 32) (p : PsId) : List (Fin 9) → ℕ → TxState → TxState
  | [], _, s => s
  | tid :: tids, req, s =>
    let t := s.txq (.sta i tid)
    let len := t.skList.length % 65536
    let len := if t.credits < len then u16 t.credits else len
    if t.psId ≠ p ∨ len = 0 then dispatch i p tids req s
    else if len < req then
      dispatch i p tids (req - len) (grant s (.remote i) (.sta i tid) len)
    else grant s (.remote i) (.sta i tid) req

def psBhTrafficReq (s : TxState) (i : Sta) (pktReq : ℕ) (p : PsId) : TxState :=
  if (s.ps i).active = false then s
  else if pktReq = psSpInterrupted ∧ p = .uapsd then
    let s := s.setPs i { s.ps i with spCnt := Function.update (s.ps i).spCnt p 0 }
    i.txqs.foldl (fun s q => s.setTxq q { s.txq q with pushLimit := 0 }) s
  else if (s.ps i).spCnt p ≠ 0 ∨ (s.ps i).pktReady p = 0 then s
  else
    let ready := (s.ps i).pktReady p
    let req := if pktReq = 0 ∨ ready < pktReq then ready else pktReq
    match i with
    | .bcmc vif =>
      let t := s.txq (.bcmc vif)
      grant s (.bcmc vif) (.bcmc vif) (if t.credits < req then u16 t.credits else req)
    | .remote j => dispatch j p nxTidPrio req s

def txRetry (s : TxState) (q : TxqId) (skb : Skb) : TxState :=
  let credits := Int.bmod ((s.txq q).credits + 1) 256
  let s := s.setTxq q { s.txq q with credits }
  let s := if 0 < credits then txqStart s q .full else s
  (txqQueueSkb s q skb true).2

def txqConfirmAny (s : TxState) (q : TxqId) : TxState :=
  let s := s.setTxq q { s.txq q with pktPushed := (s.txq q).pktPushed - 1 }
  { s with needProcessing := Function.update s.needProcessing q.hwq true }

/-- What becomes of a confirmed frame; `retry` is what the firmware asks for. -/
def settleSkb (s : TxState) (q : TxqId) (skb : Skb) (retry : Bool) : TxState :=
  if skb.mgmt = false ∧ (s.txq q).active = true ∧ retry = true then txRetry s q skb
  else if (s.txq q).active = true ∧ (s.txq q).pushLimit ≠ 0 ∧ .full ∉ (s.txq q).stop then
    addToHwList s q
  else s

def txdatacfm (s : TxState) (q : TxqId) (skb : Skb) (retry : Bool) : TxState :=
  settleSkb (txqConfirmAny s q) q skb retry

def txqCreditUpdate (s : TxState) (q : TxqId) : TxState :=
  if (s.txq q).active then
    if (s.txq q).credits ≤ 0 then txqStop s q .full else txqStart s q .full
  else s

/-- What `rwnx_start_xmit`, `intf_tx` and `rwnx_start_mgmt_xmit` do under the lock. -/
def xmitSection (s : TxState) (q : TxqId) (skb : Skb) : TxState :=
  match txqQueueSkb s q skb false with
  | (true, s) => hwqProcess s q.hwq
  | (false, s) => s

def maxTcpAck : ℕ := 200

/-- `filter` is the answer of `filter_send_tcp_ack`, which holds a TCP acknowledgement back or frees
it; what was held comes later by `intf_tx`, past the filter. `prepared` says that there is a station
for the frame, and room and memory for its headers. -/
def startXmit (s : TxState) (q : TxqId) (skb : Skb) (len : ℕ) (filter prepared : Bool) : TxState :=
  if len % 65536 ≤ maxTcpAck ∧ filter then s
  else if prepared ∧ (s.txq q).active then xmitSection s q skb
  else s

def psIdOf (uapsdTids : BitVec 16) : TxqId → PsId
  | .sta _ tid => if uapsdTids.getLsbD tid then .uapsd else .legacy
  | .bcmc _ | .unk _ | .offchan => .legacy

/-- A station comes, and its queues are set up. -/
def txqStaInit (s : TxState) (i : Sta) (stop : List StopReason) (uapsdTids : BitVec 16)
    (tdls mesh : Bool) : TxState :=
  let s := s.setPs i { s.ps i with valid := true, active := false, tdlsActive := tdls, mesh }
  i.txqs.foldl (fun s q => s.setTxq q (txqInit stop (psIdOf uapsdTids q))) s

/-- The events, each a section under the lock; a station comes before it sends or sleeps, and it is
reset before its queues are taken down. -/
inductive TxEvent
  | staInit (i : Sta) (stop : List StopReason) (uapsdTids : BitVec 16) (tdls mesh : Bool)
  | staReset (i : Sta)
  | init (q : TxqId) (stop : List StopReason)
  | deinit (q : TxqId)
  | xmit (q : TxqId) (skb : Skb)
  | confirm (q : TxqId) (skb : Skb) (retry : Bool)
  | creditUpdate (q : TxqId)
  | start (q : TxqId) (reason : StopReason)
  | stop (q : TxqId) (reason : StopReason)
  | psChange (i : Sta) (enable : Bool)
  | trafficReq (i : Sta) (pktReq : ℕ) (p : PsId)
  | task

def txStep (s : TxState) (e : TxEvent) : TxState :=
  if s.bug then s
  else match e with
    | .staInit i stop uapsdTids tdls mesh => txqStaInit s i stop uapsdTids tdls mesh
    | .staReset i => s.setPs i { s.ps i with valid := false, active := false }
    | .init q stop => s.setTxq q (txqInit stop .legacy)
    | .deinit q => txqDeinit s q
    | .xmit q skb => xmitSection s q skb
    | .confirm q skb retry => txdatacfm s q skb retry
    | .creditUpdate q => txqCreditUpdate s q
    | .start q reason => txqStart s q reason
    | .stop q reason => txqStop s q reason
    | .psChange i enable => if (s.ps i).valid then psBhEnable s i enable else s
    | .trafficReq i pktReq p => psBhTrafficReq s i pktReq p
    | .task => hwqProcessAll s

def txRun (s : TxState) (es : List TxEvent) : TxState := es.foldl txStep s

end NervesSystem.TxSched
