import NervesSystem.Media

namespace NervesSystem.RxReorder

def reorderWinsize : UInt8 := 64

/-- `SN_LESS`: the difference has the top bit of the twelve. -/
def snLess (a b : UInt16) : Bool :=
  (a - b) &&& 0x800 != 0

def snEqual (a b : UInt16) : Bool := a == b

/-- The sequence number of a frame has twelve bits. -/
abbrev SeqNum := { s : UInt16 // s.toNat < 4096 }

/-- The bytes of the frame, and those that the buffer has behind them. -/
structure SkBuff where
  data : Bytes
  room : Bytes
  deriving DecidableEq

/-- A `recv_msdu` that holds a frame. -/
structure RecvMsdu where
  pkt : SkBuff
  tid : Fin 8
  seqNum : SeqNum
  forward : Bool
  isAmsdu : Bool
  deriving DecidableEq

def RecvMsdu.rxData (f : RecvMsdu) (i : ℕ) : UInt8 :=
  (f.pkt.data ++ f.pkt.room).getD i 0

/-- `timerExpired`: the timer has ended, it is no longer pending, and its handler has yet to run. -/
structure ReordCtrl where
  enable : Bool
  indSn : UInt16
  wsizeB : UInt8
  reordList : List RecvMsdu
  timerPending : Bool
  timerExpired : Bool
  workPending : Bool

/-- A control as `reord_init_sta` sets it up. -/
def ReordCtrl.init : ReordCtrl := ⟨true, 0xFFFF, reorderWinsize, [], false, false, false⟩

/-- The result says that the frame comes too late to be ordered. -/
def reordNeedCheck (c : ReordCtrl) (seqNum : UInt16) : Bool × ReordCtrl :=
  let wsize := c.wsizeB.toUInt16
  let wend := (c.indSn + wsize - 1) &&& 0xFFF
  let indSn := if c.indSn = 0xFFFF then seqNum else c.indSn
  if snLess seqNum indSn then (true, { c with indSn := indSn })
  else if snEqual seqNum indSn then (false, { c with indSn := (indSn + 1) &&& 0xFFF })
  else if snLess wend seqNum then
    (false, { c with indSn :=
      if wsize - 1 ≤ seqNum then seqNum - (wsize - 1)
      else 0xFFF - (wsize - (seqNum + 1)) + 1 })
  else (false, { c with indSn := indSn })

/-- The list with the frame at its place, none where the number is there already. -/
def reordRxframeEnqueue (prframe : RecvMsdu) : List RecvMsdu → Option (List RecvMsdu)
  | [] => some [prframe]
  | p :: l =>
    if snLess p.seqNum prframe.seqNum then (reordRxframeEnqueue prframe l).map (p :: ·)
    else if snEqual p.seqNum prframe.seqNum then none
    else some (prframe :: p :: l)

/-- The walk over the list: the number it ends at, and whether it met a gap. -/
def processWalk (indSn : UInt16) : List RecvMsdu → UInt16 × Bool
  | [] => (indSn, false)
  | p :: l =>
    if !snLess indSn p.seqNum then
      processWalk (if snEqual indSn p.seqNum then (indSn + 1) &&& 0xFFF else indSn) l
    else (indSn, true)

def reordRxframesProcess (c : ReordCtrl) (bforced : Bool) : Bool × ReordCtrl :=
  match c.reordList with
  | [] => (false, c)
  | p :: _ =>
    let w := processWalk (if bforced then p.seqNum.1 else c.indSn) c.reordList
    (w.2, { c with indSn := w.1 })

/-- The frames that are due, and the control without them. -/
def reordRxframesInd (c : ReordCtrl) : List RecvMsdu × ReordCtrl :=
  let due (p : RecvMsdu) := !snLess c.indSn p.seqNum
  (c.reordList.takeWhile due, { c with reordList := c.reordList.dropWhile due })

/-- What the kernel does before it calls the handler. -/
def expireTimer (c : ReordCtrl) : ReordCtrl :=
  { c with timerPending := false, timerExpired := true }

def reordTimeoutHandler (c : ReordCtrl) : ReordCtrl :=
  { c with timerExpired := false, workPending := true }

def reordTimeoutWorker (c : ReordCtrl) : List RecvMsdu × ReordCtrl :=
  let p := reordRxframesProcess { c with workPending := false } true
  reordRxframesInd (if p.1 then { p.2 with timerPending := true } else p.2)

/-- What becomes of a frame that reaches its control. -/
inductive Verdict
  | late
  | duplicate
  | queued (due : List RecvMsdu)

/-- The part of `reord_process_unit` under the lock of the control. -/
def reordUnit (c : ReordCtrl) (pframe : RecvMsdu) : Verdict × ReordCtrl :=
  let (late, c) := reordNeedCheck c pframe.seqNum
  if late then (.late, c) else
    match reordRxframeEnqueue pframe c.reordList with
    | none => (.duplicate, c)
    | some l =>
      let p := reordRxframesProcess { c with reordList := l } false
      -- A gap arms the timer unless it runs; no gap stops it.
      let r := reordRxframesInd { p.2 with timerPending := p.1 }
      (.queued r.1, r.2)

/-- The test for RTP lets a frame that comes too late go only if it carries the number awaited. -/
def passesLate (c : ReordCtrl) (pframe : RecvMsdu) : Bool :=
  if pframe.rxData 42 = 0x80 then pframe.seqNum.1 == c.indSn else true

end NervesSystem.RxReorder
