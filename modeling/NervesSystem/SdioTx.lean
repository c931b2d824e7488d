import NervesSystem.FrameQueue
import NervesSystem.SdioFormat
import NervesSystem.Library.Trace

namespace NervesSystem.SdioTx

open Lanes FrameQueue Records Trace

def dataFlowCtrlThresh : ℤ := 2

def flowCtrlRetryCount : ℕ := 50

def bufferSize : ℕ := 1536

def txqlen : ℕ := 2048 * 4

/-- `pkt->priority & 0x7` -/
def prio (pkt : TxPkt) : Fin 8 := ⟨pkt.priority % 8, Nat.mod_lt _ (by decide)⟩

/-- What the register shows, on some chips in seven bits. -/
def fcReg (chip : ChipId) (r : UInt8) : ℕ :=
  (if chip.padsLength then r &&& 0x7F else r).toNat

/-- One look at the flow control register, none where it cannot be read. `again` is what follows
where the register does not show more than the threshold. -/
def flowCtrlLook (chip : ChipId) (txAggrCounter thresh : ℤ) (reg : Option UInt8)
    (again : ℤ → ℤ) : ℤ :=
  match reg with
  | none => -1
  | some r =>
    if thresh < fcReg chip r then min (fcReg chip r : ℤ) txAggrCounter
    else again (-(fcReg chip r : ℤ))

/-- The register is looked at until it shows more than the threshold; `regs n` is what it shows
with `n` looks left. -/
def flowCtrlLoop (chip : ChipId) (txAggrCounter thresh : ℤ) (regs : ℕ → Option UInt8) : ℕ → ℤ
  | 0 => flowCtrlLook chip txAggrCounter thresh (regs 0) id
  | n + 1 => flowCtrlLook chip txAggrCounter thresh (regs (n + 1)) fun _ =>
      flowCtrlLoop chip txAggrCounter thresh regs n

def sdioFlowCtrl (chip : ChipId) (txAggrCounter : ℤ) (regs : ℕ → Option UInt8) : ℤ :=
  flowCtrlLoop chip txAggrCounter dataFlowCtrlThresh regs flowCtrlRetryCount

def sdioFlowCtrlMsg (chip : ChipId) (txAggrCounter : ℤ) (regs : ℕ → Option UInt8) : ℤ :=
  flowCtrlLoop chip txAggrCounter 0 regs flowCtrlRetryCount

/-- What was given to the bus, in its order: the answers of the flow control, the batches with
their bytes, the batches that were not written, and the commands. -/
inductive Log
  | credit (bufcnt : ℤ)
  | data (pkts : List TxPkt) (bytes : Bytes)
  | lost (pkts : List TxPkt)
  | cmd (bytes : Bytes)
  | cmdLost

def Log.pkts : Log → List TxPkt
  | .data pkts _ => pkts
  | .lost pkts => pkts
  | _ => []

/-- Where `sdio_bustx_thread` is: before its wait, in `aicwf_sdio_tx_process` before the wakeup,
before the command and before the data, at the head of its loop, and within `aicwf_sdio_send`
before the batch is looked at, with a frame out of the queue, and before its end. -/
inductive Pc
  | waiting
  | woken
  | cmd
  | data
  | loop
  | send (txnow : Bool)
  | gather (pkt : TxPkt) (txnow : Bool)
  | settle (txnow : Bool)
  | exited

/-- `aicwf_tx_priv`, with what it uses of the bus. `trgg` counts what `bustx_trgg` was completed,
`completing` the callers that have still to complete it. The last four fields keep what has become
of the frames. -/
structure TxState where
  txq : FrameQueue TxPkt
  txPktcnt : ℤ
  fwAvailBufcnt : ℤ
  aggr : AggrBuf
  gathered : List TxPkt
  cmdTxstate : Bool
  cmdTxSucc : Bool
  cmdBuf : Bytes
  cmdLen : ℕ
  busUp : Bool
  active : Bool
  trgg : ℕ
  completing : ℕ
  pc : Pc
  accepted : List TxPkt
  refused : List TxPkt
  flushed : List TxPkt
  log : List Log

/-- The state after `aicwf_sdio_probe`, the buffers as they were allocated. -/
def TxState.init (mem cmdBuf : Bytes) : TxState where
  txq := frameQueueInit 8 txqlen
  txPktcnt := 0
  fwAvailBufcnt := 0
  aggr := ⟨mem, 0, 0⟩
  gathered := []
  cmdTxstate := false
  cmdTxSucc := false
  cmdBuf := cmdBuf
  cmdLen := 0
  busUp := true
  active := false
  trgg := 0
  completing := 0
  pc := .waiting
  accepted := []
  refused := []
  flushed := []
  log := []

/-- What the device answers in one step of the thread: the flow control register for the data and
for each try of a command, and whether a write to it succeeds. -/
structure Answer where
  regs : ℕ → Option UInt8
  msgRegs : ℕ → ℕ → Option UInt8
  written : Bool

/-- The frame is freed where the bus is down or the queue is full. -/
def sdioBusTxdata (s : TxState) (pkt : TxPkt) : TxState :=
  if s.busUp then
    match frameEnq s.txq pkt (prio pkt) with
    | (true, txq) => { s with
        txq := txq
        txPktcnt := s.txPktcnt + 1
        completing := s.completing + 1
        accepted := s.accepted ++ [pkt] }
    | (false, txq) => { s with txq := txq, refused := s.refused ++ [pkt] }
  else { s with refused := s.refused ++ [pkt] }

def sdioBusTxmsg (s : TxState) (msg : Bytes) (msglen : ℕ) : TxState :=
  { s with
    cmdTxstate := true
    cmdTxSucc := false
    cmdBuf := msg
    cmdLen := msglen
    completing := if s.busUp then s.completing + 1 else s.completing }

def complete (s : TxState) : TxState :=
  if s.completing = 0 then s
  else { s with completing := s.completing - 1, trgg := s.trgg + 1 }

/-- `aicwf_sdio_sleep_allow`, where nothing else keeps the device awake. -/
def sdioSleepAllow (s : TxState) : TxState :=
  if s.busUp ∧ s.txPktcnt ≤ 0 ∧ ¬ s.cmdTxstate then { s with active := false } else s

/-- The second part of `aicwf_sdio_bus_stop`. -/
def flushTxq (s : TxState) : TxState :=
  if s.busUp then s
  else { s with
    txq := (frameQueueFlush s.txq).2
    flushed := s.flushed ++ (frameQueueFlush s.txq).1 }

/-- The tries of `aicwf_sdio_tx_msg` for enough buffers, with the last answer. -/
def msgBufferCnt (len : ℕ) (cnt : ℕ → ℤ) : ℕ → ℤ
  | 0 => cnt 0
  | retry + 1 =>
    if cnt (retry + 1) ≤ 0 ∨ 0 < cnt (retry + 1) ∧ cnt (retry + 1) * bufferSize < len then
      msgBufferCnt len cnt retry
    else cnt (retry + 1)

/-- The command as it is written, with its padding: its bytes are those of the command buffer. -/
def cmdBytes (cmdBuf : Bytes) (cmdLen : ℕ) : Bytes :=
  let payloadLen := cmdLen % 65536
  let payload := store cmdBuf payloadLen (zeros (roundup payloadLen txAlignment - payloadLen))
  let payloadLen := roundup payloadLen txAlignment
  if payloadLen % txpktBlocksize ≠ 0 then
    (store payload payloadLen (zeros tailLen)).take
      (((payloadLen + tailLen) / txpktBlocksize + 1) * txpktBlocksize)
  else payload.take payloadLen

/-- Whether `aicwf_sdio_tx_msg` finds the buffers for the command. -/
def msgFits (chip : ChipId) (txAggrCounter : ℤ) (len : ℕ) (a : Answer) : Bool :=
  match chip with
  | .aic8800dc => true
  | .aic8800dw => false
  | .aic8801 | .aic8800d80 | .aic8800d80x2 =>
    let cnt := msgBufferCnt len (fun n => sdioFlowCtrlMsg chip txAggrCounter (a.msgRegs n)) 10
    0 < cnt ∧ len < cnt * bufferSize

/-- The state keeps `cmd_txstate` where the buffers are not found. -/
def sdioTxMsg (chip : ChipId) (txAggrCounter : ℤ) (s : TxState) (a : Answer) : TxState :=
  let bytes := cmdBytes s.cmdBuf s.cmdLen
  if msgFits chip txAggrCounter bytes.length a then
    { s with
      cmdTxstate := false
      cmdTxSucc := a.written
      log := s.log ++ [if a.written then .cmd bytes else .cmdLost] }
  else s

def readFlowCtrl (chip : ChipId) (txAggrCounter : ℤ) (s : TxState) (a : Answer) : TxState :=
  let cnt := sdioFlowCtrl chip txAggrCounter a.regs
  { s with fwAvailBufcnt := cnt, log := s.log ++ [.credit cnt] }

/-- The batch is written where the bus is up, and the buffer is empty again in any case. -/
def sendBatch (s : TxState) (a : Answer) : TxState :=
  let (bytes, aggr) := sdioAggrSend s.aggr
  { s with
    fwAvailBufcnt := s.fwAvailBufcnt - s.aggr.count
    aggr := aggr
    gathered := []
    log := s.log ++ [if s.busUp ∧ a.written then .data s.gathered bytes else .lost s.gathered] }

/-- The loop of the data is left after a frame that had to go at once. -/
def next (txnow : Bool) : Pc := if txnow then .waiting else .loop

/-- `aicwf_sdio_send`, up to the frame it takes from the queue. -/
def sendTake (s : TxState) (txnow : Bool) (a : Answer) : TxState :=
  if s.aggr.count = 0 ∧ s.aggr.tail ≠ 0 ∨ s.aggr.count ≠ 0 ∧ s.aggr.tail = 0 then
    if 0 < s.aggr.tail then
      { s with
        aggr := sdioAggrbufReset s.aggr
        gathered := []
        log := s.log ++ [.lost s.gathered]
        pc := next txnow }
    else { s with pc := next txnow }
  else if (s.aggr.count : ℤ) = s.fwAvailBufcnt - dataFlowCtrlThresh then
    if 0 < s.aggr.count then { sendBatch s a with pc := next txnow }
    else { s with pc := next txnow }
  else
    match frameDequeue s.txq with
    | (none, txq) => { s with txq := txq, pc := next txnow }
    | (some pkt, txq) => { s with txq := txq, pc := .gather pkt txnow }

/-- `aicwf_sdio_send`, from the frame on: it is gathered, and the batch goes where it is full, where
no other frame waits and where it has to go at once. -/
def sendGather (chip : ChipId) (s : TxState) (pkt : TxPkt) (txnow : Bool) (a : Answer) : TxState :=
  let s := { s with
    aggr := sdioAggr chip s.aggr pkt
    gathered := s.gathered ++ [pkt]
    pc := .settle txnow }
  if s.txPktcnt = 1 ∨ txnow ∨ (s.aggr.count : ℤ) = s.fwAvailBufcnt - dataFlowCtrlThresh then
    sendBatch s a
  else s

/-- One step of `sdio_bustx_thread`. -/
def threadStep (chip : ChipId) (txAggrCounter : ℤ) (s : TxState) (a : Answer) : TxState :=
  match s.pc with
  | .waiting =>
    if s.trgg = 0 then s
    else if s.busUp then
      { s with
        trgg := s.trgg - 1
        pc := if 0 < s.txPktcnt ∨ s.cmdTxstate then .woken else .waiting }
    else { s with trgg := s.trgg - 1, pc := .exited }
  | .woken =>
    if s.busUp then { s with active := true, pc := .cmd } else { s with pc := .waiting }
  | .cmd =>
    if s.cmdTxstate then
      if s.active then { sdioTxMsg chip txAggrCounter s a with pc := .data }
      else { s with pc := .waiting }
    else { s with pc := .data }
  | .data =>
    if s.active then
      if isFramequeueEmpty s.txq then { s with pc := .loop }
      else { readFlowCtrl chip txAggrCounter s a with pc := .loop }
    else { s with pc := .waiting }
  | .loop =>
    if isFramequeueEmpty s.txq then { s with pc := .waiting }
    else if ¬ s.busUp then { s with pc := .waiting }
    else if s.fwAvailBufcnt ≤ dataFlowCtrlThresh then
      if s.cmdTxstate then { s with pc := .waiting } else readFlowCtrl chip txAggrCounter s a
    else { s with pc := .send s.cmdTxstate }
  | .send txnow => sendTake s txnow a
  | .gather pkt txnow => sendGather chip s pkt txnow a
  | .settle txnow => { s with txPktcnt := s.txPktcnt - 1, pc := next txnow }
  | .exited => s

/-- What can happen, in any order: a frame or a command is brought, a caller completes the trigger,
the device is put to sleep, the bus goes down, its queue is flushed, the thread makes a step. -/
inductive TxEvent
  | txdata (pkt : TxPkt)
  | txmsg (msg : Bytes) (msglen : ℕ)
  | complete
  | sleep
  | busDown
  | flush
  | thread (a : Answer)

def txStep (chip : ChipId) (txAggrCounter : ℤ) (s : TxState) : TxEvent → TxState
  | .txdata pkt => sdioBusTxdata s pkt
  | .txmsg msg msglen => sdioBusTxmsg s msg msglen
  | .complete => complete s
  | .sleep => sdioSleepAllow s
  | .busDown => { s with busUp := false }
  | .flush => flushTxq s
  | .thread a => threadStep chip txAggrCounter s a

def txRun (chip : ChipId) (txAggrCounter : ℤ) (s : TxState) (es : List TxEvent) : TxState :=
  es.foldl (txStep chip txAggrCounter) s

/-- The frames that have left the queue for the bus, in their order. -/
def TxState.sent (s : TxState) : List TxPkt := s.log.flatMap Log.pkts

/-- The frame the thread has in its hands. -/
def Pc.taken : Pc → List TxPkt
  | .gather pkt _ => [pkt]
  | _ => []

/-- What `tx_pktcnt` counts beyond the queue. -/
def Pc.busy : Pc → ℕ
  | .gather _ _ => 1
  | .settle _ => 1
  | _ => 0

/-- The buffers the last answer of the flow control still allows. -/
def creditLeft (log : List Log) : ℤ :=
  log.foldl (fun left e => match e with
    | .credit cnt => cnt
    | e => left - e.pkts.length) 0

/-- What `Held` is about. -/
def TxState.data (s : TxState) :=
  (s.txq, s.txPktcnt, s.fwAvailBufcnt, s.aggr, s.gathered, s.busUp, s.accepted, s.flushed, s.log)

/-- Where the frames are, and what is counted of them. -/
structure Held (chip : ChipId) (s : TxState) : Prop where
  sound : s.txq.Sound 8
  order : Serves prio s.accepted (s.sent ++ s.gathered ++ s.pc.taken ++ s.flushed) s.txq.queuelist
  rested : s.flushed = [] ∨ total s.txq.queuelist = 0 ∧ s.busUp = false
  pktcnt : s.busUp = true → s.txPktcnt = total s.txq.queuelist + s.pc.busy
  count : s.aggr.count = s.gathered.length
  filled : s.aggr.filled = batch chip s.gathered
  aligned : s.aggr.Aligned
  credit : creditLeft s.log = s.fwAvailBufcnt

/-- The batch leaves room for one frame more, and is empty where the thread waits. -/
def Room (s : TxState) : Prop :=
  match s.pc with
  | .waiting => s.busUp = true → s.gathered = []
  | .woken => s.gathered = []
  | .cmd => s.gathered = []
  | .data => s.gathered = []
  | .loop => (s.gathered = [] ∨ s.gathered.length + 2 < s.fwAvailBufcnt) ∧
      (s.busUp = true → s.gathered = [] ∨ 0 < total s.txq.queuelist)
  | .send _ => 2 < s.fwAvailBufcnt ∧
      (s.gathered = [] ∨ s.gathered.length + 2 < s.fwAvailBufcnt) ∧
      (s.busUp = true → 0 < total s.txq.queuelist)
  | .gather _ _ => 2 < s.fwAvailBufcnt ∧
      (s.gathered = [] ∨ s.gathered.length + 2 < s.fwAvailBufcnt)
  | .settle true => s.gathered = []
  | .settle false => (s.gathered = [] ∨ s.gathered.length + 2 < s.fwAvailBufcnt) ∧
      (s.busUp = true → s.gathered = [] ∨ 0 < total s.txq.queuelist)
  | .exited => s.busUp = false

/-- Nothing is left behind, or something will wake the thread. -/
def Told (s : TxState) : Prop :=
  s.busUp = true → total s.txq.queuelist = 0 ∨ s.cmdTxstate = true ∨ 0 < s.trgg + s.completing

/-- The thread does not go to wait on frames that nobody tells it of. -/
def Awake (s : TxState) : Prop :=
  match s.pc with
  | .waiting => Told s
  | .cmd => s.active = true ∨ Told s
  | .data => s.active = true ∨ Told s
  | .send true => s.cmdTxstate = true
  | .gather _ true => s.cmdTxstate = true
  | .settle true => s.cmdTxstate = true
  | _ => True

variable {chip : ChipId} {txAggrCounter : ℤ} {s s' : TxState}

theorem Held.congr (h : Held chip s) (hd : s'.data = s.data) (ht : s'.pc.taken = s.pc.taken)
    (hb : s'.pc.busy = s.pc.busy) : Held chip s' := by
  simp only [TxState.data, Prod.mk.injEq] at hd
  obtain ⟨hq, hp, ha, hg, hl, hu, hacc, hf, hlog⟩ := hd
  constructor
  · rw [hq]
    exact h.sound
  · rw [TxState.sent, hacc, hlog, hl, ht, hf, hq]
    exact h.order
  · rw [hf, hq, hu]
    exact h.rested
  · rw [hu, hp, hq, hb]
    exact h.pktcnt
  · rw [hg, hl]
    exact h.count
  · rw [hg, hl]
    exact h.filled
  · rw [hg]
    exact h.aligned
  · rw [hlog, ha]
    exact h.credit

theorem creditLeft_concat (log : List Log) (e : Log) : creditLeft (log ++ [e]) =
    match e with
    | .credit cnt => cnt
    | e => creditLeft log - e.pkts.length := by
  rw [creditLeft, List.foldl_append]
  rfl

theorem Held.tail_eq_zero (h : Held chip s) : s.aggr.tail = 0 ↔ s.aggr.count = 0 := by
  have hlen := filled_length h.aligned.within
  rw [h.filled] at hlen
  rw [h.count, ← hlen]
  cases s.gathered with
  | nil => simp [batch]
  | cons pkt pkts =>
    simp [batch, block_length]

theorem txdata_cases (h : s.txq.Sound 8) (pkt : TxPkt) :
    (sdioBusTxdata s pkt = { s with refused := s.refused ++ [pkt] }) ∨
      s.busUp = true ∧ ∃ txq : FrameQueue TxPkt, txq.Sound 8 ∧
        txq.queuelist = push s.txq.queuelist (prio pkt) pkt ∧
        sdioBusTxdata s pkt = { s with
          txq := txq
          txPktcnt := s.txPktcnt + 1
          completing := s.completing + 1
          accepted := s.accepted ++ [pkt] } := by
  rw [sdioBusTxdata]
  split
  · next hup =>
    have henq := h.enq pkt (prio pkt)
    generalize frameEnq s.txq pkt (prio pkt) = r at henq ⊢
    obtain ⟨ok, txq⟩ := r
    split at henq
    · obtain ⟨rfl, hsound, hlist, -⟩ := henq
      exact .inr ⟨hup, txq, hsound, hlist, rfl⟩
    · cases henq
      exact .inl rfl
  · exact .inl rfl

theorem Held.txdata (h : Held chip s) (pkt : TxPkt) : Held chip (sdioBusTxdata s pkt) := by
  rcases txdata_cases h.sound pkt with hs | ⟨hup, txq, hsound, hlist, hs⟩ <;> rw [hs]
  · exact h.congr rfl rfl rfl
  · refine ⟨hsound, ?_, ?_, ?_, h.count, h.filled, h.aligned, h.credit⟩
    · show Serves prio (s.accepted ++ [pkt]) _ txq.queuelist
      rw [hlist]
      exact h.order.push pkt
    · refine .inl (h.rested.resolve_right ?_)
      simp [hup]
    · intro _
      show s.txPktcnt + 1 = total txq.queuelist + s.pc.busy
      rw [hlist, total_push, h.pktcnt hup]
      omega

theorem Held.flush (h : Held chip s) : Held chip (flushTxq s) := by
  rw [flushTxq]
  split
  · exact h
  · next hup =>
    obtain ⟨hfreed, hlist, hsound⟩ := h.sound.flush
    refine ⟨hsound, ?_, .inr ⟨?_, by simpa using hup⟩, fun hu => absurd hu hup, h.count, h.filled,
      h.aligned, h.credit⟩
    · show Serves prio s.accepted (_ ++ (s.flushed ++ (frameQueueFlush s.txq).1))
        (frameQueueFlush s.txq).2.queuelist
      rw [hfreed, hlist, ← List.append_assoc]
      exact h.order.flush
    · show total (frameQueueFlush s.txq).2.queuelist = 0
      rw [hlist]
      exact total_eq_zero.mpr fun _ => rfl

theorem Held.readFlowCtrl (h : Held chip s) (a : Answer) :
    Held chip (readFlowCtrl chip txAggrCounter s a) := by
  refine ⟨h.sound, ?_, h.rested, h.pktcnt, h.count, h.filled, h.aligned, ?_⟩
  · have hsent : (SdioTx.readFlowCtrl chip txAggrCounter s a).sent = s.sent := by
      simp [TxState.sent, SdioTx.readFlowCtrl, Log.pkts]
    rw [hsent]
    exact h.order
  · exact creditLeft_concat ..

theorem sdioTxMsg_cases (chip : ChipId) (txAggrCounter : ℤ) (s : TxState) (a : Answer) :
    sdioTxMsg chip txAggrCounter s a = s ∨ ∃ e succ, e.pkts = [] ∧ (∀ n, e ≠ .credit n) ∧
      (∀ pkts bytes, e ≠ .data pkts bytes ∧ e ≠ .lost pkts) ∧
      sdioTxMsg chip txAggrCounter s a =
        { s with cmdTxstate := false, cmdTxSucc := succ, log := s.log ++ [e] } := by
  rw [sdioTxMsg]
  split
  · refine .inr ⟨_, _, ?_, ?_, ?_, rfl⟩ <;> cases a.written <;> simp [Log.pkts]
  · exact .inl rfl

theorem creditLeft_of_pkts {e : Log} (he : ∀ n, e ≠ .credit n) (log : List Log) :
    creditLeft (log ++ [e]) = creditLeft log - e.pkts.length := by
  rw [creditLeft_concat]
  cases e with
  | credit n => exact absurd rfl (he n)
  | _ => rfl

theorem sent_concat (log : List Log) (e : Log) :
    (log ++ [e]).flatMap Log.pkts = log.flatMap Log.pkts ++ e.pkts := by
  rw [List.flatMap_append, List.flatMap_singleton]

theorem Held.txMsg (h : Held chip s) (a : Answer) :
    Held chip (sdioTxMsg chip txAggrCounter s a) := by
  rcases sdioTxMsg_cases chip txAggrCounter s a with
    hs | ⟨e, succ, he, hn, -, hs⟩ <;> rw [hs]
  · exact h
  · refine ⟨h.sound, ?_, h.rested, h.pktcnt, h.count, h.filled, h.aligned, ?_⟩
    · show Serves prio s.accepted ((s.log ++ [e]).flatMap Log.pkts ++ _ ++ _ ++ _) _
      rw [sent_concat, he, List.append_nil]
      exact h.order
    · show creditLeft (s.log ++ [e]) = s.fwAvailBufcnt
      rw [creditLeft_of_pkts hn, he, List.length_nil, h.credit]
      omega

theorem sendBatch_cases (s : TxState) (a : Answer) : ∃ e, e.pkts = s.gathered ∧
    (∀ n, e ≠ .credit n) ∧ (∀ pkts bytes, e = .data pkts bytes →
      pkts = s.gathered ∧ bytes = (sdioAggrSend s.aggr).1) ∧
    (s.busUp = true → a.written = true → e = .data s.gathered (sdioAggrSend s.aggr).1) ∧
    sendBatch s a = { s with
      fwAvailBufcnt := s.fwAvailBufcnt - s.aggr.count
      aggr := (sdioAggrSend s.aggr).2
      gathered := []
      log := s.log ++ [e] } := by
  refine ⟨_, ?_, ?_, ?_, ?_, rfl⟩
  · split <;> rfl
  · intro n
    split <;> simp
  · intro pkts bytes he
    split at he
    · cases he
      exact ⟨rfl, rfl⟩
    · cases he
  · intro hup hw
    rw [if_pos ⟨hup, hw⟩]
    rfl

theorem Held.sendBatch (h : Held chip s) (a : Answer) : Held chip (sendBatch s a) := by
  obtain ⟨e, he, hn, -, -, hs⟩ := sendBatch_cases s a
  rw [hs]
  refine ⟨h.sound, ?_, h.rested, h.pktcnt, rfl, rfl, ⟨Nat.zero_le _, rfl⟩, ?_⟩
  · show Serves prio s.accepted ((s.log ++ [e]).flatMap Log.pkts ++ [] ++ s.pc.taken ++ s.flushed) _
    rw [sent_concat, he, List.append_nil]
    exact h.order
  · show creditLeft (s.log ++ [e]) = s.fwAvailBufcnt - s.aggr.count
    rw [creditLeft_of_pkts hn, he, h.credit, h.count]

theorem next_taken (txnow : Bool) : (next txnow).taken = [] := by cases txnow <;> rfl

theorem next_busy (txnow : Bool) : (next txnow).busy = 0 := by cases txnow <;> rfl

/-- What `aicwf_sdio_send` does before it has a frame: the count and the length agree, so the buffer
is not reset. -/
theorem sendTake_cases (h : Held chip s) (txnow : Bool) (a : Answer) :
    (s.aggr.count = s.fwAvailBufcnt - 2 ∧
      (sendTake s txnow a = { s with pc := next txnow } ∨
        sendTake s txnow a = { sendBatch s a with pc := next txnow })) ∨
    (s.aggr.count ≠ s.fwAvailBufcnt - 2 ∧ total s.txq.queuelist = 0 ∧
      sendTake s txnow a = { s with pc := next txnow }) ∨
    (s.aggr.count ≠ s.fwAvailBufcnt - 2 ∧ ∃ p pkt t, ∃ txq : FrameQueue TxPkt,
      IsTop s.txq.queuelist p ∧ s.txq.queuelist p = pkt :: t ∧
      txq.queuelist = pop s.txq.queuelist p ∧ txq.Sound 8 ∧
      sendTake s txnow a = { s with txq := txq, pc := .gather pkt txnow }) := by
  have hz := h.tail_eq_zero
  rw [sendTake, if_neg (by omega)]
  split
  · next hc =>
    refine .inl ⟨hc, ?_⟩
    split
    · exact .inr rfl
    · exact .inl rfl
  · next hc =>
    right
    have hdeq := h.sound.dequeue
    generalize frameDequeue s.txq = r at hdeq ⊢
    obtain ⟨out, txq⟩ := r
    rcases hdeq with ⟨hempty, he⟩ | ⟨p, pkt, t, htop, hp, hout, hlist, hsound, -⟩
    · cases he
      exact .inl ⟨hc, hempty, rfl⟩
    · dsimp only at hout
      subst hout
      exact .inr ⟨hc, p, pkt, t, txq, htop, hp, hlist, hsound, rfl⟩

theorem Held.sendTake (h : Held chip s) {txnow : Bool} (a : Answer) (hpc : s.pc = .send txnow) :
    Held chip (sendTake s txnow a) := by
  have ht : s.pc.taken = [] := by rw [hpc]; rfl
  have hb : s.pc.busy = 0 := by rw [hpc]; rfl
  rcases sendTake_cases h txnow a with
    ⟨-, hs | hs⟩ | ⟨-, -, hs⟩ | ⟨-, p, pkt, t, txq, htop, hp, hlist, hsound, hs⟩ <;> rw [hs]
  · exact h.congr rfl ((next_taken txnow).trans ht.symm) ((next_busy txnow).trans hb.symm)
  · exact (h.sendBatch a).congr rfl ((next_taken txnow).trans ht.symm)
      ((next_busy txnow).trans hb.symm)
  · exact h.congr rfl ((next_taken txnow).trans ht.symm) ((next_busy txnow).trans hb.symm)
  · have htotal := total_pop htop.ne_nil
    have hflushed : s.flushed = [] := h.rested.resolve_right (by omega)
    refine ⟨hsound, ?_, .inl hflushed, ?_, h.count, h.filled, h.aligned, h.credit⟩
    · have horder := h.order.pop hp
      rw [hflushed, ht, List.append_nil, List.append_nil] at horder
      show Serves prio s.accepted (s.sent ++ s.gathered ++ [pkt] ++ s.flushed) txq.queuelist
      rw [hflushed, List.append_nil, hlist]
      exact horder
    · intro hup
      have hcnt := h.pktcnt hup
      rw [hb] at hcnt
      show s.txPktcnt = total txq.queuelist + 1
      rw [hlist]
      omega

theorem sendGather_cases (chip : ChipId) (s : TxState) (pkt : TxPkt) (txnow : Bool) (a : Answer) :
    ∃ s' : TxState, s' = { s with
        aggr := sdioAggr chip s.aggr pkt
        gathered := s.gathered ++ [pkt]
        pc := .settle txnow } ∧
      ((sendGather chip s pkt txnow a = sendBatch s' a) ∨
        s.txPktcnt ≠ 1 ∧ txnow = false ∧ (s'.aggr.count : ℤ) ≠ s.fwAvailBufcnt - 2 ∧
          sendGather chip s pkt txnow a = s') := by
  refine ⟨_, rfl, ?_⟩
  rw [sendGather]
  dsimp only
  split
  · exact .inl rfl
  · next hc =>
    obtain ⟨h1, hc⟩ := not_or.mp hc
    obtain ⟨hn, h2⟩ := not_or.mp hc
    exact .inr ⟨h1, by simpa using hn, h2, rfl⟩

theorem Held.gathered (h : Held chip s) {pkt : TxPkt} {txnow : Bool}
    (hpc : s.pc = .gather pkt txnow) : Held chip { s with
      aggr := sdioAggr chip s.aggr pkt
      gathered := s.gathered ++ [pkt]
      pc := .settle txnow } := by
  obtain ⟨hfilled, haligned⟩ := sdioAggr_filled chip h.aligned pkt
  refine ⟨h.sound, ?_, h.rested, ?_, ?_, ?_, haligned, h.credit⟩
  · have horder := h.order
    rw [hpc] at horder
    show Serves prio s.accepted (s.sent ++ (s.gathered ++ [pkt]) ++ [] ++ s.flushed) _
    rw [List.append_nil, ← List.append_assoc]
    exact horder
  · intro hup
    have hcnt := h.pktcnt hup
    rw [hpc] at hcnt
    exact hcnt
  · show s.aggr.count + 1 = (s.gathered ++ [pkt]).length
    rw [h.count, List.length_append, List.length_singleton]
  · show (sdioAggr chip s.aggr pkt).filled = batch chip (s.gathered ++ [pkt])
    rw [hfilled, h.filled, batch_concat]

theorem Held.sendGather (h : Held chip s) {pkt : TxPkt} {txnow : Bool} (a : Answer)
    (hpc : s.pc = .gather pkt txnow) : Held chip (sendGather chip s pkt txnow a) := by
  obtain ⟨s', hs', hs | ⟨-, -, -, hs⟩⟩ := sendGather_cases chip s pkt txnow a
  · rw [hs, hs']
    exact (h.gathered hpc).sendBatch a
  · rw [hs, hs']
    exact h.gathered hpc

/-- What holds whenever the thread may be looked at. -/
structure Inv (chip : ChipId) (s : TxState) : Prop where
  held : Held chip s
  room : Room s
  awake : Awake s

theorem Room.mono (hr : Room s) (hpc : s'.pc = s.pc) (hg : s'.gathered = s.gathered)
    (ha : s'.fwAvailBufcnt = s.fwAvailBufcnt) (hu : s'.busUp = true → s.busUp = true ∧
      total s.txq.queuelist ≤ total s'.txq.queuelist) : Room s' := by
  unfold Room at hr ⊢
  rw [hpc, hg, ha]
  split <;> rename_i hp <;> simp only [hp] at hr
  · exact fun h => hr (hu h).1
  · exact hr
  · exact hr
  · exact hr
  · exact ⟨hr.1, fun h => (hr.2 (hu h).1).imp_right fun h0 => Nat.lt_of_lt_of_le h0 (hu h).2⟩
  · exact ⟨hr.1, hr.2.1, fun h => Nat.lt_of_lt_of_le (hr.2.2 (hu h).1) (hu h).2⟩
  · exact hr
  · exact hr
  · exact ⟨hr.1, fun h => (hr.2 (hu h).1).imp_right fun h0 => Nat.lt_of_lt_of_le h0 (hu h).2⟩
  · cases hup : s'.busUp with
    | false => rfl
    | true => exact absurd (hu hup).1 (by simp [hr])

theorem Awake.mono (hw : Awake s) (hpc : s'.pc = s.pc)
    (hc : s.cmdTxstate = true → s'.cmdTxstate = true)
    (ha : s.active = true → s'.active = true ∨ Told s') (ht : Told s → Told s') : Awake s' := by
  unfold Awake at hw ⊢
  rw [hpc]
  split <;> rename_i hp <;> simp only [hp] at hw
  · exact ht hw
  · exact hw.elim ha fun h => .inr (ht h)
  · exact hw.elim ha fun h => .inr (ht h)
  · exact hc hw
  · exact hc hw
  · exact hc hw
  · trivial

theorem Inv.txdata (h : Inv chip s) (pkt : TxPkt) : Inv chip (sdioBusTxdata s pkt) := by
  refine ⟨h.held.txdata pkt, ?_, ?_⟩ <;>
    rcases txdata_cases h.held.sound pkt with hs | ⟨hup, txq, hsound, hlist, hs⟩ <;> rw [hs]
  · exact h.room.mono rfl rfl rfl fun hu => ⟨hu, Nat.le_refl _⟩
  · refine h.room.mono rfl rfl rfl fun hu => ⟨hu, ?_⟩
    show total s.txq.queuelist ≤ total txq.queuelist
    rw [hlist, total_push]
    exact Nat.le_succ _
  · exact h.awake.mono rfl id .inl id
  · have ht : Told { s with
        txq := txq
        txPktcnt := s.txPktcnt + 1
        completing := s.completing + 1
        accepted := s.accepted ++ [pkt] } := by
      intro _
      right
      right
      show 0 < s.trgg + (s.completing + 1)
      omega
    exact h.awake.mono rfl id .inl fun _ => ht

theorem Inv.txmsg (h : Inv chip s) (msg : Bytes) (msglen : ℕ) :
    Inv chip (sdioBusTxmsg s msg msglen) := by
  refine ⟨h.held.congr rfl rfl rfl, ?_, ?_⟩
  · exact h.room.mono rfl rfl rfl fun hu => ⟨hu, Nat.le_refl _⟩
  · exact h.awake.mono rfl (fun _ => rfl) .inl fun _ _ => .inr (.inl rfl)

theorem Inv.complete (h : Inv chip s) : Inv chip (complete s) := by
  rw [SdioTx.complete]
  split
  · exact h
  · next hc =>
    refine ⟨h.held.congr rfl rfl rfl, ?_, ?_⟩
    · exact h.room.mono rfl rfl rfl fun hu => ⟨hu, Nat.le_refl _⟩
    · refine h.awake.mono rfl id .inl fun ht hu => (ht hu).imp_right fun h => h.imp_right
        fun h0 => ?_
      show 0 < s.trgg + 1 + (s.completing - 1)
      omega

theorem Inv.sleep (h : Inv chip s) : Inv chip (sdioSleepAllow s) := by
  rw [sdioSleepAllow]
  split
  · next hc =>
    obtain ⟨hup, hcnt, -⟩ := hc
    refine ⟨h.held.congr rfl rfl rfl, ?_, ?_⟩
    · exact h.room.mono rfl rfl rfl fun hu => ⟨hu, Nat.le_refl _⟩
    · refine h.awake.mono rfl id (fun _ => .inr fun _ => .inl ?_) id
      have hp := h.held.pktcnt hup
      show total s.txq.queuelist = 0
      omega
  · exact h

theorem Inv.busDown (h : Inv chip s) : Inv chip { s with busUp := false } := by
  refine ⟨⟨h.held.sound, h.held.order, ?_, nofun, h.held.count, h.held.filled, h.held.aligned,
    h.held.credit⟩, ?_, ?_⟩
  · exact h.held.rested.imp_right fun hr => ⟨hr.1, rfl⟩
  · exact h.room.mono rfl rfl rfl nofun
  · exact h.awake.mono rfl id .inl fun _ => nofun

theorem Inv.flush (h : Inv chip s) : Inv chip (flushTxq s) := by
  refine ⟨h.held.flush, ?_, ?_⟩ <;> rw [flushTxq] <;> split
  · exact h.room
  · next hup => exact h.room.mono rfl rfl rfl fun hu => absurd hu hup
  · exact h.awake
  · next hup => exact h.awake.mono rfl id .inl fun _ hu => absurd hu hup

theorem Held.pc (h : Held chip s) {pc : Pc} (ht : pc.taken = s.pc.taken)
    (hb : pc.busy = s.pc.busy) : Held chip { s with pc := pc } :=
  h.congr rfl ht hb

theorem inv_waiting (h : Inv chip s) (a : Answer) (hpc : s.pc = .waiting) :
    Inv chip (threadStep chip txAggrCounter s a) := by
  have hr := h.room
  have hp := h.held.pktcnt
  simp only [Room, hpc] at hr
  simp only [threadStep, hpc]
  split
  · exact h
  split
  · next hup =>
    by_cases hc : 0 < s.txPktcnt ∨ s.cmdTxstate = true
    · rw [if_pos hc]
      exact ⟨h.held.congr rfl (by rw [hpc]; rfl) (by rw [hpc]; rfl), hr hup, trivial⟩
    · rw [if_neg hc]
      refine ⟨h.held.congr rfl (by rw [hpc]) (by rw [hpc]), hr, fun _ => .inl ?_⟩
      have hz := hp hup
      show total s.txq.queuelist = 0
      rw [hpc] at hz
      simp only [Pc.busy] at hz
      omega
  · next hup =>
    exact ⟨h.held.congr rfl (by rw [hpc]; rfl) (by rw [hpc]; rfl), by simpa [Room] using hup,
      trivial⟩

theorem inv_woken (h : Inv chip s) (a : Answer) (hpc : s.pc = .woken) :
    Inv chip (threadStep chip txAggrCounter s a) := by
  have hr := h.room
  simp only [Room, hpc] at hr
  simp only [threadStep, hpc]
  split
  · exact ⟨h.held.congr rfl (by rw [hpc]; rfl) (by rw [hpc]; rfl), hr, .inl rfl⟩
  · next hup =>
    exact ⟨h.held.pc (by rw [hpc]; rfl) (by rw [hpc]; rfl), fun _ => hr, fun hu => absurd hu hup⟩

theorem inv_cmd (h : Inv chip s) (a : Answer) (hpc : s.pc = .cmd) :
    Inv chip (threadStep chip txAggrCounter s a) := by
  have hr := h.room
  have hw := h.awake
  simp only [Room, hpc] at hr
  simp only [Awake, hpc] at hw
  simp only [threadStep, hpc]
  split
  · next hc =>
    split
    · next hact =>
      have hpcm : (sdioTxMsg chip txAggrCounter s a).pc = .cmd ∧
          (sdioTxMsg chip txAggrCounter s a).gathered = s.gathered ∧
          (sdioTxMsg chip txAggrCounter s a).active = s.active := by
        rcases sdioTxMsg_cases chip txAggrCounter s a with
          hs | ⟨e, succ, -, -, -, hs⟩ <;> rw [hs] <;> exact ⟨hpc, rfl, rfl⟩
      refine ⟨(h.held.txMsg a).pc (by rw [hpcm.1]; rfl) (by rw [hpcm.1]; rfl), ?_, .inl ?_⟩
      · exact hpcm.2.1.trans hr
      · exact hpcm.2.2.trans hact
    · exact ⟨h.held.pc (by rw [hpc]; rfl) (by rw [hpc]; rfl), fun _ => hr, fun _ => .inr (.inl hc)⟩
  · exact ⟨h.held.pc (by rw [hpc]; rfl) (by rw [hpc]; rfl), hr, hw⟩

theorem inv_data (h : Inv chip s) (a : Answer) (hpc : s.pc = .data) :
    Inv chip (threadStep chip txAggrCounter s a) := by
  have hr := h.room
  have hw := h.awake
  simp only [Room, hpc] at hr
  simp only [Awake, hpc] at hw
  simp only [threadStep, hpc]
  split
  · split
    · exact ⟨h.held.pc (by rw [hpc]; rfl) (by rw [hpc]; rfl), ⟨.inl hr, fun _ => .inl hr⟩, trivial⟩
    · have hpcr : (readFlowCtrl chip txAggrCounter s a).pc = s.pc := rfl
      exact ⟨(h.held.readFlowCtrl a).pc (by rw [hpcr, hpc]; rfl) (by rw [hpcr, hpc]; rfl),
        ⟨.inl hr, fun _ => .inl hr⟩, trivial⟩
  · next hact =>
    exact ⟨h.held.pc (by rw [hpc]; rfl) (by rw [hpc]; rfl), fun _ => hr, hw.resolve_left hact⟩

theorem inv_loop (h : Inv chip s) (a : Answer) (hpc : s.pc = .loop) :
    Inv chip (threadStep chip txAggrCounter s a) := by
  have hr := h.room
  have hempty := h.held.sound.isEmpty
  simp only [Room, hpc] at hr
  simp only [threadStep, hpc]
  have hwait : Held chip { s with pc := .waiting } :=
    h.held.pc (by rw [hpc]; rfl) (by rw [hpc]; rfl)
  split
  · next he =>
    have hz := hempty.mp he
    exact ⟨hwait, fun hu => (hr.2 hu).resolve_right (by omega), fun _ => .inl hz⟩
  · next he =>
    have hpos : 0 < total s.txq.queuelist := Nat.pos_of_ne_zero fun hz => he (hempty.mpr hz)
    split
    · next hup => exact ⟨hwait, fun hu => absurd hu hup, fun hu => absurd hu hup⟩
    split
    · next hlow =>
      have hg : s.gathered = [] := hr.1.resolve_right (by rw [dataFlowCtrlThresh] at hlow; omega)
      split
      · next hc => exact ⟨hwait, fun _ => hg, fun _ => .inr (.inl hc)⟩
      · refine ⟨h.held.readFlowCtrl a, ?_, ?_⟩
        · have hpcr : (readFlowCtrl chip txAggrCounter s a).pc = .loop := hpc
          simp only [Room, hpcr]
          exact ⟨.inl hg, fun _ => .inl hg⟩
        · have hpcr : (readFlowCtrl chip txAggrCounter s a).pc = .loop := hpc
          simp only [Awake, hpcr]
    · next hlow =>
      have htwo : 2 < s.fwAvailBufcnt := by
        rw [dataFlowCtrlThresh] at hlow
        omega
      refine ⟨h.held.pc (by rw [hpc]; rfl) (by rw [hpc]; rfl), ⟨htwo, hr.1, fun _ => hpos⟩, ?_⟩
      cases s.cmdTxstate with
      | false => trivial
      | true => exact rfl

theorem awake_next {txnow : Bool} (hpc : s.pc = next txnow)
    (hc : txnow = true → s.cmdTxstate = true) : Awake s := by
  cases txnow with
  | false => simp [Awake, hpc, next]
  | true =>
    simp only [Awake, hpc, next]
    exact fun _ => .inr (.inl (hc rfl))

/-- Where the queue is not empty, `aicwf_sdio_send` takes a frame: the batch is never full then. -/
theorem send_cases (txAggrCounter : ℤ) (h : Inv chip s) (a : Answer) {txnow : Bool}
    (hpc : s.pc = .send txnow) :
    s.busUp ≠ true ∧ total s.txq.queuelist = 0 ∧
      threadStep chip txAggrCounter s a = { s with pc := next txnow } ∨
    ∃ p pkt t, ∃ txq : FrameQueue TxPkt, IsTop s.txq.queuelist p ∧ s.txq.queuelist p = pkt :: t ∧
      txq.queuelist = pop s.txq.queuelist p ∧
      threadStep chip txAggrCounter s a = { s with txq := txq, pc := .gather pkt txnow } := by
  have hr := h.room
  simp only [Room, hpc] at hr
  simp only [threadStep, hpc]
  have hne : (s.aggr.count : ℤ) ≠ s.fwAvailBufcnt - 2 := by
    rw [h.held.count]
    rcases hr.2.1 with hg | hg
    · rw [hg, List.length_nil]
      omega
    · omega
  rcases sendTake_cases h.held txnow a with
    ⟨he, -⟩ | ⟨-, hz, hs⟩ | ⟨-, p, pkt, t, txq, htop, hp, hlist, -, hs⟩
  · exact absurd he hne
  · exact .inl ⟨fun hu => absurd (hr.2.2 hu) (by omega), hz, hs⟩
  · exact .inr ⟨p, pkt, t, txq, htop, hp, hlist, hs⟩

theorem inv_send (h : Inv chip s) (a : Answer) {txnow : Bool} (hpc : s.pc = .send txnow) :
    Inv chip (threadStep chip txAggrCounter s a) := by
  have hr := h.room
  have hw := h.awake
  have hheld : Held chip (threadStep chip txAggrCounter s a) := by
    simp only [threadStep, hpc]
    exact h.held.sendTake a hpc
  have hcmd : txnow = true → s.cmdTxstate = true := by
    rintro rfl
    simpa only [Awake, hpc] using hw
  simp only [Room, hpc] at hr
  rcases send_cases txAggrCounter h a hpc with
    ⟨hup, -, hs⟩ | ⟨p, pkt, t, txq, -, -, -, hs⟩
  · refine ⟨hheld, ?_, ?_⟩ <;> rw [hs]
    · cases txnow with
      | false => exact ⟨hr.2.1, fun hu => absurd hu hup⟩
      | true => exact fun hu => absurd hu hup
    · exact awake_next rfl hcmd
  · refine ⟨hheld, ?_, ?_⟩ <;> rw [hs]
    · exact ⟨hr.1, hr.2.1⟩
    · cases txnow with
      | false => trivial
      | true => exact hcmd rfl

theorem inv_gather (h : Inv chip s) (a : Answer) {pkt : TxPkt} {txnow : Bool}
    (hpc : s.pc = .gather pkt txnow) : Inv chip (threadStep chip txAggrCounter s a) := by
  have hr := h.room
  have hw := h.awake
  have hheld := h.held.sendGather a hpc
  have hcount := h.held.count
  have hcnt := h.held.pktcnt
  have hcmd : txnow = true → s.cmdTxstate = true := by
    rintro rfl
    simpa only [Awake, hpc] using hw
  simp only [Room, hpc] at hr
  rw [hpc] at hcnt
  simp only [Pc.busy] at hcnt
  simp only [threadStep, hpc]
  obtain ⟨s', hs', hs | ⟨hone, hnow, hfull, hs⟩⟩ := sendGather_cases chip s pkt txnow a
  · obtain ⟨e, -, -, -, -, hb⟩ := sendBatch_cases s' a
    refine ⟨hheld, ?_, ?_⟩ <;> rw [hs, hb, hs']
    · cases txnow with
      | false => exact ⟨.inl rfl, fun _ => .inl rfl⟩
      | true => exact rfl
    · cases txnow with
      | false => trivial
      | true => exact hcmd rfl
  · subst hnow
    refine ⟨hheld, ?_, ?_⟩ <;> rw [hs, hs']
    · rw [hs', sdioAggr_count, hcount] at hfull
      constructor
      · right
        show ((s.gathered ++ [pkt]).length : ℤ) + 2 < s.fwAvailBufcnt
        rw [List.length_append, List.length_singleton]
        rcases hr.2 with hg | hg
        · rw [hg, List.length_nil] at hfull ⊢
          omega
        · omega
      · intro hu
        right
        have hz := hcnt hu
        show 0 < total s.txq.queuelist
        omega
    · trivial

theorem inv_settle (h : Inv chip s) (a : Answer) {txnow : Bool} (hpc : s.pc = .settle txnow) :
    Inv chip (threadStep chip txAggrCounter s a) := by
  have hr := h.room
  have hw := h.awake
  have hcnt := h.held.pktcnt
  have horder := h.held.order
  rw [hpc] at hcnt horder
  simp only [threadStep, hpc]
  have hheld : Held chip { s with txPktcnt := s.txPktcnt - 1, pc := next txnow } := by
    refine ⟨h.held.sound, ?_, h.held.rested, ?_, h.held.count, h.held.filled, h.held.aligned,
      h.held.credit⟩
    · show Serves prio s.accepted (s.sent ++ s.gathered ++ (next txnow).taken ++ s.flushed) _
      rw [next_taken]
      exact horder
    · intro hu
      have hz := hcnt hu
      simp only [Pc.busy] at hz
      show s.txPktcnt - 1 = total s.txq.queuelist + (next txnow).busy
      rw [next_busy]
      omega
  refine ⟨hheld, ?_, ?_⟩
  · cases txnow with
    | false =>
      simp only [Room, hpc] at hr
      exact hr
    | true =>
      simp only [Room, hpc] at hr
      exact fun _ => hr
  · refine awake_next rfl ?_
    rintro rfl
    simpa only [Awake, hpc] using hw

theorem inv_threadStep (h : Inv chip s) (a : Answer) :
    Inv chip (threadStep chip txAggrCounter s a) := by
  cases hpc : s.pc with
  | waiting => exact inv_waiting h a hpc
  | woken => exact inv_woken h a hpc
  | cmd => exact inv_cmd h a hpc
  | data => exact inv_data h a hpc
  | loop => exact inv_loop h a hpc
  | send txnow => exact inv_send h a hpc
  | gather pkt txnow => exact inv_gather h a hpc
  | settle txnow => exact inv_settle h a hpc
  | exited =>
    simp only [threadStep, hpc]
    exact h

theorem inv_txStep (txAggrCounter : ℤ) (h : Inv chip s) (e : TxEvent) :
    Inv chip (txStep chip txAggrCounter s e) := by
  cases e with
  | txdata pkt => exact h.txdata pkt
  | txmsg msg msglen => exact h.txmsg msg msglen
  | complete => exact h.complete
  | sleep => exact h.sleep
  | busDown => exact h.busDown
  | flush => exact h.flush
  | thread a => exact inv_threadStep h a

theorem inv_init {mem cmdBuf : Bytes} : Inv chip (.init mem cmdBuf) := by
  refine ⟨⟨sound_init (by decide), .nil, .inl rfl, fun _ => ?_, rfl, ?_, ⟨Nat.zero_le _, rfl⟩, rfl⟩,
    fun _ => rfl, fun _ => .inl ?_⟩
  · show (0 : ℤ) = ((total fun _ => ([] : List TxPkt)) : ℕ) + (0 : ℕ)
    rw [total_eq_zero.mpr fun _ => rfl]
    rfl
  · rfl
  · exact total_eq_zero.mpr fun _ => rfl

theorem inv_txRun (chip : ChipId) (txAggrCounter : ℤ) (mem cmdBuf : Bytes) (es : List TxEvent) :
    Inv chip (txRun chip txAggrCounter (.init mem cmdBuf) es) := by
  induction es using List.reverseRecOn with
  | nil => exact inv_init
  | append_singleton es e ih =>
    rw [txRun, List.foldl_append]
    exact inv_txStep txAggrCounter ih e

def TxEvent.brought : TxEvent → List TxPkt
  | .txdata pkt => [pkt]
  | _ => []

/-- The events of the thread and the other callers leave alone what was brought. -/
def SameFrames (s s' : TxState) : Prop := s'.accepted = s.accepted ∧ s'.refused = s.refused

theorem sameFrames_threadStep (chip : ChipId) (txAggrCounter : ℤ) (s : TxState) (a : Answer) :
    SameFrames s (threadStep chip txAggrCounter s a) := by
  have hmsg : SameFrames s (sdioTxMsg chip txAggrCounter s a) := by
    rcases sdioTxMsg_cases chip txAggrCounter s a with
      hs | ⟨e, succ, -, -, -, hs⟩ <;> rw [hs] <;> exact ⟨rfl, rfl⟩
  have hbatch : ∀ s, SameFrames s (sendBatch s a) := fun _ => ⟨rfl, rfl⟩
  unfold threadStep
  split
  case h_3 => split_ifs <;> first | exact ⟨rfl, rfl⟩ | exact hmsg
  case h_6 txnow =>
    unfold sendTake
    split_ifs <;> first | exact ⟨rfl, rfl⟩ | (split <;> exact ⟨rfl, rfl⟩)
  case h_7 =>
    rename_i pkt txnow _
    obtain ⟨s', hs', hs | ⟨-, -, -, hs⟩⟩ := sendGather_cases chip s pkt txnow a <;>
      rw [hs, hs'] <;> exact ⟨rfl, rfl⟩
  all_goals first | exact ⟨rfl, rfl⟩ | (split_ifs <;> exact ⟨rfl, rfl⟩)

theorem accepted_refused_txStep (txAggrCounter : ℤ) (h : Inv chip s) (e : TxEvent) :
    ((txStep chip txAggrCounter s e).accepted ++ (txStep chip txAggrCounter s e).refused).Perm
      (s.accepted ++ s.refused ++ e.brought) := by
  have hsame : ∀ s', SameFrames s s' → (s'.accepted ++ s'.refused).Perm
      (s.accepted ++ s.refused ++ []) := by
    intro s' hs'
    rw [hs'.1, hs'.2, List.append_nil]
  cases e with
  | txdata pkt =>
    show ((sdioBusTxdata s pkt).accepted ++ (sdioBusTxdata s pkt).refused).Perm _
    rcases txdata_cases h.held.sound pkt with hs | ⟨hup, txq, hsound, hlist, hs⟩ <;> rw [hs]
    · rw [← List.append_assoc]
      exact .refl _
    · show (s.accepted ++ [pkt] ++ s.refused).Perm (s.accepted ++ s.refused ++ [pkt])
      rw [List.append_assoc, List.append_assoc]
      exact List.perm_append_comm.append_left _
  | txmsg msg msglen => exact hsame _ ⟨rfl, rfl⟩
  | complete =>
    apply hsame
    show SameFrames s (complete s)
    rw [complete]
    split <;> exact ⟨rfl, rfl⟩
  | sleep =>
    apply hsame
    show SameFrames s (sdioSleepAllow s)
    rw [sdioSleepAllow]
    split <;> exact ⟨rfl, rfl⟩
  | busDown => exact hsame _ ⟨rfl, rfl⟩
  | flush =>
    apply hsame
    show SameFrames s (flushTxq s)
    rw [flushTxq]
    split <;> exact ⟨rfl, rfl⟩
  | thread a => exact hsame _ (sameFrames_threadStep chip txAggrCounter s a)

theorem accepted_refused_txRun {mem cmdBuf : Bytes} (es : List TxEvent) :
    ((txRun chip txAggrCounter (.init mem cmdBuf) es).accepted ++
        (txRun chip txAggrCounter (.init mem cmdBuf) es).refused).Perm
      (es.flatMap TxEvent.brought) := by
  induction es using List.reverseRecOn with
  | nil => exact .refl _
  | append_singleton es e ih =>
    have hstep := accepted_refused_txStep txAggrCounter
      (inv_txRun chip txAggrCounter mem cmdBuf es) e
    rw [txRun, List.foldl_append, List.flatMap_append, List.flatMap_singleton]
    exact hstep.trans (ih.append_right _)

/-- Every frame that is brought is refused or accepted, and of those of one priority the accepted
ones go to the bus in their order, each once: what has not gone waits in the batch, in the hands of
the thread and in the queue, or was flushed when the bus was down. The frame the thread takes is the
oldest of the highest priority that has any. -/
theorem txRun_in_order (chip : ChipId) (txAggrCounter : ℤ) (mem cmdBuf : Bytes)
    (es : List TxEvent) :
    let s := txRun chip txAggrCounter (.init mem cmdBuf) es
    (s.accepted ++ s.refused).Perm (es.flatMap TxEvent.brought) ∧
      (∀ p, s.accepted.filter (prio · = p) =
        (s.sent ++ s.gathered ++ s.pc.taken ++ s.flushed).filter (prio · = p) ++
          s.txq.queuelist p) ∧
      ∀ a pkt txnow, s.pc = .send txnow →
        (threadStep chip txAggrCounter s a).pc = .gather pkt txnow →
        s.txq.queuelist (prio pkt) =
            pkt :: (threadStep chip txAggrCounter s a).txq.queuelist (prio pkt) ∧
          ∀ q, prio pkt < q → s.txq.queuelist q = [] := by
  have h := inv_txRun chip txAggrCounter mem cmdBuf es
  refine ⟨accepted_refused_txRun es, h.held.order, fun a pkt txnow hpc htaken => ?_⟩
  rcases send_cases txAggrCounter h a hpc with ⟨-, -, hs⟩ | ⟨p, pkt', t, txq, htop, hp, hlist, hs⟩
  · rw [hs] at htaken
    cases txnow <;> cases htaken
  · rw [hs] at htaken ⊢
    cases htaken
    have hprio : prio pkt = p := h.held.order.rank_of_mem (hp ▸ List.mem_cons_self)
    rw [hprio]
    refine ⟨?_, htop.above⟩
    show _ = pkt :: txq.queuelist p
    rw [hlist, pop_same, hp, List.tail_cons]

/-- The room there is for a frame in the hands of the thread. -/
theorem room_gather (h : Inv chip s) {pkt : TxPkt} {txnow : Bool} (hpc : s.pc = .gather pkt txnow) :
    (s.gathered.length : ℤ) + 3 ≤ s.fwAvailBufcnt := by
  have hr := h.room
  simp only [Room, hpc] at hr
  rcases hr.2 with hg | hg
  · rw [hg, List.length_nil]
    omega
  · omega

/-- What a step may add to the log: an answer of the flow control, or a batch within the credit that
the thread has just gathered. -/
structure Adds (chip : ChipId) (txAggrCounter : ℤ) (s s' : TxState) (l : Log) : Prop where
  log : s'.log = s.log ++ [l]
  credit : ∀ n, l = .credit n → n ≤ dataFlowCtrlThresh ∨ n ≤ txAggrCounter
  pkts : l.pkts = [] ∨ 2 ≤ s'.fwAvailBufcnt
  data : ∀ pkts bytes, l = .data pkts bytes → ∃ pkt txnow, s.pc = .gather pkt txnow ∧
    pkts = s.gathered ++ [pkt] ∧ bytes = (sdioAggrSend (sdioAggr chip s.aggr pkt)).1

theorem flowCtrlLoop_le {thresh : ℤ} (ht : 0 ≤ thresh) (regs : ℕ → Option UInt8) (n : ℕ) :
    flowCtrlLoop chip txAggrCounter thresh regs n ≤ thresh ∨
      flowCtrlLoop chip txAggrCounter thresh regs n ≤ txAggrCounter := by
  have hlook : ∀ reg again, (∀ r, r ≤ 0 → again r ≤ thresh ∨ again r ≤ txAggrCounter) →
      flowCtrlLook chip txAggrCounter thresh reg again ≤ thresh ∨
        flowCtrlLook chip txAggrCounter thresh reg again ≤ txAggrCounter := by
    intro reg again hagain
    cases reg with
    | none =>
      left
      show (-1 : ℤ) ≤ thresh
      omega
    | some r =>
      simp only [flowCtrlLook]
      by_cases hr : thresh < fcReg chip r
      · rw [if_pos hr]
        exact .inr (min_le_right _ _)
      · rw [if_neg hr]
        exact hagain _ (by omega)
  induction n with
  | zero => exact hlook _ _ fun r hr => .inl (show r ≤ thresh by omega)
  | succ n ih => exact hlook _ _ fun _ _ => ih

theorem adds_credit (s : TxState) (a : Answer) (pc : Pc) :
    Adds chip txAggrCounter s { readFlowCtrl chip txAggrCounter s a with pc := pc }
      (.credit (sdioFlowCtrl chip txAggrCounter a.regs)) := by
  refine ⟨rfl, ?_, .inl rfl, nofun⟩
  rintro n ⟨⟩
  exact flowCtrlLoop_le (by decide) a.regs flowCtrlRetryCount

theorem log_threadStep (txAggrCounter : ℤ) (h : Inv chip s) (a : Answer) :
    (threadStep chip txAggrCounter s a).log = s.log ∨
      ∃ l, Adds chip txAggrCounter s (threadStep chip txAggrCounter s a) l ∧
        (s.busUp = true → a.written = true → ∀ pkts, l ≠ .lost pkts) := by
  cases hpc : s.pc with
  | waiting =>
    left
    simp only [threadStep, hpc]
    split_ifs <;> rfl
  | woken =>
    left
    simp only [threadStep, hpc]
    split_ifs <;> rfl
  | cmd =>
    simp only [threadStep, hpc]
    split_ifs
    · rcases sdioTxMsg_cases chip txAggrCounter s a with
        hs | ⟨e, succ, he, hn, hd, hs⟩ <;> rw [hs]
      · exact .inl rfl
      · refine .inr ⟨e, ⟨rfl, fun n hc => absurd hc (hn n), .inl he, fun p b hc => ?_⟩, ?_⟩
        · exact absurd hc (hd p b).1
        · exact fun _ _ p => (hd p []).2
    · exact .inl rfl
    · exact .inl rfl
  | data =>
    simp only [threadStep, hpc]
    split_ifs
    · exact .inl rfl
    · exact .inr ⟨_, adds_credit s a .loop, fun _ _ _ => nofun⟩
    · exact .inl rfl
  | loop =>
    simp only [threadStep, hpc]
    split_ifs <;> first | exact .inl rfl | exact .inr ⟨_, adds_credit s a s.pc, fun _ _ _ => nofun⟩
  | send txnow =>
    left
    rcases send_cases txAggrCounter h a hpc with
      ⟨-, -, hs⟩ | ⟨p, pkt, t, txq, -, -, -, hs⟩ <;> rw [hs]
  | gather pkt txnow =>
    have hroom := room_gather h hpc
    simp only [threadStep, hpc]
    obtain ⟨s', hs', hs | ⟨-, -, -, hs⟩⟩ := sendGather_cases chip s pkt txnow a
    · obtain ⟨e, he, hn, hd, hw, hb⟩ := sendBatch_cases s' a
      rw [hs, hb]
      right
      refine ⟨e, ⟨?_, fun n hc => absurd hc (hn n), .inr ?_, fun pkts bytes hc => ?_⟩, ?_⟩
      · rw [hs']
      · show 2 ≤ s'.fwAvailBufcnt - (s'.aggr.count : ℤ)
        rw [hs', sdioAggr_count, h.held.count]
        push_cast
        omega
      · obtain ⟨h1, h2⟩ := hd pkts bytes hc
        rw [hs'] at h1 h2
        exact ⟨pkt, txnow, hpc, h1, h2⟩
      · intro hup hwr pkts
        rw [hs'] at hw
        rw [hw hup hwr]
        exact nofun
    · rw [hs, hs']
      exact .inl rfl
  | settle txnow =>
    left
    simp only [threadStep, hpc]
  | exited =>
    left
    simp only [threadStep, hpc]

theorem log_txStep (txAggrCounter : ℤ) (h : Inv chip s) (e : TxEvent) :
    (txStep chip txAggrCounter s e).log = s.log ∨
      ∃ l, Adds chip txAggrCounter s (txStep chip txAggrCounter s e) l := by
  cases e with
  | txdata pkt =>
    left
    show (sdioBusTxdata s pkt).log = s.log
    rcases txdata_cases h.held.sound pkt with hs | ⟨hup, txq, hsound, hlist, hs⟩ <;> rw [hs]
  | txmsg msg msglen => exact .inl rfl
  | complete =>
    left
    show (complete s).log = s.log
    rw [complete]
    split <;> rfl
  | sleep =>
    left
    show (sdioSleepAllow s).log = s.log
    rw [sdioSleepAllow]
    split <;> rfl
  | busDown => exact .inl rfl
  | flush =>
    left
    show (flushTxq s).log = s.log
    rw [flushTxq]
    split <;> rfl
  | thread a =>
    rcases log_threadStep txAggrCounter h a with hs | ⟨l, hl, -⟩
    · exact .inl hs
    · exact .inr ⟨l, hl⟩

/-- No batch has gone beyond the credit. -/
def Thrifty (log : List Log) : Prop :=
  ∀ pre l post, log = pre ++ [l] ++ post → l.pkts ≠ [] → 2 ≤ creditLeft (pre ++ [l])

theorem Thrifty.concat {log : List Log} {l : Log} (h : Thrifty log)
    (hl : l.pkts = [] ∨ 2 ≤ creditLeft (log ++ [l])) : Thrifty (log ++ [l]) := by
  intro pre l' post he hne
  rcases List.eq_nil_or_concat' post with rfl | ⟨post, x, rfl⟩
  · rw [List.append_nil] at he
    obtain ⟨rfl, hll⟩ := List.append_inj' he rfl
    cases hll
    exact hl.resolve_left hne
  · rw [← List.append_assoc] at he
    obtain ⟨hlog, -⟩ := List.append_inj' he rfl
    exact h pre l' post hlog hne

theorem txRun_concat {mem cmdBuf : Bytes} (es : List TxEvent) (e : TxEvent) :
    txRun chip txAggrCounter (.init mem cmdBuf) (es ++ [e]) =
      txStep chip txAggrCounter (txRun chip txAggrCounter (.init mem cmdBuf) es) e :=
  List.foldl_concat ..

theorem thrifty_txRun {mem cmdBuf : Bytes} (es : List TxEvent) :
    Thrifty (txRun chip txAggrCounter (.init mem cmdBuf) es).log := by
  induction es using List.reverseRecOn with
  | nil =>
    intro pre l post he
    simp [txRun, TxState.init] at he
  | append_singleton es e ih =>
    have h := inv_txRun chip txAggrCounter mem cmdBuf es
    have hcredit := (inv_txStep txAggrCounter h e).held.credit
    rw [txRun_concat]
    rcases log_txStep txAggrCounter h e with hs | ⟨l, hl⟩
    · rw [hs]
      exact ih
    · rw [hl.log] at hcredit ⊢
      exact ih.concat (hcredit ▸ hl.pkts)

theorem capped_txRun {mem cmdBuf : Bytes} (es : List TxEvent) (n : ℤ)
    (hn : .credit n ∈ (txRun chip txAggrCounter (.init mem cmdBuf) es).log) :
    n ≤ dataFlowCtrlThresh ∨ n ≤ txAggrCounter := by
  induction es using List.reverseRecOn with
  | nil => simp [txRun, TxState.init] at hn
  | append_singleton es e ih =>
    have h := inv_txRun chip txAggrCounter mem cmdBuf es
    rw [txRun_concat] at hn
    rcases log_txStep txAggrCounter h e with hs | ⟨l, hl⟩
    · exact ih (hs ▸ hn)
    · rw [hl.log] at hn
      rcases List.mem_append.mp hn with hn | hn
      · exact ih hn
      · exact hl.credit n (List.mem_singleton.mp hn).symm

theorem Thrifty.spent {log pre mid post : List Log} {n : ℤ} (h : Thrifty log)
    (he : log = pre ++ .credit n :: mid ++ post) (hmid : ∀ l ∈ mid, ∀ m, l ≠ .credit m) :
    creditLeft (pre ++ .credit n :: mid) = n - (mid.flatMap Log.pkts).length ∧
      (mid.flatMap Log.pkts ≠ [] → 2 ≤ creditLeft (pre ++ .credit n :: mid)) := by
  induction mid using List.reverseRecOn generalizing post with
  | nil =>
    have hc : creditLeft (pre ++ [.credit n]) = n := creditLeft_concat pre (.credit n)
    rw [hc]
    simp
  | append_singleton mid l ih =>
    have hl : ∀ m, l ≠ .credit m := hmid l (by simp)
    have hlog : log = pre ++ .credit n :: mid ++ l :: post := by rw [he]; simp
    obtain ⟨hleft, hne⟩ := ih hlog fun l' hl' => hmid l' (by simp [hl'])
    have happ : pre ++ Log.credit n :: (mid ++ [l]) = (pre ++ Log.credit n :: mid) ++ [l] := by simp
    rw [happ, creditLeft_of_pkts hl, hleft, sent_concat, List.length_append]
    refine ⟨by push_cast; omega, fun hpkts => ?_⟩
    by_cases hnil : l.pkts = []
    · rw [hnil, List.append_nil] at hpkts
      rw [hnil, List.length_nil, ← hleft]
      have htwo := hne hpkts
      omega
    · have htwo := h (pre ++ .credit n :: mid) l post (by rw [he]; simp) hnil
      rwa [creditLeft_of_pkts hl, hleft] at htwo

/-- Between two readings of the flow control register fewer frames go to the bus than it shows
buffers: `DATA_FLOW_CTRL_THRESH` of them are always left, and never more are used than the module
parameter `tx_aggr_counter` says. -/
theorem txRun_credit (chip : ChipId) (txAggrCounter : ℤ) (mem cmdBuf : Bytes) (es : List TxEvent)
    (pre mid post : List Log) (n : ℤ)
    (hlog : (txRun chip txAggrCounter (.init mem cmdBuf) es).log =
      pre ++ .credit n :: mid ++ post)
    (hmid : ∀ l ∈ mid, ∀ m, l ≠ .credit m) :
    mid.flatMap Log.pkts = [] ∨ (mid.flatMap Log.pkts).length + dataFlowCtrlThresh ≤ n ∧
      n ≤ txAggrCounter := by
  obtain ⟨hleft, hne⟩ := (thrifty_txRun es).spent hlog hmid
  have hcap := capped_txRun es n (by rw [hlog]; simp)
  by_cases hnil : mid.flatMap Log.pkts = []
  · exact .inl hnil
  · have htwo := hne hnil
    have hpos := List.length_pos_iff.mpr hnil
    rw [dataFlowCtrlThresh] at hcap ⊢
    omega

theorem Held.mem_accepted (h : Held chip s) {pkt : TxPkt}
    (hp : pkt ∈ s.sent ++ (s.gathered ++ s.pc.taken)) : pkt ∈ s.accepted := by
  have hmem : pkt ∈ s.accepted.filter (prio · = prio pkt) := by
    rw [h.order (prio pkt), List.append_assoc s.sent]
    apply List.mem_append_left
    exact List.mem_filter.mpr ⟨List.mem_append_left _ hp, decide_eq_true rfl⟩
  exact (List.mem_filter.mp hmem).1

/-- A frame of one byte, and a device that shows ten buffers. -/
def samplePkt : TxPkt := ⟨List.replicate 28 7, [9], 0, false, rfl⟩

def sampleAnswer : Answer := ⟨fun _ => some 10, fun _ _ => some 10, true⟩

def sampleRun : List TxEvent :=
  [.txdata samplePkt, .complete] ++ List.replicate 7 (.thread sampleAnswer)

theorem txRun_credit_sample :
    let sent := [Log.data [samplePkt] (sdioAggrSend (sdioAggr .aic8800d80 ⟨[], 0, 0⟩ samplePkt)).1]
    sent.flatMap Log.pkts = [] ∨ (sent.flatMap Log.pkts).length + dataFlowCtrlThresh ≤ 10 ∧
      (10 : ℤ) ≤ 32 :=
  txRun_credit .aic8800d80 32 [] [] sampleRun [] _ [] 10 rfl (by simp)

/-- Only a frame that is gathered changes the batch. -/
theorem aggr_txStep (txAggrCounter : ℤ) (h : Inv chip s) (e : TxEvent) :
    ((txStep chip txAggrCounter s e).aggr = s.aggr ∧
      ((txStep chip txAggrCounter s e).fwAvailBufcnt = s.fwAvailBufcnt ∨
        ∃ regs, (txStep chip txAggrCounter s e).fwAvailBufcnt =
          sdioFlowCtrl chip txAggrCounter regs)) ∨
    ∃ pkt txnow, s.pc = .gather pkt txnow ∧
      (txStep chip txAggrCounter s e).fwAvailBufcnt ≤ s.fwAvailBufcnt ∧
      ((txStep chip txAggrCounter s e).aggr = sdioAggr chip s.aggr pkt ∨
        (txStep chip txAggrCounter s e).aggr = (sdioAggrSend (sdioAggr chip s.aggr pkt)).2) := by
  cases e with
  | txdata pkt =>
    left
    show (sdioBusTxdata s pkt).aggr = s.aggr ∧ ((sdioBusTxdata s pkt).fwAvailBufcnt = _ ∨ _)
    rcases txdata_cases h.held.sound pkt with hs | ⟨hup, txq, hsound, hlist, hs⟩ <;> rw [hs] <;>
      exact ⟨rfl, .inl rfl⟩
  | txmsg msg msglen => exact .inl ⟨rfl, .inl rfl⟩
  | complete =>
    left
    simp only [txStep, complete]
    split <;> exact ⟨rfl, .inl rfl⟩
  | sleep =>
    left
    simp only [txStep, sdioSleepAllow]
    split <;> exact ⟨rfl, .inl rfl⟩
  | busDown => exact .inl ⟨rfl, .inl rfl⟩
  | flush =>
    left
    simp only [txStep, flushTxq]
    split <;> exact ⟨rfl, .inl rfl⟩
  | thread a =>
    cases hpc : s.pc with
    | gather pkt txnow =>
      right
      refine ⟨pkt, txnow, rfl, ?_⟩
      simp only [txStep, threadStep, hpc]
      obtain ⟨s', hs', hs | ⟨-, -, -, hs⟩⟩ := sendGather_cases chip s pkt txnow a
      · obtain ⟨e, -, -, -, -, hb⟩ := sendBatch_cases s' a
        rw [hs, hb]
        refine ⟨?_, .inr (by rw [hs'])⟩
        show s'.fwAvailBufcnt - (s'.aggr.count : ℤ) ≤ s.fwAvailBufcnt
        rw [hs']
        dsimp only
        omega
      · rw [hs, hs']
        exact ⟨Int.le_refl _, .inl rfl⟩
    | send txnow =>
      left
      show (threadStep chip txAggrCounter s a).aggr = s.aggr ∧
        ((threadStep chip txAggrCounter s a).fwAvailBufcnt = _ ∨ _)
      rcases send_cases txAggrCounter h a hpc with ⟨-, -, hs⟩ | ⟨p, pkt, t, txq, -, -, -, hs⟩ <;>
        rw [hs] <;> exact ⟨rfl, .inl rfl⟩
    | cmd =>
      left
      simp only [txStep, threadStep, hpc]
      split_ifs
      · rcases sdioTxMsg_cases chip txAggrCounter s a with hs | ⟨e, succ, -, -, -, hs⟩ <;>
          rw [hs] <;> exact ⟨rfl, .inl rfl⟩
      · exact ⟨rfl, .inl rfl⟩
      · exact ⟨rfl, .inl rfl⟩
    | data =>
      left
      simp only [txStep, threadStep, hpc]
      split_ifs <;> first | exact ⟨rfl, .inl rfl⟩ | exact ⟨rfl, .inr ⟨_, rfl⟩⟩
    | loop =>
      left
      simp only [txStep, threadStep, hpc]
      split_ifs <;> first | exact ⟨rfl, .inl rfl⟩ | exact ⟨rfl, .inr ⟨_, rfl⟩⟩
    | waiting =>
      left
      simp only [txStep, threadStep, hpc]
      split_ifs <;> exact ⟨rfl, .inl rfl⟩
    | woken =>
      left
      simp only [txStep, threadStep, hpc]
      split_ifs <;> exact ⟨rfl, .inl rfl⟩
    | settle txnow =>
      left
      simp only [txStep, threadStep, hpc]
      exact ⟨trivial, .inl trivial⟩
    | exited =>
      left
      simp only [txStep, threadStep, hpc]
      exact ⟨trivial, .inl trivial⟩

/-- The batch fits in its memory, and what was written can be told apart. -/
structure Fits (chip : ChipId) (txAggrCounter : ℤ) (s : TxState) : Prop where
  mem : s.aggr.mem.length = maxAggrTxpktLen
  avail : s.fwAvailBufcnt ≤ dataFlowCtrlThresh ∨ s.fwAvailBufcnt ≤ txAggrCounter
  log : ∀ pkts bytes, .data pkts bytes ∈ s.log → Complete blockSize bytes (pkts.map (block chip))

/-- The batch with the frame that comes to it does not outgrow the memory. -/
theorem Fits.gathered {n : ℕ} (h : Inv chip s) (hf : Fits chip txAggrCounter s)
    (hroom : (txAggrCounter - dataFlowCtrlThresh) * n ≤ maxAggrTxpktLen)
    (hn : ∀ pkt ∈ s.accepted, (block chip pkt).length ≤ n) {pkt : TxPkt} {txnow : Bool}
    (hpc : s.pc = .gather pkt txnow) :
    (sdioAggr chip s.aggr pkt).mem.length = maxAggrTxpktLen := by
  have hg := room_gather h hpc
  have hgathered := h.held.gathered hpc
  have hlen := filled_length hgathered.aligned.within
  have havail := hf.avail
  rw [hgathered.filled] at hlen
  have hle : (batch chip (s.gathered ++ [pkt])).length ≤ (s.gathered ++ [pkt]).length * n := by
    refine batch_length_le fun pkt' hp => hn pkt' (h.held.mem_accepted ?_)
    rw [hpc]
    exact List.mem_append_right _ hp
  rw [sdioAggr_mem chip h.held.aligned, hf.mem]
  apply max_eq_left
  rw [dataFlowCtrlThresh] at havail hroom
  rw [List.length_append, List.length_singleton] at hle
  replace hlen : (batch chip (s.gathered ++ [pkt])).length = (sdioAggr chip s.aggr pkt).tail := hlen
  have hcount : ((s.gathered.length + 1 : ℕ) : ℤ) ≤ txAggrCounter - 2 := by
    push_cast
    omega
  have hmul : ((s.gathered.length + 1 : ℕ) : ℤ) * n ≤ (txAggrCounter - 2) * n :=
    Int.mul_le_mul_of_nonneg_right hcount (Int.natCast_nonneg n)
  have htotal : ((s.gathered.length + 1) * n : ℕ) ≤ maxAggrTxpktLen := by
    have hz := hmul.trans hroom
    rw [← Int.natCast_mul] at hz
    exact Int.ofNat_le.mp hz
  omega

theorem Fits.txStep {n : ℕ} (h : Inv chip s) (hf : Fits chip txAggrCounter s)
    (hroom : (txAggrCounter - dataFlowCtrlThresh) * n ≤ maxAggrTxpktLen)
    (hn : ∀ pkt ∈ s.accepted, (block chip pkt).length ≤ n ∧ pkt.length ≤ 4092) (e : TxEvent) :
    Fits chip txAggrCounter (txStep chip txAggrCounter s e) := by
  have hgather : ∀ {pkt txnow}, s.pc = .gather pkt txnow →
      (sdioAggr chip s.aggr pkt).mem.length = maxAggrTxpktLen := fun hpc =>
    hf.gathered h hroom (fun pkt hp => (hn pkt hp).1) hpc
  refine ⟨?_, ?_, ?_⟩
  · rcases aggr_txStep txAggrCounter h e with ⟨ha, -⟩ | ⟨pkt, txnow, hpc, -, ha | ha⟩ <;> rw [ha]
    · exact hf.mem
    · exact hgather hpc
    · exact sdioAggrSend_mem (h.held.gathered hpc).aligned (hgather hpc)
  · rcases aggr_txStep txAggrCounter h e with ⟨-, ha | ⟨regs, ha⟩⟩ | ⟨pkt, txnow, -, hle, -⟩
    · rw [ha]
      exact hf.avail
    · rw [ha]
      exact flowCtrlLoop_le (by decide) regs flowCtrlRetryCount
    · exact hf.avail.imp hle.trans hle.trans
  · intro pkts bytes hmem
    rcases log_txStep txAggrCounter h e with hs | ⟨l, hl⟩
    · exact hf.log pkts bytes (hs ▸ hmem)
    · rw [hl.log] at hmem
      rcases List.mem_append.mp hmem with hold | hnew
      · exact hf.log pkts bytes hold
      · obtain ⟨pkt, txnow, hpc, rfl, rfl⟩ := hl.data pkts bytes (List.mem_singleton.mp hnew).symm
        have hheld := h.held.gathered hpc
        refine sdioAggrSend_complete hheld.aligned hheld.filled (hgather hpc) fun pkt' hp => ?_
        refine (hn pkt' (h.held.mem_accepted ?_)).2
        rw [hpc]
        exact List.mem_append_right _ hp

/-- In any run every batch that is written can be told apart by the lengths in its headers, whatever
older bytes lie behind it, and gives back the descriptors and the frames it was made of, but for the
padding where the chip counts it; nothing is ever stored past the memory of the batch. -/
theorem txRun_bytes (chip : ChipId) (txAggrCounter : ℤ) (mem cmdBuf : Bytes) (es : List TxEvent)
    (n : ℕ) (hmem : mem.length = maxAggrTxpktLen)
    (hroom : (txAggrCounter - dataFlowCtrlThresh) * n ≤ maxAggrTxpktLen)
    (hn : ∀ pkt ∈ es.flatMap TxEvent.brought, (block chip pkt).length ≤ n ∧ pkt.length ≤ 4092) :
    let s := txRun chip txAggrCounter (.init mem cmdBuf) es
    s.aggr.mem.length = maxAggrTxpktLen ∧
      ∀ pkts bytes, .data pkts bytes ∈ s.log → ∃ blocks, Complete blockSize bytes blocks ∧
        List.Forall₂ (fun r pkt => ∃ k ≤ 3, payload r = pkt.desc ++ pkt.body ++ zeros k ∧
          (chip.padsLength = false → k = 0)) blocks pkts := by
  have hbrought : ∀ es', es' <+: es → ∀ pkt ∈ (txRun chip txAggrCounter (.init mem cmdBuf)
      es').accepted, (block chip pkt).length ≤ n ∧ pkt.length ≤ 4092 := by
    rintro es' ⟨rest, rfl⟩ pkt hp
    apply hn
    rw [List.flatMap_append]
    exact List.mem_append_left _ ((accepted_refused_txRun es').subset (List.mem_append_left _ hp))
  have hfits : ∀ es', es' <+: es →
      Fits chip txAggrCounter (txRun chip txAggrCounter (.init mem cmdBuf) es') := by
    intro es' hes
    induction es' using List.reverseRecOn with
    | nil =>
      refine ⟨hmem, .inl ?_, nofun⟩
      show (0 : ℤ) ≤ 2
      decide
    | append_singleton es' e ih =>
      have hle : es' <+: es := (List.prefix_append es' [e]).trans hes
      rw [txRun_concat]
      exact (ih hle).txStep (inv_txRun chip txAggrCounter mem cmdBuf es') hroom (hbrought es' hle) e
  have hf := hfits es (List.prefix_refl es)
  refine ⟨hf.mem, fun pkts bytes hdata => ⟨_, hf.log pkts bytes hdata, ?_⟩⟩
  have hpkts : ∀ pkt ∈ pkts, pkt.length ≤ 4092 := by
    intro pkt hp
    refine (hbrought es (List.prefix_refl es) pkt ?_).2
    apply (inv_txRun chip txAggrCounter mem cmdBuf es).held.mem_accepted
    exact List.mem_append_left _ (List.mem_flatMap.mpr ⟨_, hdata, hp⟩)
  rw [List.forall₂_map_left_iff, List.forall₂_same]
  exact fun pkt hp => payload_block (hpkts pkt hp)

/-- Where the thread waits with the bus up, and no trigger and no command is outstanding, every
accepted frame has gone. -/
theorem Inv.none_left (h : Inv chip s) (hpc : s.pc = .waiting) (hup : s.busUp = true)
    (ht : s.trgg = 0) (hc : s.completing = 0) (hcmd : s.cmdTxstate = false) (p : Fin 8) :
    s.accepted.filter (prio · = p) = s.sent.filter (prio · = p) := by
  have hr := h.room
  have hw := h.awake
  simp only [Room, hpc] at hr
  simp only [Awake, hpc, Told] at hw
  have hz : total s.txq.queuelist = 0 := by
    rcases hw hup with hz | hz | hz
    · exact hz
    · rw [hcmd] at hz
      cases hz
    · omega
  have hf : s.flushed = [] := by
    refine h.held.rested.resolve_right fun hd => ?_
    rw [hup] at hd
    cases hd.2
  have ho := h.held.order p
  rw [hr hup, hpc, hf, total_eq_zero.mp hz p] at ho
  simpa [Pc.taken] using ho

/-- The steps the thread is from the head of its loop, or from its wait. -/
def Pc.steps : Pc → ℕ
  | .waiting => 0
  | .woken => 9
  | .cmd => 8
  | .data => 7
  | .loop => 5
  | .send _ => 4
  | .gather _ _ => 9
  | .settle _ => 7
  | .exited => 0

/-- The thread has to read the flow control register once more. -/
def rereads (avail : ℤ) : ℕ := if avail ≤ dataFlowCtrlThresh then 1 else 0

/-- An upper bound of the steps the thread can still make by itself. -/
def work (s : TxState) : ℕ :=
  6 * total s.txq.queuelist + 10 * s.trgg + s.pc.steps + rereads s.fwAvailBufcnt

theorem rereads_le (avail : ℤ) : rereads avail ≤ 1 := by
  rw [rereads]
  split <;> omega

theorem rereads_of_lt {avail : ℤ} (h : dataFlowCtrlThresh < avail) : rereads avail = 0 :=
  if_neg (Int.not_le.mpr h)

/-- What the thread alone leaves as it is. -/
structure Calm (s s' : TxState) : Prop where
  busUp : s'.busUp = s.busUp
  completing : s'.completing = s.completing
  cmd : s'.cmdTxstate = s.cmdTxstate

theorem calm_threadStep (chip : ChipId) (txAggrCounter : ℤ) (s : TxState) (a : Answer)
    (hidle : ¬ s.cmdTxstate = true) : Calm s (threadStep chip txAggrCounter s a) := by
  have hbatch : ∀ s, Calm s (sendBatch s a) := fun _ => ⟨rfl, rfl, rfl⟩
  unfold threadStep
  split
  case h_3 =>
    rw [if_neg hidle]
    exact ⟨rfl, rfl, rfl⟩
  case h_6 =>
    unfold sendTake
    split_ifs <;> first | exact ⟨rfl, rfl, rfl⟩ | (split <;> exact ⟨rfl, rfl, rfl⟩)
  case h_7 =>
    rename_i pkt txnow _
    obtain ⟨s', hs', hs | ⟨-, -, -, hs⟩⟩ := sendGather_cases chip s pkt txnow a <;>
      rw [hs, hs'] <;> exact ⟨rfl, rfl, rfl⟩
  all_goals first | exact ⟨rfl, rfl, rfl⟩ | (split_ifs <;> exact ⟨rfl, rfl, rfl⟩)

theorem work_eq {pc : Pc} (hpc : s.pc = pc) : work s =
    6 * total s.txq.queuelist + 10 * s.trgg + pc.steps + rereads s.fwAvailBufcnt := by
  rw [work, hpc]

/-- With no command waiting every step of the thread brings it nearer to its wait. -/
theorem thread_works (h : Inv chip s) {a : Answer} (hup : s.busUp = true)
    (hidle : ¬ s.cmdTxstate = true)
    (ha : dataFlowCtrlThresh < sdioFlowCtrl chip txAggrCounter a.regs) :
    (s.pc = .waiting ∧ s.trgg = 0) ∨ work (threadStep chip txAggrCounter s a) < work s := by
  have hr := h.room
  have hread := rereads_of_lt ha
  cases hpc : s.pc with
  | waiting =>
    by_cases ht : s.trgg = 0
    · exact .inl ⟨rfl, ht⟩
    · right
      rw [work_eq hpc]
      simp only [threadStep, hpc, if_pos hup, if_neg ht]
      split <;> simp only [work, Pc.steps] <;> omega
  | woken =>
    right
    rw [work_eq hpc]
    simp only [threadStep, hpc, if_pos hup, work, Pc.steps]
    omega
  | cmd =>
    right
    rw [work_eq hpc]
    simp only [threadStep, hpc, if_neg hidle, work, Pc.steps]
    omega
  | data =>
    right
    rw [work_eq hpc]
    simp only [threadStep, hpc]
    split_ifs <;> simp only [work, Pc.steps, readFlowCtrl] <;> omega
  | loop =>
    right
    rw [work_eq hpc]
    simp only [threadStep, hpc, if_neg hidle]
    split_ifs with he hl
    · simp only [work, Pc.steps]
      omega
    · have hone : rereads s.fwAvailBufcnt = 1 := if_pos hl
      simp only [work, Pc.steps, readFlowCtrl, hpc]
      omega
    · simp only [work, Pc.steps]
      omega
  | send txnow =>
    right
    rw [work_eq hpc]
    rcases send_cases txAggrCounter h a hpc with ⟨hd, -, -⟩ | ⟨p, pkt, t, txq, htop, -, hlist, hs⟩
    · exact absurd hup hd
    · have htotal := total_pop htop.ne_nil
      rw [hs]
      simp only [work, Pc.steps, hlist]
      omega
  | gather pkt txnow =>
    right
    rw [work_eq hpc]
    simp only [threadStep, hpc]
    obtain ⟨s', hs', hs | ⟨-, -, -, hs⟩⟩ := sendGather_cases chip s pkt txnow a
    · obtain ⟨e, -, -, -, -, hb⟩ := sendBatch_cases s' a
      rw [hs, hb, hs']
      have hone := rereads_le (s.fwAvailBufcnt - ((sdioAggr chip s.aggr pkt).count : ℤ))
      simp only [work, Pc.steps]
      omega
    · rw [hs, hs']
      simp only [work, Pc.steps]
      omega
  | settle txnow =>
    right
    have hnext : (next txnow).steps ≤ 5 := by cases txnow <;> decide
    have hsettle : (Pc.settle txnow).steps = 7 := rfl
    rw [work_eq hpc]
    simp only [threadStep, hpc, work]
    omega
  | exited =>
    simp only [Room, hpc] at hr
    rw [hr] at hup
    cases hup

/-- The answers of a device that always has room and to which every write succeeds. -/
def Ready (chip : ChipId) (txAggrCounter : ℤ) (a : Answer) : Prop :=
  a.written = true ∧ dataFlowCtrlThresh < sdioFlowCtrl chip txAggrCounter a.regs

/-- What the thread comes to by itself. -/
structure Drained (chip : ChipId) (s s' : TxState) : Prop where
  inv : Inv chip s'
  calm : Calm s s'
  waiting : s'.pc = .waiting
  trgg : s'.trgg = 0
  accepted : s'.accepted = s.accepted
  log : ∃ new, s'.log = s.log ++ new ∧ ∀ l ∈ new, ∀ pkts, l ≠ .lost pkts

theorem thread_rests (hpc : s.pc = .waiting) (ht : s.trgg = 0) (as : List Answer) :
    as.foldl (threadStep chip txAggrCounter) s = s := by
  induction as with
  | nil => rfl
  | cons a as ih =>
    have hstep : threadStep chip txAggrCounter s a = s := by simp only [threadStep, hpc, if_pos ht]
    rw [List.foldl_cons, hstep, ih]

theorem drained_of_rest (h : Inv chip s) (hpc : s.pc = .waiting) (ht : s.trgg = 0)
    (as : List Answer) : Drained chip s (as.foldl (threadStep chip txAggrCounter) s) := by
  rw [thread_rests hpc ht]
  exact ⟨h, ⟨rfl, rfl, rfl⟩, hpc, ht, rfl, [], (List.append_nil _).symm, by simp⟩

theorem thread_drains (h : Inv chip s) (hup : s.busUp = true) (hcmd : s.cmdTxstate = false)
    (as : List Answer) (ha : ∀ a ∈ as, Ready chip txAggrCounter a) (hlen : work s ≤ as.length) :
    Drained chip s (as.foldl (threadStep chip txAggrCounter) s) := by
  induction as generalizing s with
  | nil =>
    by_cases hrest : s.pc = .waiting ∧ s.trgg = 0
    · exact drained_of_rest h hrest.1 hrest.2 []
    -- With no work left the thread waits.
    exfalso
    have hr := h.room
    cases hpc : s.pc with
    | waiting =>
      rw [work_eq hpc, List.length_nil] at hlen
      exact hrest ⟨hpc, by omega⟩
    | exited =>
      simp only [Room, hpc] at hr
      rw [hr] at hup
      cases hup
    | _ =>
      rw [work_eq hpc, List.length_nil] at hlen
      simp only [Pc.steps] at hlen
      omega
  | cons a as ih =>
    by_cases hrest : s.pc = .waiting ∧ s.trgg = 0
    · exact drained_of_rest h hrest.1 hrest.2 (a :: as)
    have hidle : ¬ s.cmdTxstate = true := by simp [hcmd]
    have hready := ha a List.mem_cons_self
    have hcalm := calm_threadStep chip txAggrCounter s a hidle
    have hsame := sameFrames_threadStep chip txAggrCounter s a
    have hlt := (thread_works h hup hidle hready.2).resolve_left hrest
    rw [List.length_cons] at hlen
    have hd := ih (inv_threadStep h a) (hcalm.busUp.trans hup) (hcalm.cmd.trans hcmd)
      (fun b hb => ha b (List.mem_cons_of_mem _ hb)) (by omega)
    refine ⟨hd.inv, ⟨hd.calm.busUp.trans hcalm.busUp, hd.calm.completing.trans hcalm.completing,
      hd.calm.cmd.trans hcalm.cmd⟩, hd.waiting, hd.trgg, hd.accepted.trans hsame.1, ?_⟩
    obtain ⟨new, hnew, hwritten⟩ := hd.log
    rw [List.foldl_cons, hnew]
    rcases log_threadStep txAggrCounter h a with hs | ⟨l, hl, hlost⟩
    · exact ⟨new, by rw [hs], hwritten⟩
    · refine ⟨l :: new, by rw [hl.log, List.append_assoc]; rfl, fun l' hl' => ?_⟩
      rcases List.mem_cons.mp hl' with rfl | hl'
      · exact hlost hup hready.1
      · exact hwritten l' hl'

/-- In any run, wherever the thread stands: with the bus up, no command waiting and every caller
done, the thread by itself comes to its wait as soon as the device answers with room, and then every
accepted frame has gone, in the order of its priority, and none was lost on that way. -/
theorem txRun_drains (chip : ChipId) (txAggrCounter : ℤ) (mem cmdBuf : Bytes) (es : List TxEvent)
    (hup : (txRun chip txAggrCounter (.init mem cmdBuf) es).busUp = true)
    (hcompleting : (txRun chip txAggrCounter (.init mem cmdBuf) es).completing = 0)
    (hcmd : (txRun chip txAggrCounter (.init mem cmdBuf) es).cmdTxstate = false) :
    ∃ n, ∀ as : List Answer, n ≤ as.length → (∀ a ∈ as, Ready chip txAggrCounter a) →
      let s := txRun chip txAggrCounter (.init mem cmdBuf) es
      let s' := as.foldl (threadStep chip txAggrCounter) s
      s'.pc = .waiting ∧ s'.trgg = 0 ∧ s'.accepted = s.accepted ∧
        (∃ new, s'.log = s.log ++ new ∧ ∀ l ∈ new, ∀ pkts, l ≠ .lost pkts) ∧
        ∀ p, s'.accepted.filter (prio · = p) = s'.sent.filter (prio · = p) := by
  refine ⟨work (txRun chip txAggrCounter (.init mem cmdBuf) es), fun as hlen ha => ?_⟩
  have hd := thread_drains (inv_txRun chip txAggrCounter mem cmdBuf es) hup hcmd as ha hlen
  refine ⟨hd.waiting, hd.trgg, hd.accepted, hd.log, fun p => ?_⟩
  exact hd.inv.none_left hd.waiting (hd.calm.busUp.trans hup) hd.trgg
    (hd.calm.completing.trans hcompleting) (hd.calm.cmd.trans hcmd) p

theorem txRun_bytes_sample :
    let s := txRun .aic8800d80 32 (.init (zeros maxAggrTxpktLen) []) sampleRun
    s.aggr.mem.length = maxAggrTxpktLen ∧
      ∀ pkts bytes, .data pkts bytes ∈ s.log → ∃ blocks, Complete blockSize bytes blocks ∧
        List.Forall₂ (fun r pkt => ∃ k ≤ 3, payload r = pkt.desc ++ pkt.body ++ zeros k ∧
          (ChipId.aic8800d80.padsLength = false → k = 0)) blocks pkts :=
  txRun_bytes .aic8800d80 32 (zeros maxAggrTxpktLen) [] sampleRun 36 (zeros_length _) (by decide)
    (by
      intro pkt hp
      have hpkt : pkt = samplePkt := by simpa [sampleRun, TxEvent.brought] using hp
      subst hpkt
      decide)

theorem txRun_drains_sample :
    ∃ n, ∀ as : List Answer, n ≤ as.length → (∀ a ∈ as, Ready .aic8800d80 32 a) →
      let s := txRun .aic8800d80 32 (.init [] []) [.txdata samplePkt, .complete]
      let s' := as.foldl (threadStep .aic8800d80 32) s
      s'.pc = .waiting ∧ s'.trgg = 0 ∧ s'.accepted = s.accepted ∧
        (∃ new, s'.log = s.log ++ new ∧ ∀ l ∈ new, ∀ pkts, l ≠ .lost pkts) ∧
        ∀ p, s'.accepted.filter (prio · = p) = s'.sent.filter (prio · = p) :=
  txRun_drains .aic8800d80 32 [] [] [.txdata samplePkt, .complete] rfl rfl rfl

end NervesSystem.SdioTx
