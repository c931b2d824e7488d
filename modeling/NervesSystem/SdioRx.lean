import NervesSystem.SdioFormat
import NervesSystem.Library.Trace
import Mathlib.Algebra.GroupWithZero.Nat
import Mathlib.Data.Int.Notation

namespace NervesSystem.SdioRx

open Records Trace
open SdioTx (roundup)

def rxHwhrdLen : ℕ := 60

def rxAlignment : ℕ := 4

def maxRxqlen : ℕ := 2000

def aicRxbuffNumMax : ℕ := 30

def sdioTypeCfg : UInt8 := 0x10

def sdioTypeCfgCmdRsp : UInt8 := 0x11

def sdioTypeCfgDataCfm : UInt8 := 0x12

def sdioTypeCfgPrint : UInt8 := 0x13

/-- `*data | (*(data + 1) << 8)` -/
def pktLen (data : Bytes) : ℕ := (data.getD 0 0).toNat + (data.getD 1 0).toNat * 256

def isData (data : Bytes) : Bool := data.getD 2 0 &&& sdioTypeCfg != sdioTypeCfg

/-- `aggr_len`, which is sixteen bits wide. -/
def aggrLen (data : Bytes) : ℕ :=
  if isData data then (pktLen data + rxHwhrdLen) % 65536 else pktLen data

/-- `adjust_len`, which is sixteen bits wide. -/
def adjustLen (data : Bytes) : ℕ :=
  if aggrLen data % rxAlignment ≠ 0 then roundup (aggrLen data) rxAlignment % 65536
  else aggrLen data

/-- What is copied of the packet that stands in front. -/
def copyLen (data : Bytes) : ℕ := if isData data then aggrLen data else aggrLen data + 4

/-- How far `read` moves once the packet that stands in front is dealt with. -/
def pullLen (data : Bytes) : ℕ := if isData data then adjustLen data else adjustLen data + 4

/-- What a packet is handed to: the data path, the message handler, the confirmations of sent
frames, or the print of the firmware. -/
inductive Handed
  | rxdataind (skb : Bytes)
  | handleMsg (msg : Bytes)
  | hostTxCfm (msg : Bytes)
  | handlePrint (msg : Bytes) (len : ℕ)
  deriving DecidableEq

/-- A copy of `n` bytes. The buffer was cleared before the transfer was read into it. -/
def memcpy (n : ℕ) (data : Bytes) : Bytes := data.take n ++ List.replicate (n - data.length) 0

/-- `skbAlloc` says whether there was memory for a frame. A message has its memory here. -/
def handPacket (skbAlloc busUp : Bool) (data : Bytes) : List Handed :=
  if isData data then
    if skbAlloc then [.rxdataind (memcpy (aggrLen data) data)] else []
  else
    let msg := memcpy (aggrLen data + 4) data
    let type := msg.getD 2 0 &&& 0x7F
    (if type = sdioTypeCfgCmdRsp ∧ busUp = true then [.handleMsg (msg.drop 4)] else []) ++
      (if type = sdioTypeCfgDataCfm then [.hostTxCfm (msg.drop 4)] else []) ++
      if type = sdioTypeCfgPrint then [.handlePrint (msg.drop 4) (aggrLen data)] else []

/-- What the device sends at once, in whole words. -/
structure Transfer where
  data : Bytes
  words : data.length % 4 = 0
  deriving DecidableEq

theorem adjustLen_words (data : Bytes) : adjustLen data % 4 = 0 := by
  rw [adjustLen, roundup, rxAlignment]
  split <;> omega

theorem pullLen_words (data : Bytes) : pullLen data % 4 = 0 := by
  have h := adjustLen_words data
  rw [pullLen]
  split <;> omega

/-- A buffer from `start` to `end`, and how far `read` is from `start`. It stays on words, which is
what the driver insists on. -/
structure RxBuff extends Transfer where
  read : ℕ
  aligned : read % 4 = 0
  deriving DecidableEq

/-- `aicwf_sdio_readframes`, once the transfer is read. -/
def readframes (transfer : Transfer) : RxBuff := ⟨transfer, 0, rfl⟩

namespace RxBuff
variable (buffer : RxBuff)

/-- What is left between `read` and `end`, which is nothing once `read` is past `end`. -/
def front : Bytes := buffer.data.drop buffer.read

def next : RxBuff where
  toTransfer := buffer.toTransfer
  read := buffer.read + pullLen buffer.front
  aligned := by
    have hread := buffer.aligned
    have hpull := pullLen_words buffer.front
    omega

end RxBuff

/-- `aicwf_another_ptk_1` -/
def anotherPtk1 (buffer : RxBuff) : Bool :=
  decide (buffer.read < buffer.data.length) && pktLen buffer.front != 0

def packetSize (data : Bytes) : Option ℕ :=
  if !data.isEmpty && pktLen data != 0 then some (pullLen data) else none

/-- The packets of a transfer, each with its padding. -/
def packetsOf (data : Bytes) : List Bytes := records packetSize data

/-- The packets stand one behind the other up to an end, and what is copied of each lies in it. -/
def Packed (data : Bytes) : Prop :=
  ∃ ps, Complete packetSize data ps ∧ ∀ p ∈ ps, copyLen p ≤ p.length

theorem anotherPtk1_eq (buffer : RxBuff) :
    anotherPtk1 buffer = (packetSize buffer.front).isSome := by
  have hread : decide (buffer.read < buffer.data.length) = !buffer.front.isEmpty := by
    rw [Bool.eq_iff_iff, decide_eq_true_eq, Bool.not_eq_true', List.isEmpty_eq_false_iff,
      RxBuff.front, Ne, List.drop_eq_nil_iff, Nat.not_le]
  rw [anotherPtk1, packetSize, hread]
  split
  · next h => exact h
  · next h => exact Bool.not_eq_true _ ▸ h

/-- Where another packet is seen, its header lies before `end`. -/
theorem header_in_front {buffer : RxBuff} (hptk : anotherPtk1 buffer = true) :
    4 ≤ buffer.front.length := by
  have hwords := buffer.words
  have haligned := buffer.aligned
  rw [anotherPtk1, Bool.and_eq_true, decide_eq_true_eq] at hptk
  rw [RxBuff.front, List.length_drop]
  omega

theorem next_front (buffer : RxBuff) :
    buffer.next.front = buffer.front.drop (pullLen buffer.front) := by
  rw [RxBuff.front, RxBuff.front, List.drop_drop]
  rfl

theorem getD_append {p xs : Bytes} {n : ℕ} (hn : n < p.length) :
    (p ++ xs).getD n 0 = p.getD n 0 := by
  rw [List.getD_eq_getElem?_getD, List.getD_eq_getElem?_getD, List.getElem?_append_left hn]

/-- The header says all that the driver needs to know of a packet. -/
theorem header_append {p : Bytes} (hp : 3 ≤ p.length) (xs : Bytes) :
    pktLen (p ++ xs) = pktLen p ∧ isData (p ++ xs) = isData p := by
  have h0 : (p ++ xs).getD 0 0 = p.getD 0 0 := getD_append (by omega)
  have h1 : (p ++ xs).getD 1 0 = p.getD 1 0 := getD_append (by omega)
  have h2 : (p ++ xs).getD 2 0 = p.getD 2 0 := getD_append (by omega)
  rw [pktLen, isData, h0, h1, h2]
  exact ⟨rfl, rfl⟩

theorem sizes_append {p : Bytes} (hp : 3 ≤ p.length) (xs : Bytes) :
    aggrLen (p ++ xs) = aggrLen p ∧ copyLen (p ++ xs) = copyLen p ∧
      pullLen (p ++ xs) = pullLen p := by
  obtain ⟨hlen, hdata⟩ := header_append hp xs
  have ha : aggrLen (p ++ xs) = aggrLen p := by rw [aggrLen, aggrLen, hlen, hdata]
  have hj : adjustLen (p ++ xs) = adjustLen p := by rw [adjustLen, adjustLen, ha]
  rw [copyLen, copyLen, pullLen, pullLen, ha, hj, hdata]
  exact ⟨rfl, rfl, rfl⟩

theorem memcpy_append {n : ℕ} {p : Bytes} (hn : n ≤ p.length) (xs : Bytes) :
    memcpy n (p ++ xs) = memcpy n p := by
  rw [memcpy, memcpy, List.take_append_of_le_length hn, List.length_append,
    Nat.sub_eq_zero_of_le hn, Nat.sub_eq_zero_of_le (Nat.le_add_right_of_le hn)]

/-- A packet is handed on as it stands, whatever lies behind it. -/
theorem handPacket_append {p : Bytes} (hp : 3 ≤ p.length) (hc : copyLen p ≤ p.length)
    (skbAlloc busUp : Bool) (xs : Bytes) :
    handPacket skbAlloc busUp (p ++ xs) = handPacket skbAlloc busUp p := by
  obtain ⟨-, hdata⟩ := header_append hp xs
  obtain ⟨hlen, -, -⟩ := sizes_append hp xs
  rw [copyLen] at hc
  rw [handPacket, handPacket, hdata, hlen]
  split
  · next hd =>
    rw [if_pos hd] at hc
    rw [memcpy_append hc]
  · next hd =>
    rw [if_neg hd] at hc
    rw [memcpy_append hc]

theorem Packed.nil {buffer : RxBuff} (hptk : anotherPtk1 buffer = false) :
    packetsOf buffer.front = [] := by
  rw [anotherPtk1_eq, Option.isSome_eq_false_iff, Option.isNone_iff_eq_none] at hptk
  have hnil : Complete packetSize buffer.front [] := .nil hptk
  exact hnil.records

theorem packetSize_front {buffer : RxBuff} (hptk : anotherPtk1 buffer = true) :
    packetSize buffer.front = some (pullLen buffer.front) := by
  rw [anotherPtk1_eq] at hptk
  unfold packetSize at hptk ⊢
  split at hptk
  · next h => rw [if_pos h]
  · cases hptk

/-- Where another packet is seen, it stands in front of the rest of the transfer. -/
theorem Packed.next {buffer : RxBuff} (h : Packed buffer.front)
    (hptk : anotherPtk1 buffer = true) :
    Packed buffer.next.front ∧
      packetsOf buffer.front =
        buffer.front.take (pullLen buffer.front) :: packetsOf buffer.next.front ∧
      ∀ skbAlloc busUp, handPacket skbAlloc busUp buffer.front =
        handPacket skbAlloc busUp (buffer.front.take (pullLen buffer.front)) := by
  obtain ⟨ps, hps, hcopy⟩ := h
  obtain ⟨hpos, hlen, ps', rfl, hps'⟩ := hps.front (packetSize_front hptk)
  rw [next_front]
  refine ⟨⟨ps', hps', fun p hp => hcopy p (List.mem_cons_of_mem _ hp)⟩, ?_, ?_⟩
  · rw [packetsOf, packetsOf, hps.records]
    exact congrArg _ hps'.records.symm
  intro skbAlloc busUp
  have hwords := pullLen_words buffer.front
  conv_lhs => rw [← List.take_append_drop (pullLen buffer.front) buffer.front]
  exact handPacket_append (by omega) (hcopy _ List.mem_cons_self) ..

/-- The queue of `aicwf_rx_priv`. It counts what it holds. -/
structure RxFrameQueue where
  qmax : ℕ
  qcnt : ℕ
  queuelist : List RxBuff
  count : qcnt = queuelist.length

def aicwfRxframeQueueInit2 (maxLen : ℕ) : RxFrameQueue := ⟨maxLen, 0, [], rfl⟩

def rxbuffDequeue (rxq : RxFrameQueue) : Option RxBuff × RxFrameQueue :=
  if rxq.qcnt = 0 then (none, rxq)
  else match h : rxq.queuelist with
    | [] => (none, rxq)
    | buffer :: rest =>
      (some buffer, ⟨rxq.qmax, rxq.qcnt - 1, rest, by rw [rxq.count, h]; rfl⟩)

def aicwfRxbuffEnqueue (rxq : RxFrameQueue) (pkt : RxBuff) : Bool × RxFrameQueue :=
  if rxq.qcnt < rxq.qmax then
    (true, ⟨rxq.qmax, rxq.qcnt + 1, rxq.queuelist ++ [pkt], by
      rw [rxq.count, List.length_append, List.length_singleton]⟩)
  else (false, rxq)

theorem dequeue_cases (rxq : RxFrameQueue) :
    rxq.queuelist = [] ∧ rxbuffDequeue rxq = (none, rxq) ∨
      ∃ buffer rest rxq', rxq.queuelist = buffer :: rest ∧
        rxbuffDequeue rxq = (some buffer, rxq') ∧ rxq'.queuelist = rest ∧
        rxq'.qmax = rxq.qmax := by
  have hcount := rxq.count
  unfold rxbuffDequeue
  split
  · next hz =>
    rw [hz] at hcount
    exact .inl ⟨List.eq_nil_of_length_eq_zero hcount.symm, rfl⟩
  · split
    · next h => exact .inl ⟨h, rfl⟩
    · next buffer rest h => exact .inr ⟨buffer, rest, _, h, rfl, rfl, rfl⟩

theorem enqueue_room {rxq : RxFrameQueue} (h : rxq.queuelist.length < rxq.qmax) (pkt : RxBuff) :
    ∃ rxq', aicwfRxbuffEnqueue rxq pkt = (true, rxq') ∧
      rxq'.queuelist = rxq.queuelist ++ [pkt] ∧ rxq'.qmax = rxq.qmax := by
  unfold aicwfRxbuffEnqueue
  rw [if_pos (rxq.count ▸ h)]
  exact ⟨_, rfl, rfl, rfl⟩

/-- Where the interrupt handler stands: between two interrupts, with a buffer that a transfer is
read into, with a transfer in the queue that is not counted yet, or before its look at the count. -/
inductive Irq
  | idle
  | reading
  | queued
  | counted
  deriving DecidableEq

/-- Where the receive thread stands. -/
inductive Pc
  | waiting
  | looking
  | packets (buffer : RxBuff)
  | freed
  | exited
  deriving DecidableEq

/-- One look at a packet: the packet, whether there was memory for a frame, and the bus. -/
structure Seen where
  packet : Bytes
  skbAlloc : Bool
  busUp : Bool

def Seen.handed (e : Seen) : List Handed := handPacket e.skbAlloc e.busUp e.packet

/-- `aicwf_rx_priv` with the list of free buffers, of which only the length matters as a buffer is
cleared when it is taken, the bus, the places of the two parties and what was handed on. The last
four are not in the driver: what went into the queue and what did not, the packets looked at, and
how many transfers were given up for want of memory for a message. -/
structure RxState where
  rxbuffListLen : ℕ
  rxq : RxFrameQueue
  rxCnt : ℤ
  busrxTrgg : ℕ
  busUp : Bool
  irq : Irq
  pc : Pc
  handed : List Handed
  enqueued : List Transfer
  refused : List Transfer
  seen : List Seen
  givenUp : ℕ

/-- `aicwf_prealloc_init` goes on after a failed allocation; `failed` is how many there were. -/
def RxState.init (failed : ℕ) : RxState where
  rxbuffListLen := aicRxbuffNumMax - failed
  rxq := aicwfRxframeQueueInit2 maxRxqlen
  rxCnt := 0
  busrxTrgg := 0
  busUp := true
  irq := .idle
  pc := .waiting
  handed := []
  enqueued := []
  refused := []
  seen := []
  givenUp := 0

/-- What the allocations answer. -/
structure Answer where
  skb : Bool
  msg : Bool
  deriving DecidableEq

/-- What the device answers to the interrupt handler: its status cannot be read, there is nothing
to read, or there are frames. -/
inductive Status
  | error
  | nothing
  | frames

/-- `aicwf_sdio_hal_irqhandler` until it has a buffer to read the transfer into. Without one it
leaves the transfer with the device. -/
def halIrqhandler (s : RxState) (status : Status) : RxState :=
  if s.irq ≠ .idle ∨ s.busUp ≠ true ∨ s.rxbuffListLen = 0 then s
  else match status with
    | .error => s
    | .nothing => { s with irq := .counted }
    | .frames => { s with rxbuffListLen := s.rxbuffListLen - 1, irq := .reading }

/-- `aicwf_sdio_enq_rxpkt` up to the count. -/
def enqRxpkt (s : RxState) (transfer : Transfer) : RxState :=
  match aicwfRxbuffEnqueue s.rxq (readframes transfer) with
  | (true, rxq) => { s with rxq, irq := .queued, enqueued := s.enqueued ++ [transfer] }
  | (false, _) => { s with
      rxbuffListLen := s.rxbuffListLen + 1
      irq := .counted
      refused := s.refused ++ [transfer] }

/-- What the handler does after that: it queues what it has read, unless that failed, it counts the
transfer, and it wakes the thread where the count is one. -/
def irqStep (s : RxState) (transfer : Option Transfer) : RxState :=
  match s.irq with
  | .idle => s
  | .reading => match transfer with
    | none => { s with rxbuffListLen := s.rxbuffListLen + 1, irq := .counted }
    | some transfer => enqRxpkt s transfer
  | .queued => { s with rxCnt := s.rxCnt + 1, irq := .counted }
  | .counted => { s with
      irq := .idle
      busrxTrgg := if s.rxCnt = 1 then s.busrxTrgg + 1 else s.busrxTrgg }

/-- One packet of the transfer, or its end. Without memory for a message the buffer is freed and
the thread is back at its wait, with the count as it was. -/
def processPacket (s : RxState) (buffer : RxBuff) (a : Answer) : RxState :=
  if anotherPtk1 buffer = false then
    { s with rxbuffListLen := s.rxbuffListLen + 1, pc := .freed }
  else if isData buffer.front = false ∧ a.msg = false then
    { s with
      rxbuffListLen := s.rxbuffListLen + 1
      pc := .waiting
      givenUp := s.givenUp + 1 }
  else { s with
    pc := .packets buffer.next
    handed := s.handed ++ handPacket a.skb s.busUp buffer.front
    seen := s.seen ++ [⟨buffer.front.take (pullLen buffer.front), a.skb, s.busUp⟩] }

/-- `sdio_busrx_thread` with `aicwf_process_rxframes`. -/
def threadStep (s : RxState) (a : Answer) : RxState :=
  match s.pc with
  | .waiting =>
    if s.busrxTrgg = 0 then s
    else { s with
      busrxTrgg := s.busrxTrgg - 1
      pc := if s.busUp then .looking else .exited }
  | .looking =>
    if s.rxq.qcnt = 0 then { s with pc := .waiting }
    else match rxbuffDequeue s.rxq with
      | (none, rxq) => { s with rxq, pc := .waiting }
      | (some buffer, rxq) => { s with rxq, pc := .packets buffer }
  | .packets buffer => processPacket s buffer a
  | .freed => { s with rxCnt := s.rxCnt - 1, pc := .looking }
  | .exited => s

inductive RxEvent
  | interrupt (status : Status)
  | irqStep (transfer : Option Transfer)
  | thread (a : Answer)
  | busStop

def rxStep (s : RxState) : RxEvent → RxState
  | .interrupt status => halIrqhandler s status
  | .irqStep transfer => irqStep s transfer
  | .thread a => threadStep s a
  | .busStop => { s with busUp := false }

def busrxRun (s : RxState) (es : List RxEvent) : RxState := es.foldl rxStep s

/-- Transfers in hand that are counted. -/
def Pc.inHand : Pc → ℕ
  | .packets _ | .freed => 1
  | .waiting | .looking | .exited => 0

/-- Buffers in hand. -/
def Pc.buffers : Pc → ℕ
  | .packets _ => 1
  | .waiting | .looking | .freed | .exited => 0

def Irq.buffers : Irq → ℕ
  | .reading => 1
  | .idle | .queued | .counted => 0

def Irq.uncounted : Irq → ℕ
  | .queued => 1
  | .idle | .reading | .counted => 0

abbrev RxState.queued (s : RxState) : List RxBuff := s.rxq.queuelist

/-- Each of the `n` buffers is free, in the handler's hands, queued or with the thread. The count is
that of the transfers queued and in hand, with one more for each that was given up, and while none
was, the thread is not at its wait unless the handler still sees to the only transfer of the
queue. -/
structure Inv (n : ℕ) (s : RxState) : Prop where
  max : s.rxq.qmax = maxRxqlen
  buffers : s.rxbuffListLen + s.irq.buffers + s.queued.length + s.pc.buffers = n
  few : n ≤ aicRxbuffNumMax
  refused : s.refused = []
  count : s.rxCnt + s.irq.uncounted = s.queued.length + s.pc.inHand + s.givenUp
  running : s.busUp = true → s.pc ≠ .exited
  awake : s.givenUp = 0 → s.pc = .waiting → s.busrxTrgg = 0 →
    s.queued = [] ∨ s.queued.length = 1 ∧ (s.irq = .queued ∨ s.irq = .counted)

variable {n : ℕ} {s s' : RxState}

theorem interrupt_cases (s : RxState) (status : Status) :
    halIrqhandler s status = s ∨
      s.irq = .idle ∧ s.busUp = true ∧ s.rxbuffListLen ≠ 0 ∧
        (halIrqhandler s status = { s with irq := .counted } ∨
          halIrqhandler s status =
            { s with rxbuffListLen := s.rxbuffListLen - 1, irq := .reading }) := by
  unfold halIrqhandler
  split
  · exact .inl rfl
  · next hidle =>
    simp only [ne_eq, not_or, Decidable.not_not] at hidle
    cases status with
    | error => exact .inl rfl
    | nothing => exact .inr ⟨hidle.1, hidle.2.1, hidle.2.2, .inl rfl⟩
    | frames => exact .inr ⟨hidle.1, hidle.2.1, hidle.2.2, .inr rfl⟩

/-- The queue has room for more transfers than there are buffers. -/
theorem Inv.enqRxpkt (h : Inv n s) (transfer : Transfer) :
    ∃ rxq : RxFrameQueue, rxq.queuelist = s.queued ++ [readframes transfer] ∧
      rxq.qmax = s.rxq.qmax ∧ enqRxpkt s transfer =
        { s with rxq := rxq, irq := .queued, enqueued := s.enqueued ++ [transfer] } := by
  have hbuffers := h.buffers
  have hfew := h.few
  have hmax := h.max
  rw [aicRxbuffNumMax] at hfew
  rw [maxRxqlen] at hmax
  obtain ⟨rxq, hs, hlist, hq⟩ := enqueue_room
    (show s.queued.length < s.rxq.qmax by omega) (readframes transfer)
  refine ⟨rxq, hlist, hq, ?_⟩
  unfold SdioRx.enqRxpkt
  rw [hs]

theorem looking_cases (s : RxState) (hpc : s.pc = .looking) (a : Answer) :
    s.queued = [] ∧ threadStep s a = { s with pc := .waiting } ∨
      ∃ buffer rest, ∃ rxq : RxFrameQueue, s.queued = buffer :: rest ∧ rxq.queuelist = rest ∧
        rxq.qmax = s.rxq.qmax ∧
        threadStep s a = { s with rxq := rxq, pc := .packets buffer } := by
  have hcount := s.rxq.count
  unfold threadStep
  rw [hpc]
  dsimp only
  split
  · next hz =>
    rw [hz] at hcount
    exact .inl ⟨List.eq_nil_of_length_eq_zero hcount.symm, rfl⟩
  · next hz =>
    rcases dequeue_cases s.rxq with ⟨hnil, -⟩ | ⟨buffer, rest, rxq, hcons, hs, hlist, hmax⟩
    · rw [hnil] at hcount
      exact absurd hcount hz
    · refine .inr ⟨buffer, rest, rxq, hcons, hlist, hmax, ?_⟩
      rw [hs]

theorem inv_init (failed : ℕ) : Inv (aicRxbuffNumMax - failed) (.init failed) where
  max := rfl
  buffers := rfl
  few := Nat.sub_le _ _
  refused := rfl
  count := rfl
  running := nofun
  awake := fun _ _ _ => .inl rfl

/-- No transfer waits for a thread that nobody wakes. -/
theorem Inv.queue_nil (h : Inv n s) (hidle : s.irq = .idle ∨ s.irq = .reading)
    (hg : s.givenUp = 0) (hpc : s.pc = .waiting) (ht : s.busrxTrgg = 0) : s.queued = [] := by
  rcases h.awake hg hpc ht with hnil | ⟨-, hbusy⟩
  · exact hnil
  · rcases hidle with hidle | hidle <;> rw [hidle] at hbusy <;> simp at hbusy

theorem Inv.interrupt (h : Inv n s) (status : Status) : Inv n (halIrqhandler s status) := by
  have hcount := h.count
  have hbuffers := h.buffers
  rcases interrupt_cases s status with hs | ⟨hidle, -, hlen, hs | hs⟩ <;> rw [hs]
  · exact h
  · rw [hidle] at hcount hbuffers
    exact ⟨h.max, hbuffers, h.few, h.refused, hcount, h.running,
      fun hg hpc ht => .inl (h.queue_nil (.inl hidle) hg hpc ht)⟩
  · rw [hidle] at hcount hbuffers
    refine ⟨h.max, ?_, h.few, h.refused, hcount, h.running,
      fun hg hpc ht => .inl (h.queue_nil (.inl hidle) hg hpc ht)⟩
    show s.rxbuffListLen - 1 + 1 + s.queued.length + s.pc.buffers = n
    simp only [Irq.buffers] at hbuffers
    omega

theorem Inv.irqStep (h : Inv n s) (transfer : Option Transfer) : Inv n (irqStep s transfer) := by
  have hcount := h.count
  have hbuffers := h.buffers
  unfold SdioRx.irqStep
  cases hirq : s.irq with
  | idle => exact h
  | reading =>
    rw [hirq] at hcount hbuffers
    cases transfer with
    | none =>
      refine ⟨h.max, ?_, h.few, h.refused, hcount, h.running,
        fun hg hpc ht => .inl (h.queue_nil (.inr hirq) hg hpc ht)⟩
      show s.rxbuffListLen + 1 + 0 + s.queued.length + s.pc.buffers = n
      simp only [Irq.buffers] at hbuffers
      omega
    | some transfer =>
      obtain ⟨rxq, hlist, hmax, hs⟩ := h.enqRxpkt transfer
      dsimp only
      rw [hs]
      have hlen : rxq.queuelist.length = s.queued.length + 1 := by
        rw [hlist, List.length_append, List.length_singleton]
      simp only [Irq.buffers, Irq.uncounted] at hcount hbuffers
      refine ⟨hmax.trans h.max, ?_, h.few, h.refused, ?_, h.running,
        fun hg hpc ht => .inr ⟨?_, .inl rfl⟩⟩
      · show s.rxbuffListLen + 0 + rxq.queuelist.length + s.pc.buffers = n
        omega
      · show s.rxCnt + ((1 : ℕ) : ℤ) = (rxq.queuelist.length : ℤ) + s.pc.inHand + s.givenUp
        omega
      · show rxq.queuelist.length = 1
        rw [hlen, h.queue_nil (.inr hirq) hg hpc ht, List.length_nil]
  | queued =>
    rw [hirq] at hcount hbuffers
    rw [Irq.uncounted] at hcount
    refine ⟨h.max, hbuffers, h.few, h.refused, ?_, h.running, fun hg hpc ht => ?_⟩
    · show s.rxCnt + 1 + ((0 : ℕ) : ℤ) = s.queued.length + s.pc.inHand + s.givenUp
      omega
    · exact (h.awake hg hpc ht).imp_right fun hq => ⟨hq.1, .inr rfl⟩
  | counted =>
    rw [hirq] at hcount hbuffers
    rw [Irq.uncounted] at hcount
    refine ⟨h.max, hbuffers, h.few, h.refused, hcount, h.running, fun hg hpc ht => ?_⟩
    dsimp only at hg hpc ht
    split at ht
    · exact absurd ht (Nat.succ_ne_zero _)
    -- With one transfer queued and none in hand the count is one.
    · next hone =>
      rcases h.awake hg hpc ht with hnil | ⟨hq, -⟩
      · exact .inl hnil
      · rw [hq, hpc, hg, Pc.inHand] at hcount
        exact absurd (by simpa using hcount) hone

theorem Inv.processPacket (h : Inv n s) {buffer : RxBuff} (hpc : s.pc = .packets buffer)
    (a : Answer) : Inv n (processPacket s buffer a) := by
  have hcount := h.count
  have hbuffers := h.buffers
  rw [hpc] at hcount hbuffers
  simp only [Pc.inHand, Pc.buffers] at hcount hbuffers
  unfold SdioRx.processPacket
  split
  · refine ⟨h.max, ?_, h.few, h.refused, hcount, nofun, fun _ => nofun⟩
    show s.rxbuffListLen + 1 + s.irq.buffers + s.queued.length + 0 = n
    omega
  split
  · refine ⟨h.max, ?_, h.few, h.refused, ?_, nofun,
      fun hg => absurd hg (Nat.succ_ne_zero _)⟩
    · show s.rxbuffListLen + 1 + s.irq.buffers + s.queued.length + 0 = n
      omega
    · show s.rxCnt + (s.irq.uncounted : ℤ) =
        s.queued.length + ((0 : ℕ) : ℤ) + ((s.givenUp + 1 : ℕ) : ℤ)
      omega
  · exact ⟨h.max, hbuffers, h.few, h.refused, hcount, nofun, fun _ => nofun⟩

theorem Inv.threadStep (h : Inv n s) (a : Answer) : Inv n (threadStep s a) := by
  have hcount := h.count
  have hbuffers := h.buffers
  cases hpc : s.pc with
  | waiting =>
    unfold SdioRx.threadStep
    rw [hpc] at hcount hbuffers ⊢
    dsimp only
    split
    · exact h
    · refine ⟨h.max, ?_, h.few, h.refused, ?_, fun hup => ?_, fun _ => ?_⟩
      · cases s.busUp <;> exact hbuffers
      · cases s.busUp <;> exact hcount
      · replace hup : s.busUp = true := hup
        simp [hup]
      · cases s.busUp <;> exact nofun
  | looking =>
    rw [hpc] at hcount hbuffers
    simp only [Pc.inHand, Pc.buffers] at hcount hbuffers
    rcases looking_cases s hpc a with ⟨hnil, hs⟩ | ⟨buffer, rest, rxq, hq, hlist, hmax, hs⟩ <;>
      rw [hs]
    · exact ⟨h.max, hbuffers, h.few, h.refused, hcount, nofun, fun _ _ _ => .inl hnil⟩
    · rw [hq, List.length_cons] at hcount hbuffers
      refine ⟨hmax.trans h.max, ?_, h.few, h.refused, ?_, nofun, fun _ => nofun⟩
      · show s.rxbuffListLen + s.irq.buffers + rxq.queuelist.length + 1 = n
        rw [hlist]
        omega
      · show s.rxCnt + (s.irq.uncounted : ℤ) =
          rxq.queuelist.length + ((1 : ℕ) : ℤ) + s.givenUp
        rw [hlist]
        omega
  | packets buffer =>
    unfold SdioRx.threadStep
    rw [hpc]
    exact h.processPacket hpc a
  | freed =>
    unfold SdioRx.threadStep
    rw [hpc] at hcount hbuffers
    simp only [Pc.inHand, Pc.buffers] at hcount hbuffers
    rw [hpc]
    refine ⟨h.max, hbuffers, h.few, h.refused, ?_, nofun, fun _ => nofun⟩
    show s.rxCnt - 1 + (s.irq.uncounted : ℤ) = s.queued.length + ((0 : ℕ) : ℤ) + s.givenUp
    omega
  | exited =>
    unfold SdioRx.threadStep
    rw [hpc]
    exact h

theorem Inv.rxStep (h : Inv n s) (e : RxEvent) : Inv n (rxStep s e) := by
  cases e with
  | interrupt status => exact h.interrupt status
  | irqStep transfer => exact h.irqStep transfer
  | thread a => exact h.threadStep a
  | busStop => exact ⟨h.max, h.buffers, h.few, h.refused, h.count, nofun, h.awake⟩

theorem inv_busrxRun (failed : ℕ) (es : List RxEvent) :
    Inv (aicRxbuffNumMax - failed) (busrxRun (.init failed) es) := by
  have hes : Guarded rxStep (fun _ _ => True) (.init failed) es := .of_forall fun _ _ _ => trivial
  exact hes.invariant (fun _ e _ h _ => h.rxStep e) (inv_init failed)

/-- The count stands above one and the thread is at its wait. -/
structure Starved (s : RxState) : Prop where
  waiting : s.pc = .waiting
  trgg : s.busrxTrgg = 0
  two_le : 2 ≤ s.rxCnt

theorem Starved.irqStep (h : Starved s) (transfer : Option Transfer) :
    Starved (irqStep s transfer) ∧ (irqStep s transfer).handed = s.handed := by
  obtain ⟨hpc, ht, hcnt⟩ := h
  unfold SdioRx.irqStep
  cases s.irq with
  | idle => exact ⟨⟨hpc, ht, hcnt⟩, rfl⟩
  | reading =>
    cases transfer with
    | none => exact ⟨⟨hpc, ht, hcnt⟩, rfl⟩
    | some transfer =>
      dsimp only
      unfold enqRxpkt
      split <;> exact ⟨⟨hpc, ht, hcnt⟩, rfl⟩
  | queued =>
    refine ⟨⟨hpc, ht, ?_⟩, rfl⟩
    show 2 ≤ s.rxCnt + 1
    omega
  | counted =>
    refine ⟨⟨hpc, ?_, hcnt⟩, rfl⟩
    show (if s.rxCnt = 1 then s.busrxTrgg + 1 else s.busrxTrgg) = 0
    rw [if_neg (by omega), ht]

theorem Starved.rxStep (h : Starved s) (e : RxEvent) :
    Starved (rxStep s e) ∧ (rxStep s e).handed = s.handed := by
  cases e with
  | interrupt status =>
    obtain ⟨hpc, ht, hcnt⟩ := h
    show Starved (halIrqhandler s status) ∧ (halIrqhandler s status).handed = s.handed
    rcases interrupt_cases s status with hs | ⟨-, -, -, hs | hs⟩ <;> rw [hs]
    all_goals exact ⟨⟨hpc, ht, hcnt⟩, rfl⟩
  | irqStep transfer => exact h.irqStep transfer
  | thread a =>
    have hs : SdioRx.rxStep s (.thread a) = s := by
      show threadStep s a = s
      unfold SdioRx.threadStep
      rw [h.waiting]
      exact if_pos h.trgg
    rw [hs]
    exact ⟨h, rfl⟩
  | busStop => exact ⟨⟨h.waiting, h.trgg, h.two_le⟩, rfl⟩

theorem Starved.run (h : Starved s) (es : List RxEvent) : (busrxRun s es).handed = s.handed := by
  induction es generalizing s with
  | nil => rfl
  | cons e es ih =>
    obtain ⟨hstarved, hsame⟩ := h.rxStep e
    exact (ih hstarved).trans hsame

/-- A frame of the shortest kind. -/
def frameTransfer : Transfer := ⟨[1, 0, 0, 0], rfl⟩

/-- An interrupt with a frame, up to the look at the count. -/
def frameArrives : List RxEvent :=
  [.interrupt .frames, .irqStep (some frameTransfer), .irqStep none, .irqStep none]

theorem frameArrives_taken (h : Inv n s) (hidle : s.irq = .idle) (hup : s.busUp = true)
    (hfree : s.rxbuffListLen ≠ 0) :
    ∃ rxq : RxFrameQueue, rxq.queuelist = s.queued ++ [readframes frameTransfer] ∧
      busrxRun s frameArrives = { s with
        rxbuffListLen := s.rxbuffListLen - 1
        rxq := rxq
        rxCnt := s.rxCnt + 1
        irq := .idle
        busrxTrgg := if s.rxCnt + 1 = 1 then s.busrxTrgg + 1 else s.busrxTrgg
        enqueued := s.enqueued ++ [frameTransfer] } := by
  have hread : halIrqhandler s .frames =
      { s with rxbuffListLen := s.rxbuffListLen - 1, irq := .reading } := by
    unfold halIrqhandler
    rw [if_neg (by simp [hidle, hup, hfree])]
  have hi := h.interrupt .frames
  rw [hread] at hi
  obtain ⟨rxq, hlist, -, henq⟩ := hi.enqRxpkt frameTransfer
  refine ⟨rxq, hlist, ?_⟩
  have hrun : busrxRun s frameArrives = irqStep (irqStep (irqStep (halIrqhandler s .frames)
      (some frameTransfer)) none) none := rfl
  have htaken : irqStep { s with rxbuffListLen := s.rxbuffListLen - 1, irq := .reading }
      (some frameTransfer) = SdioRx.enqRxpkt
        { s with rxbuffListLen := s.rxbuffListLen - 1, irq := .reading } frameTransfer := rfl
  rw [hrun, hread, htaken, henq]
  rfl

/-- A thread that is woken takes the transfer and hands its first packet on. -/
theorem woken_handed (hpc : s.pc = .waiting) (ht : s.busrxTrgg ≠ 0) (hup : s.busUp = true)
    (hq : s.queued = [readframes frameTransfer]) :
    ([⟨true, true⟩, ⟨true, true⟩, ⟨true, true⟩].foldl threadStep s).handed ≠ s.handed := by
  have hlook : threadStep s ⟨true, true⟩ =
      { s with busrxTrgg := s.busrxTrgg - 1, pc := .looking } := by
    unfold threadStep
    rw [hpc]
    dsimp only
    rw [if_neg ht, hup]
    rfl
  rw [List.foldl_cons, List.foldl_cons, List.foldl_cons, List.foldl_nil, hlook]
  rcases looking_cases { s with busrxTrgg := s.busrxTrgg - 1, pc := .looking } rfl
    ⟨true, true⟩ with ⟨hnil, -⟩ | ⟨buffer, rest, rxq, hcons, -, -, hs⟩
  · exact absurd (hq.symm.trans hnil) (by simp)
  · have hbuffer : buffer = readframes frameTransfer := by
      have hlist := hq.symm.trans hcons
      rw [List.cons.injEq] at hlist
      exact hlist.1.symm
    rw [hs, hbuffer]
    show s.handed ++ [_] ≠ s.handed
    simp

/-- An interrupt with nothing to read, one with a frame, and the thread. -/
def rouse : List RxEvent :=
  [.interrupt .nothing, .irqStep none] ++ frameArrives ++
    [.thread ⟨true, true⟩, .thread ⟨true, true⟩, .thread ⟨true, true⟩]

theorem rouse_handed (h : Inv n s) (hn : 0 < n) (hwaiting : s.pc = .waiting)
    (hirq : s.irq = .idle) (hup : s.busUp = true) (hq : s.queued = []) (hg : s.givenUp ≤ 1) :
    (busrxRun s rouse).handed ≠ s.handed := by
  have hcount := h.count
  have hbuffers := h.buffers
  rw [hirq, hwaiting, hq] at hcount hbuffers
  simp only [Irq.uncounted, Irq.buffers, Pc.inHand, Pc.buffers, List.length_nil] at hcount hbuffers
  have hfree : s.rxbuffListLen ≠ 0 := by omega
  have hnone : halIrqhandler s .nothing = { s with irq := .counted } := by
    unfold halIrqhandler
    rw [if_neg (by simp [hirq, hup, hfree])]
  have hi := (h.interrupt .nothing).irqStep none
  have hlook : irqStep (halIrqhandler s .nothing) none = { s with
      irq := .idle, busrxTrgg := if s.rxCnt = 1 then s.busrxTrgg + 1 else s.busrxTrgg } := by
    rw [hnone]
    rfl
  rw [hlook] at hi
  obtain ⟨rxq, hlist, htaken⟩ := frameArrives_taken hi rfl hup hfree
  have hrun : busrxRun s rouse = [⟨true, true⟩, ⟨true, true⟩, ⟨true, true⟩].foldl threadStep
      (busrxRun (irqStep (halIrqhandler s .nothing) none) frameArrives) := rfl
  rw [hrun, hlook, htaken]
  refine woken_handed ?_ ?_ ?_ ?_
  · exact hwaiting
  · -- One of the two interrupts finds the count at one.
    show (if s.rxCnt + 1 = 1 then (if s.rxCnt = 1 then s.busrxTrgg + 1 else s.busrxTrgg) + 1
      else if s.rxCnt = 1 then s.busrxTrgg + 1 else s.busrxTrgg) ≠ 0
    split
    · exact Nat.succ_ne_zero _
    · rw [if_pos (by omega)]
      exact Nat.succ_ne_zero _
  · exact hup
  · show rxq.queuelist = [readframes frameTransfer]
    rw [hlist]
    exact congrArg (· ++ [readframes frameTransfer]) hq

/-- In any run, once thread and handler rest with the bus up and if there is a buffer at all:
nothing that comes is ever handed on again exactly where memory for a message has failed before and
the transfers given up and those queued are two or more. -/
theorem starved_iff (failed : ℕ) (es : List RxEvent) (hfailed : failed < aicRxbuffNumMax)
    (hwaiting : (busrxRun (.init failed) es).pc = .waiting)
    (htrgg : (busrxRun (.init failed) es).busrxTrgg = 0)
    (hirq : (busrxRun (.init failed) es).irq = .idle)
    (hup : (busrxRun (.init failed) es).busUp = true) :
    let s := busrxRun (.init failed) es
    (∀ es', (busrxRun s es').handed = s.handed) ↔
      s.givenUp ≠ 0 ∧ 2 ≤ s.givenUp + s.queued.length := by
  intro s
  have h : Inv (aicRxbuffNumMax - failed) s := inv_busrxRun failed es
  have hcount := h.count
  rw [show s.irq = .idle from hirq, show s.pc = .waiting from hwaiting, Irq.uncounted,
    Pc.inHand] at hcount
  constructor
  · intro hnever
    by_contra hnot
    -- Nothing is queued and the count is one at most: one of the next two interrupts finds it at
    -- one.
    have hrest : s.queued = [] ∧ s.givenUp ≤ 1 := by
      by_cases hg : s.givenUp = 0
      · exact ⟨h.queue_nil (.inl hirq) hg hwaiting htrgg, by omega⟩
      · have hsum : ¬2 ≤ s.givenUp + s.queued.length := fun hle => hnot ⟨hg, hle⟩
        exact ⟨List.eq_nil_of_length_eq_zero (by omega), by omega⟩
    exact rouse_handed h (by omega) hwaiting hirq hup hrest.1 hrest.2 (hnever rouse)
  · rintro ⟨-, htwo⟩ es'
    -- From two on the count never comes down to one, as only the thread lowers it.
    have hcnt : 2 ≤ s.rxCnt := by omega
    exact Starved.run ⟨hwaiting, htrgg, hcnt⟩ es'

def Pc.left : Pc → List Bytes
  | .packets buffer => packetsOf buffer.front
  | .waiting | .looking | .freed | .exited => []

/-- Transfers come as they are packed, and there is memory for messages. -/
def RxEvent.Fits : RxEvent → Prop
  | .irqStep (some transfer) => Packed transfer.data
  | .thread a => a.msg = true
  | .interrupt _ | .irqStep none | .busStop => True

/-- The packets of the transfers queued so far are those looked at, those of the transfer in hand
that are left, and those of the queue. -/
structure Order (s : RxState) : Prop where
  packed : ∀ buffer ∈ s.queued, Packed buffer.front
  packing : ∀ buffer, s.pc = .packets buffer → Packed buffer.front
  order : s.enqueued.flatMap (packetsOf ·.data) =
    s.seen.map (·.packet) ++ s.pc.left ++ s.queued.flatMap (packetsOf ·.front)
  handed : s.handed = s.seen.flatMap Seen.handed
  kept : s.givenUp = 0

theorem order_init (failed : ℕ) : Order (.init failed) where
  packed := nofun
  packing := nofun
  order := rfl
  handed := rfl
  kept := rfl

theorem Order.interrupt (h : Order s) (status : Status) : Order (halIrqhandler s status) := by
  rcases interrupt_cases s status with hs | ⟨-, -, -, hs | hs⟩ <;> rw [hs]
  · exact h
  · exact ⟨h.packed, h.packing, h.order, h.handed, h.kept⟩
  · exact ⟨h.packed, h.packing, h.order, h.handed, h.kept⟩

theorem Order.irqStep (h : Order s) (hi : Inv n s) {transfer : Option Transfer}
    (hfits : (RxEvent.irqStep transfer).Fits) : Order (irqStep s transfer) := by
  unfold SdioRx.irqStep
  cases s.irq with
  | idle => exact h
  | queued => exact ⟨h.packed, h.packing, h.order, h.handed, h.kept⟩
  | counted => exact ⟨h.packed, h.packing, h.order, h.handed, h.kept⟩
  | reading =>
    cases transfer with
    | none => exact ⟨h.packed, h.packing, h.order, h.handed, h.kept⟩
    | some transfer =>
      obtain ⟨rxq, hlist, -, hs⟩ := hi.enqRxpkt transfer
      dsimp only
      rw [hs]
      refine ⟨?_, h.packing, ?_, h.handed, h.kept⟩
      · intro buffer hbuffer
        replace hbuffer : buffer ∈ rxq.queuelist := hbuffer
        rw [hlist, List.mem_append, List.mem_singleton] at hbuffer
        rcases hbuffer with hbuffer | rfl
        · exact h.packed buffer hbuffer
        · exact hfits
      · show (s.enqueued ++ [transfer]).flatMap (packetsOf ·.data) =
          s.seen.map (·.packet) ++ s.pc.left ++ rxq.queuelist.flatMap (packetsOf ·.front)
        rw [hlist, List.flatMap_append, List.flatMap_append, h.order, List.append_assoc]
        rfl

theorem Order.processPacket (h : Order s) {buffer : RxBuff} (hpc : s.pc = .packets buffer)
    {a : Answer} (ha : a.msg = true) : Order (processPacket s buffer a) := by
  have hpacked := h.packing buffer hpc
  have horder := h.order
  rw [hpc] at horder
  unfold SdioRx.processPacket
  split
  · next hptk =>
    refine ⟨h.packed, nofun, ?_, h.handed, h.kept⟩
    rw [Pc.left, Packed.nil hptk] at horder
    exact horder
  · next hptk =>
    rw [Bool.not_eq_false] at hptk
    obtain ⟨hrest, hpackets, hhand⟩ := hpacked.next hptk
    rw [if_neg (by rw [ha]; simp)]
    refine ⟨h.packed, ?_, ?_, ?_, h.kept⟩
    · rintro buffer' ⟨⟩
      exact hrest
    · rw [Pc.left, hpackets] at horder
      show s.enqueued.flatMap (packetsOf ·.data) =
        (s.seen ++ [_]).map Seen.packet ++ packetsOf buffer.next.front ++ _
      rw [horder, List.append_cons, List.map_append]
      rfl
    · show s.handed ++ handPacket a.skb s.busUp buffer.front = (s.seen ++ [_]).flatMap Seen.handed
      rw [List.flatMap_append, h.handed, hhand, List.flatMap_singleton]
      rfl

theorem Order.threadStep (h : Order s) {a : Answer} (ha : a.msg = true) :
    Order (threadStep s a) := by
  have horder := h.order
  cases hpc : s.pc with
  | waiting =>
    rw [hpc] at horder
    unfold SdioRx.threadStep
    rw [hpc]
    dsimp only
    split
    · exact h
    · cases s.busUp <;> exact ⟨h.packed, nofun, horder, h.handed, h.kept⟩
  | looking =>
    rw [hpc] at horder
    rcases looking_cases s hpc a with ⟨hnil, hs⟩ | ⟨buffer, rest, rxq, hq, hlist, -, hs⟩ <;> rw [hs]
    · exact ⟨h.packed, nofun, horder, h.handed, h.kept⟩
    · refine ⟨?_, ?_, ?_, h.handed, h.kept⟩
      · intro buffer' hbuffer'
        replace hbuffer' : buffer' ∈ rxq.queuelist := hbuffer'
        apply h.packed
        rw [hq]
        exact List.mem_cons_of_mem _ (hlist ▸ hbuffer')
      · rintro buffer' ⟨⟩
        apply h.packed
        rw [hq]
        exact List.mem_cons_self
      · rw [hq, List.flatMap_cons] at horder
        show s.enqueued.flatMap (packetsOf ·.data) =
          s.seen.map (·.packet) ++ packetsOf buffer.front ++
            rxq.queuelist.flatMap (packetsOf ·.front)
        rw [hlist, horder, Pc.left, List.append_nil, List.append_assoc]
  | packets buffer =>
    unfold SdioRx.threadStep
    rw [hpc]
    exact h.processPacket hpc ha
  | freed =>
    rw [hpc] at horder
    unfold SdioRx.threadStep
    rw [hpc]
    exact ⟨h.packed, nofun, horder, h.handed, h.kept⟩
  | exited =>
    unfold SdioRx.threadStep
    rw [hpc]
    exact h

theorem Order.rxStep (h : Order s) (hi : Inv n s) {e : RxEvent} (he : e.Fits) :
    Order (rxStep s e) := by
  cases e with
  | interrupt status => exact h.interrupt status
  | irqStep transfer => exact h.irqStep hi he
  | thread a => exact h.threadStep he
  | busStop => exact ⟨h.packed, h.packing, h.order, h.handed, h.kept⟩

theorem order_busrxRun (failed : ℕ) {es : List RxEvent} (hes : ∀ e ∈ es, e.Fits) :
    Order (busrxRun (.init failed) es) := by
  have hg : Guarded rxStep (fun _ e => e.Fits) (.init failed) es :=
    .of_forall fun e he _ => hes e he
  exact (hg.invariant (I := fun s => Inv (aicRxbuffNumMax - failed) s ∧ Order s)
    (fun _ e _ h he => ⟨h.1.rxStep e, h.2.rxStep h.1 he⟩) ⟨inv_init failed, order_init failed⟩).2

/-- In any run of interrupts, thread steps and stops of the bus, if transfers come as they are
packed and there is memory for messages, the queue takes every transfer that was read, the packets
of the transfers are dealt with in their order, each once, and each is handed on whole to the
function its type names. A frame is left out only where there is no memory for it, a response only
where the bus is down. -/
theorem busrxRun_in_order (failed : ℕ) (es : List RxEvent) (hes : ∀ e ∈ es, e.Fits) :
    let s := busrxRun (.init failed) es
    s.refused = [] ∧
      s.enqueued.flatMap (packetsOf ·.data) =
        s.seen.map (·.packet) ++ s.pc.left ++ s.queued.flatMap (packetsOf ·.front) ∧
      s.handed = s.seen.flatMap fun e => handPacket e.skbAlloc e.busUp e.packet :=
  ⟨(inv_busrxRun failed es).refused, (order_busrxRun failed hes).order,
    (order_busrxRun failed hes).handed⟩

def Pc.steps : Pc → ℕ
  | .waiting | .exited => 0
  | .looking => 1
  | .freed => 2
  | .packets buffer => (packetsOf buffer.front).length + 3

/-- The steps that the thread has to take before it rests. -/
def toDo (pc : Pc) (queued : List RxBuff) (trgg : ℕ) : ℕ :=
  pc.steps + (queued.map fun buffer => (packetsOf buffer.front).length + 3).sum + 2 * trgg

def work (s : RxState) : ℕ := toDo s.pc s.queued s.busrxTrgg

/-- The thread is at its wait and nothing wakes it. -/
def Rests (s : RxState) : Prop := s.pc = .waiting ∧ s.busrxTrgg = 0

theorem Rests.threadStep (h : Rests s) (a : Answer) : threadStep s a = s := by
  unfold SdioRx.threadStep
  rw [h.1]
  exact if_pos h.2

/-- What the thread by itself keeps, from the state `s₀` on. -/
structure Alone (n : ℕ) (s₀ s : RxState) : Prop where
  inv : Inv n s
  order : Order s
  idle : s.irq = .idle
  up : s.busUp = true
  enqueued : s.enqueued = s₀.enqueued

theorem thread_keeps (s : RxState) (a : Answer) :
    (threadStep s a).irq = s.irq ∧ (threadStep s a).busUp = s.busUp ∧
      (threadStep s a).enqueued = s.enqueued := by
  unfold threadStep processPacket
  split
  · split <;> exact ⟨rfl, rfl, rfl⟩
  · split
    · exact ⟨rfl, rfl, rfl⟩
    · split <;> exact ⟨rfl, rfl, rfl⟩
  · split_ifs <;> exact ⟨rfl, rfl, rfl⟩
  · exact ⟨rfl, rfl, rfl⟩
  · exact ⟨rfl, rfl, rfl⟩

theorem Alone.threadStep {s₀ : RxState} (h : Alone n s₀ s) {a : Answer} (ha : a.msg = true) :
    Alone n s₀ (threadStep s a) := by
  obtain ⟨hirq, hup, henq⟩ := thread_keeps s a
  exact ⟨h.inv.threadStep a, h.order.threadStep ha, hirq.trans h.idle, hup.trans h.up,
    henq.trans h.enqueued⟩

/-- Away from its rest every step of the thread is one of those it had to take. -/
theorem thread_works {s₀ : RxState} (h : Alone n s₀ s) {a : Answer} (ha : a.msg = true)
    (hrest : ¬Rests s) : work (threadStep s a) + 1 = work s := by
  cases hpc : s.pc with
  | waiting =>
    have ht : s.busrxTrgg ≠ 0 := fun ht => hrest ⟨hpc, ht⟩
    have hs : threadStep s a = { s with busrxTrgg := s.busrxTrgg - 1, pc := .looking } := by
      unfold threadStep
      rw [hpc]
      dsimp only
      rw [if_neg ht, h.up]
      rfl
    rw [hs, work, work, hpc]
    show toDo .looking s.queued (s.busrxTrgg - 1) + 1 = _
    simp only [toDo, Pc.steps]
    omega
  | looking =>
    rcases looking_cases s hpc a with ⟨-, hs⟩ | ⟨buffer, rest, rxq, hq, hlist, -, hs⟩ <;>
      rw [hs, work, work, hpc]
    · show toDo .waiting s.queued s.busrxTrgg + 1 = _
      simp only [toDo, Pc.steps]
      omega
    · show toDo (.packets buffer) rxq.queuelist s.busrxTrgg + 1 = _
      rw [hq, hlist]
      simp only [toDo, Pc.steps, List.map_cons, List.sum_cons]
      omega
  | packets buffer =>
    unfold threadStep processPacket
    rw [work, work, hpc]
    dsimp only
    split
    · next hptk =>
      show toDo .freed s.queued s.busrxTrgg + 1 = _
      simp only [toDo, Pc.steps, Packed.nil hptk, List.length_nil]
      omega
    · next hptk =>
      rw [Bool.not_eq_false] at hptk
      have hpackets := ((h.order.packing buffer hpc).next hptk).2.1
      rw [if_neg (by rw [ha]; simp)]
      show toDo (.packets buffer.next) s.queued s.busrxTrgg + 1 = _
      simp only [toDo, Pc.steps, hpackets, List.length_cons]
      omega
  | freed =>
    unfold threadStep
    rw [work, work, hpc]
    show toDo .looking s.queued s.busrxTrgg + 1 = _
    simp only [toDo, Pc.steps]
    omega
  | exited => exact absurd hpc (h.inv.running h.up)

theorem rest_of_work {s₀ : RxState} (h : Alone n s₀ s) (hwork : work s = 0) : Rests s := by
  rw [work, toDo] at hwork
  refine ⟨?_, by omega⟩
  cases hpc : s.pc with
  | waiting => rfl
  | exited => exact absurd hpc (h.inv.running h.up)
  | looking | freed | packets buffer =>
    rw [hpc, Pc.steps] at hwork
    omega

theorem thread_drains {s₀ : RxState} (h : Alone n s₀ s) (as : List Answer)
    (ha : ∀ a ∈ as, a.msg = true) (hlen : work s ≤ as.length) :
    Alone n s₀ (as.foldl threadStep s) ∧ Rests (as.foldl threadStep s) := by
  refine comes_to_rest (I := Alone n s₀) threadStep as (fun s a hmem h => h.threadStep (ha a hmem))
    ?_ ?_ (fun s h => rest_of_work h) h (.inl hlen)
  · intro s a _ _ hr
    rw [hr.threadStep]
    exact hr
  · intro s a hmem h hr
    have hone := thread_works h (ha a hmem) hr
    omega

/-- In any run of this kind, wherever the thread stands: once no interrupt comes, the thread is not
asleep over a transfer. With the bus up it comes to its wait by itself, with the queue empty, all
buffers free, the count at zero and every packet of the transfers queued dealt with. -/
theorem busrxRun_drains (failed : ℕ) (es : List RxEvent) (hes : ∀ e ∈ es, e.Fits)
    (hirq : (busrxRun (.init failed) es).irq = .idle)
    (hup : (busrxRun (.init failed) es).busUp = true) :
    ∃ n, ∀ as : List Answer, n ≤ as.length → (∀ a ∈ as, a.msg = true) →
      let s' := as.foldl threadStep (busrxRun (.init failed) es)
      s'.pc = .waiting ∧ s'.busrxTrgg = 0 ∧ s'.queued = [] ∧ s'.rxCnt = 0 ∧
        s'.rxbuffListLen = aicRxbuffNumMax - failed ∧
        s'.seen.map (·.packet) =
          (busrxRun (.init failed) es).enqueued.flatMap (packetsOf ·.data) := by
  have hs : Alone (aicRxbuffNumMax - failed) (busrxRun (.init failed) es)
      (busrxRun (.init failed) es) :=
    ⟨inv_busrxRun failed es, order_busrxRun failed hes, hirq, hup, rfl⟩
  refine ⟨work (busrxRun (.init failed) es), fun as hlen ha => ?_⟩
  obtain ⟨hal, hpc, ht⟩ := thread_drains hs as ha hlen
  have hq := hal.inv.queue_nil (.inl hal.idle) hal.order.kept hpc ht
  have hcount := hal.inv.count
  have hbuffers := hal.inv.buffers
  have horder := hal.order.order
  rw [hal.idle, hpc, hq, hal.order.kept] at hcount
  rw [hal.idle, hpc, hq] at hbuffers
  rw [hpc, hq, hal.enqueued] at horder
  -- At rest the invariant leaves nothing but zeros on the other side.
  refine ⟨hpc, ht, hq, by simpa [Irq.uncounted, Pc.inHand] using hcount,
    by simpa [Irq.buffers, Pc.buffers] using hbuffers, ?_⟩
  simpa [Pc.left] using horder.symm

def runs (n : ℕ) : List RxEvent := List.replicate n (.thread ⟨true, true⟩)

/-- A response to a command and a print. -/
def messagesTransfer : Transfer := ⟨[1, 0, 0x11, 0, 9, 0, 0, 0, 2, 0, 0x13, 0, 7, 7, 0, 0], rfl⟩

theorem packed_messages : Packed messagesTransfer.data := by
  have hend : Complete packetSize [] [] := .nil rfl
  have hprint := hend.cons (r := [2, 0, 0x13, 0, 7, 7, 0, 0]) (by simp) (by decide)
  have hboth := hprint.cons (r := [1, 0, 0x11, 0, 9, 0, 0, 0]) (by simp) (by decide)
  refine ⟨_, hboth, fun p hp => ?_⟩
  simp only [List.mem_cons, List.not_mem_nil, or_false] at hp
  rcases hp with rfl | rfl <;> decide

def messagesRun : List RxEvent :=
  [.interrupt .frames, .irqStep (some messagesTransfer), .irqStep none, .irqStep none] ++ runs 3

theorem messagesRun_fits : ∀ e ∈ messagesRun, e.Fits := by
  intro e he
  rw [messagesRun, List.mem_append] at he
  rcases he with he | he
  · simp only [List.mem_cons, List.not_mem_nil, or_false, or_self] at he
    rcases he with rfl | rfl | rfl
    · trivial
    · exact packed_messages
    · trivial
  · rw [runs, List.mem_replicate] at he
    rw [he.2]
    rfl

theorem busrxRun_in_order_messages :
    let s := busrxRun (.init 0) messagesRun
    s.refused = [] ∧
      s.enqueued.flatMap (packetsOf ·.data) =
        s.seen.map (·.packet) ++ s.pc.left ++ s.queued.flatMap (packetsOf ·.front) ∧
      s.handed = s.seen.flatMap fun e => handPacket e.skbAlloc e.busUp e.packet :=
  busrxRun_in_order 0 messagesRun messagesRun_fits

theorem busrxRun_drains_messages :
    ∃ n, ∀ as : List Answer, n ≤ as.length → (∀ a ∈ as, a.msg = true) →
      let s' := as.foldl threadStep (busrxRun (.init 0) messagesRun)
      s'.pc = .waiting ∧ s'.busrxTrgg = 0 ∧ s'.queued = [] ∧ s'.rxCnt = 0 ∧
        s'.rxbuffListLen = aicRxbuffNumMax - 0 ∧
        s'.seen.map (·.packet) =
          (busrxRun (.init 0) messagesRun).enqueued.flatMap (packetsOf ·.data) :=
  busrxRun_drains 0 messagesRun messagesRun_fits (by decide) (by decide)

/-- One message for which there is no memory, and one frame. -/
def lostRun : List RxEvent :=
  [.interrupt .frames, .irqStep (some messagesTransfer), .irqStep none, .irqStep none] ++ runs 2 ++
    .thread ⟨true, false⟩ :: frameArrives

theorem starved_iff_lost :
    let s := busrxRun (.init 0) lostRun
    ((∀ es', (busrxRun s es').handed = s.handed) ↔
        s.givenUp ≠ 0 ∧ 2 ≤ s.givenUp + s.queued.length) ∧
      s.givenUp ≠ 0 ∧ 2 ≤ s.givenUp + s.queued.length :=
  ⟨starved_iff 0 lostRun (by decide) (by decide) (by decide) (by decide) (by decide), by decide,
    by decide⟩

def RxEvent.thread? : RxEvent → Bool
  | .thread _ => true
  | .interrupt _ | .irqStep _ | .busStop => false

/-- There is memory for every message of the run. -/
def Allocates (es : List RxEvent) : Prop := ∀ a, RxEvent.thread a ∈ es → a.msg = true

/-- A frame so long that the sum with its hardware header, rounded up to words, is a multiple of
2^16: `read` stays where it is. -/
def Wraps (data : Bytes) : Prop := isData data = true ∧ 65473 ≤ pktLen data ∧ pktLen data ≤ 65476

theorem pktLen_lt (data : Bytes) : pktLen data < 65536 := by
  have h0 := (data.getD 0 0).toNat_lt
  have h1 := (data.getD 1 0).toNat_lt
  rw [pktLen]
  omega

theorem pullLen_eq_zero {data : Bytes} : pullLen data = 0 ↔ Wraps data := by
  have hlt := pktLen_lt data
  rw [pullLen, adjustLen, aggrLen, Wraps, rxAlignment, rxHwhrdLen, roundup]
  cases isData data with
  | false => simp
  | true =>
    simp only [if_true, true_and]
    split <;> omega

/-- The loop over the packets of a transfer comes from one packet to another. -/
inductive Reaches : RxBuff → RxBuff → Prop
  | refl {buffer : RxBuff} : anotherPtk1 buffer = true → Reaches buffer buffer
  | step {buffer b : RxBuff} : anotherPtk1 buffer = true → Reaches buffer.next b →
      Reaches buffer b

theorem ends_of_not_wraps {buffer : RxBuff} (h : ∀ b, Reaches buffer b → ¬Wraps b.front) :
    Ends packetSize buffer.front := by
  refine ends_of_ne_zero rfl fun k => ?_
  induction k generalizing buffer with
  | zero =>
    intro hzero
    rw [Function.iterate_zero, id_eq] at hzero
    have hptk : anotherPtk1 buffer = true := by rw [anotherPtk1_eq, hzero]; rfl
    rw [packetSize_front hptk, Option.some.injEq] at hzero
    exact h buffer (.refl hptk) (pullLen_eq_zero.mp hzero)
  | succ k ih =>
    rw [Function.iterate_succ_apply, skip]
    cases hptk : anotherPtk1 buffer with
    | true =>
      rw [packetSize_front hptk]
      dsimp only
      rw [← next_front]
      exact ih fun b hb => h b (.step hptk hb)
    | false =>
      rw [anotherPtk1_eq, Option.isSome_eq_false_iff, Option.isNone_iff_eq_none] at hptk
      rw [hptk]
      exact ih h

theorem packets_step {buffer : RxBuff} (hpc : s.pc = .packets buffer)
    (hptk : anotherPtk1 buffer = true) {a : Answer} (ha : a.msg = true) :
    (threadStep s a).pc = .packets buffer.next := by
  unfold threadStep processPacket
  rw [hpc]
  dsimp only
  rw [if_neg (by rw [hptk]; simp), if_neg (by rw [ha]; simp)]

theorem end_step {buffer : RxBuff} (hpc : s.pc = .packets buffer)
    (hptk : anotherPtk1 buffer = false) (a : Answer) : (threadStep s a).pc = .freed := by
  unfold threadStep processPacket
  rw [hpc]
  dsimp only
  rw [if_pos hptk]

theorem others_pc (s : RxState) {e : RxEvent} (he : e.thread? = false) :
    (rxStep s e).pc = s.pc := by
  cases e with
  | thread a => cases he
  | busStop => rfl
  | irqStep transfer =>
    show (irqStep s transfer).pc = s.pc
    unfold irqStep enqRxpkt
    split
    · rfl
    · split
      · rfl
      · split <;> rfl
    · rfl
    · rfl
  | interrupt status =>
    show (halIrqhandler s status).pc = s.pc
    rcases interrupt_cases s status with hs | ⟨-, -, -, hs | hs⟩ <;> rw [hs]

theorem others_run {es : List RxEvent} (hes : es.countP RxEvent.thread? = 0) :
    (busrxRun s es).pc = s.pc := by
  induction es generalizing s with
  | nil => rfl
  | cons e es ih =>
    rw [List.countP_eq_zero] at hes
    have he := hes e List.mem_cons_self
    rw [Bool.not_eq_true] at he
    have hrest := List.countP_eq_zero.mpr fun e' he' => hes e' (List.mem_cons_of_mem _ he')
    exact (ih (s := rxStep s e) hrest).trans (others_pc s he)

/-- Up to the first step of the thread, it stays where it is. -/
theorem first_thread {es : List RxEvent} {k : ℕ} (hes : es.countP RxEvent.thread? = k + 1)
    (ha : Allocates es) : ∃ t a rest, a.msg = true ∧ t.pc = s.pc ∧
      rest.countP RxEvent.thread? = k ∧ Allocates rest ∧
      busrxRun s es = busrxRun (threadStep t a) rest := by
  induction es generalizing s with
  | nil => cases hes
  | cons e es ih =>
    have hrest : Allocates es := fun a h => ha a (List.mem_cons_of_mem _ h)
    cases he : e.thread? with
    | false =>
      rw [List.countP_cons_of_neg (by rw [he]; exact Bool.false_ne_true)] at hes
      obtain ⟨t, a, rest, hmsg, hpc, hk, hal, hrun⟩ := ih (s := rxStep s e) hes hrest
      exact ⟨t, a, rest, hmsg, hpc.trans (others_pc s he), hk, hal, hrun⟩
    | true =>
      cases e with
      | thread a =>
        rw [List.countP_cons_of_pos rfl, Nat.add_right_cancel_iff] at hes
        exact ⟨s, a, es, ha a List.mem_cons_self, rfl, hes, hrest, rfl⟩
      | interrupt _ => cases he
      | irqStep _ => cases he
      | busStop => cases he

theorem freed_of_ends {xs : Bytes} (h : Ends packetSize xs) : ∃ k, ∀ s buffer es,
    s.pc = .packets buffer → buffer.front = xs → Allocates es →
      es.countP RxEvent.thread? = k → (busrxRun s es).pc = .freed := by
  induction h with
  | @nil xs hs =>
    refine ⟨1, fun s buffer es hpc hfront ha hk => ?_⟩
    obtain ⟨t, a, rest, -, ht, hrest, -, hrun⟩ := first_thread (s := s) hk ha
    have hptk : anotherPtk1 buffer = false := by rw [anotherPtk1_eq, hfront, hs]; rfl
    rw [hrun, others_run hrest, end_step (ht.trans hpc) hptk]
  | @cons xs m hs _ _ ih =>
    obtain ⟨k, ih⟩ := ih
    refine ⟨k + 1, fun s buffer es hpc hfront ha hk => ?_⟩
    obtain ⟨t, a, rest, hmsg, ht, hrest, hal, hrun⟩ := first_thread (s := s) hk ha
    have hptk : anotherPtk1 buffer = true := by rw [anotherPtk1_eq, hfront, hs]; rfl
    have hm : pullLen buffer.front = m := by
      have hsize := packetSize_front hptk
      rwa [hfront, hs, Option.some.injEq, eq_comm, ← hfront] at hsize
    rw [hrun]
    exact ih _ buffer.next rest (packets_step (ht.trans hpc) hptk hmsg)
      (by rw [next_front, hm, hfront]) hal hrest

theorem next_of_wraps {buffer : RxBuff} (hw : Wraps buffer.front) : buffer.next = buffer := by
  have hread : buffer.next.read = buffer.read := by
    show buffer.read + pullLen buffer.front = buffer.read
    rw [pullLen_eq_zero.mpr hw, Nat.add_zero]
  cases buffer
  simp only [RxBuff.next] at hread ⊢
  congr

/-- Where `read` stands still the thread looks at the same packet again and again. -/
theorem hangs_at {buffer b : RxBuff} (hb : Reaches buffer b) (hw : Wraps b.front) :
    ∃ k, ∀ s es, s.pc = .packets buffer → Allocates es → k ≤ es.countP RxEvent.thread? →
      (busrxRun s es).pc = .packets b := by
  induction hb with
  | @refl buffer hptk =>
    refine ⟨0, fun s es hpc ha _ => ?_⟩
    induction hk : es.countP RxEvent.thread? generalizing s es with
    | zero => rw [others_run hk, hpc]
    | succ k ih =>
      obtain ⟨t, a, rest, hmsg, ht, hrest, hal, hrun⟩ := first_thread (s := s) hk ha
      rw [hrun]
      refine ih _ rest ?_ hal (Nat.zero_le _) hrest
      rw [packets_step (ht.trans hpc) hptk hmsg, next_of_wraps hw]
  | @step buffer b hptk _ ih =>
    obtain ⟨k, ih⟩ := ih hw
    refine ⟨k + 1, fun s es hpc ha hle => ?_⟩
    obtain ⟨j, hj⟩ := Nat.exists_eq_add_one_of_ne_zero (Nat.ne_of_gt (Nat.zero_lt_of_lt hle))
    obtain ⟨t, a, rest, hmsg, ht, hrest, hal, hrun⟩ := first_thread (s := s) hj ha
    rw [hrun]
    exact ih _ rest (packets_step (ht.trans hpc) hptk hmsg) hal (by omega)

theorem never_freed {buffer b : RxBuff} (hb : Reaches buffer b) (hw : Wraps b.front)
    (hpc : s.pc = .packets buffer) {es : List RxEvent} (ha : Allocates es) :
    ∃ b', (busrxRun s es).pc = .packets b' := by
  induction hb generalizing s es with
  | @refl buffer hptk =>
    induction hk : es.countP RxEvent.thread? generalizing s es with
    | zero => exact ⟨buffer, by rw [others_run hk, hpc]⟩
    | succ k ih =>
      obtain ⟨t, a, rest, hmsg, ht, hrest, hal, hrun⟩ := first_thread (s := s) hk ha
      rw [hrun]
      refine ih ?_ hal hrest
      rw [packets_step (ht.trans hpc) hptk hmsg, next_of_wraps hw]
  | @step buffer b hptk _ ih =>
    cases hk : es.countP RxEvent.thread? with
    | zero => exact ⟨buffer, by rw [others_run hk, hpc]⟩
    | succ k =>
      obtain ⟨t, a, rest, hmsg, ht, -, hal, hrun⟩ := first_thread (s := s) hk ha
      rw [hrun]
      exact ih hw (packets_step (ht.trans hpc) hptk hmsg) hal

/-- With memory for messages, the thread gets through with a transfer after a fixed number of its
steps, whatever comes meanwhile, exactly if no frame that it comes to is so long that its sixteen
bits wrap to nothing; a packet that ends behind its transfer ends the transfer. Else it comes to
such a frame and is still at it after any further steps. -/
theorem transfer_ends_iff (s : RxState) (buffer : RxBuff) (hpc : s.pc = .packets buffer) :
    ((∃ k, ∀ es, Allocates es → es.countP RxEvent.thread? = k → (busrxRun s es).pc = .freed) ↔
        ∀ b, Reaches buffer b → ¬Wraps b.front) ∧
      ∀ b, Reaches buffer b → Wraps b.front → ∃ k, ∀ es, Allocates es →
        k ≤ es.countP RxEvent.thread? → (busrxRun s es).pc = .packets b := by
  refine ⟨⟨?_, fun h => ?_⟩, fun b hb hw => ?_⟩
  · rintro ⟨k, hk⟩ b hb hw
    -- The thread alone, for as many steps as are said to be enough, is not through.
    have ha : Allocates (runs k) := fun a hmem => by
      obtain ⟨-, he⟩ := List.mem_replicate.mp hmem
      cases he
      rfl
    have hcount : (runs k).countP RxEvent.thread? = k := by
      rw [runs, List.countP_replicate]
      rfl
    obtain ⟨b', hb'⟩ := never_freed hb hw hpc ha
    exact nomatch (hk _ ha hcount).symm.trans hb'
  · obtain ⟨k, hk⟩ := freed_of_ends (ends_of_not_wraps h)
    exact ⟨k, fun es => hk s buffer es hpc rfl⟩
  · obtain ⟨k, hk⟩ := hangs_at hb hw
    exact ⟨k, fun es => hk s es hpc⟩

/-- Of the length 65476, which the header of 60 bytes brings to 2^16. -/
def wrappedTransfer : Transfer := ⟨[0xC4, 0xFF, 0, 0], rfl⟩

/-- The thread with a frame whose length wraps. -/
def hungState : RxState :=
  busrxRun (.init 0)
    ([.interrupt .frames, .irqStep (some wrappedTransfer), .irqStep none, .irqStep none] ++ runs 2)

theorem transfer_ends_iff_hung : ∃ k, ∀ es, Allocates es → k ≤ es.countP RxEvent.thread? →
    (busrxRun hungState es).pc = .packets (readframes wrappedTransfer) :=
  (transfer_ends_iff hungState (readframes wrappedTransfer) (by decide)).2
    (readframes wrappedTransfer) (.refl (by decide)) (by unfold Wraps; decide)

end NervesSystem.SdioRx
