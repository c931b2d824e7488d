import NervesSystem.Slot
import NervesSystem.Library.Trace
import Mathlib.Data.List.Pairwise

namespace NervesSystem.CmdMgr

open Trace

def cmdMaxQueued : ℕ := 16

/-- The requests that are always left to the work item, and the others. -/
inductive MsgId
  | meTrafficIndReq
  | mmSetArpoffloadReq
  | other (id : ℕ)
  deriving DecidableEq

/-- Who sends a command and waits for it. -/
inductive Owner
  | caller
  | worker
  deriving DecidableEq

/-- A command in the queue: the flags `WAIT_PUSH` and `WAIT_CFM`, its completion, whether it has been
given to the bus, and whether the wait for it has run out. -/
structure Cmd where
  tkn : ℕ
  reqid : ℕ
  waitPush : Bool
  waitCfm : Bool
  completed : Bool
  sent : Bool
  timedOut : Bool
  owner : Owner

def Cmd.markSent (c : Cmd) : Cmd := { c with sent := true }

def Cmd.clearPush (c : Cmd) : Cmd := { c with waitPush := false }

def Cmd.confirm (c : Cmd) : Cmd := { c with waitCfm := false, completed := true }

def Cmd.giveUp (c : Cmd) : Cmd := { c with timedOut := true }

/-- What a caller has still to do after it has let go of the lock. -/
inductive Tail
  | testSize
  | testEmpty
  | wake
  deriving DecidableEq

/-- Where `cmd_mgr_task_process` is. -/
inductive Worker
  | idle
  | looking
  | picked (tkn : ℕ)
  | waiting (tkn : ℕ)

structure State where
  crashed : Bool
  nextTkn : ℕ
  queueSz : ℕ
  cmds : List Cmd
  tails : List Tail
  workPending : Bool
  worker : Worker
  bus : List ℕ

def State.init : State := ⟨false, 0, 0, [], [], false, .idle, []⟩

def update (t : ℕ) (g : Cmd → Cmd) (l : List Cmd) : List Cmd :=
  l.map fun c => if c.tkn = t then g c else c

/-- The last command still waits to be sent or confirmed. -/
def busy (l : List Cmd) : Bool :=
  match l.getLast? with
  | some last => last.waitPush || last.waitCfm
  | none => false

def deferred (id : MsgId) : Bool :=
  id = .meTrafficIndReq || id = .mmSetArpoffloadReq

def addTail (s : State) (c : Cmd) (tails : List Tail) : State :=
  { s with nextTkn := s.nextTkn + 1, queueSz := s.queueSz + 1, cmds := s.cmds ++ [c],
           tails := s.tails ++ tails }

/-- `cmd_mgr_queue` up to where it lets go of the lock. With a buffer for the answer it polls until
the queue is empty. -/
def cmdMgrQueue (s : State) (id : MsgId) (reqid : ℕ) (e2aMsg : Bool) : State :=
  if s.crashed then s
  else if e2aMsg && !s.cmds.isEmpty then s
  else if !s.cmds.isEmpty && s.queueSz = cmdMaxQueued then s
  else
    let deferPush := busy s.cmds || deferred id
    let owner := if deferPush then .worker else .caller
    addTail s ⟨s.nextTkn, reqid, deferPush, true, false, false, false, owner⟩
      (if deferPush then [.testSize] else [])

def cmdMgrQueueForceDefer (s : State) (reqid : ℕ) : State :=
  if s.crashed then s
  else if !s.cmds.isEmpty && s.queueSz = cmdMaxQueued then s
  else addTail s ⟨s.nextTkn, reqid, true, true, false, false, false, .worker⟩ [.wake]

def wakeCmdWork (s : State) : State := { s with workPending := true }

def runTail (s : State) : Tail → State
  | .testSize => if s.queueSz ≤ 1 then wakeCmdWork s else s
  | .testEmpty => if s.cmds.isEmpty then s else wakeCmdWork s
  | .wake => wakeCmdWork s

/-- `aicwf_set_cmd_tx`. -/
def setCmdTx (s : State) (t : ℕ) : State :=
  { s with cmds := update t Cmd.markSent s.cmds, bus := s.bus ++ [t] }

def clearPush (s : State) (t : ℕ) : State :=
  { s with cmds := update t Cmd.clearPush s.cmds }

/-- `list_del` and the count. -/
def remove (s : State) (t : ℕ) : State :=
  { s with cmds := s.cmds.filter fun c => c.tkn ≠ t, queueSz := s.queueSz - 1 }

def takes (reqid : ℕ) (c : Cmd) : Bool := c.reqid = reqid && c.waitCfm

/-- `cmd_mgr_msgind`: the first command that waits for the message takes it, unless the callback
refuses it. -/
def cmdMgrMsgind (s : State) (reqid : ℕ) (refused : Bool) : State :=
  if refused then s else
    match s.cmds.find? (takes reqid) with
    | some c => { s with cmds := update c.tkn Cmd.confirm s.cmds }
    | none => s

/-- The wait of a caller or of the work item has run out. -/
def timeOut (s : State) (t : ℕ) : State :=
  { s with crashed := true, cmds := update t Cmd.giveUp s.cmds }

/-- One stretch of `cmd_mgr_task_process` between two points where others may come in. -/
def taskProcess (s : State) : State :=
  match s.worker with
  | .idle => if s.workPending then { s with workPending := false, worker := .looking } else s
  | .looking =>
    match s.cmds with
    | c :: _ => if c.waitPush then { s with worker := .picked c.tkn } else { s with worker := .idle }
    | [] => { s with worker := .idle }
  | .picked t => { setCmdTx (clearPush s t) t with worker := .waiting t }
  | .waiting t =>
    if s.cmds.any fun c => c.tkn = t && c.completed then { remove s t with worker := .looking }
    else s

inductive Event
  | queue (id : MsgId) (reqid : ℕ) (e2aMsg : Bool)
  | forceDefer (reqid : ℕ)
  | tail (t : Tail)
  | send (t : ℕ)
  | msgind (reqid : ℕ) (refused : Bool)
  | finish (t : ℕ)
  | timeOut (t : ℕ)
  | work
  | workTimeOut

/-- The command of a caller that has yet to give it to the bus. -/
def Sendable (t : ℕ) (c : Cmd) : Bool := c.tkn = t && c.owner = .caller && !c.sent

/-- The command of a caller that waits for its completion. -/
def Awaited (t : ℕ) (c : Cmd) : Bool := c.tkn = t && c.owner = .caller && c.sent && !c.timedOut

def step (s : State) : Event → State
  | .queue id reqid e2aMsg => cmdMgrQueue s id reqid e2aMsg
  | .forceDefer reqid => cmdMgrQueueForceDefer s reqid
  | .tail t => if t ∈ s.tails then runTail { s with tails := s.tails.erase t } t else s
  | .send t => if s.cmds.any (Sendable t) then setCmdTx s t else s
  | .msgind reqid refused => cmdMgrMsgind s reqid refused
  | .finish t =>
    if s.cmds.any fun c => Awaited t c && c.completed then
      { remove s t with tails := s.tails ++ [.testEmpty] }
    else s
  | .timeOut t => if s.cmds.any (Awaited t) then timeOut s t else s
  | .work => taskProcess s
  | .workTimeOut =>
    match s.worker with
    | .waiting t => { timeOut s t with worker := .looking }
    | _ => s

def Cmd.blocks (c : Cmd) : Bool := c.waitPush || c.waitCfm

/-- A command waits for its push unsent and in the hands of the work item, and it is completed by a
confirmation, which only a command that was sent can have. -/
structure Cmd.Ok (c : Cmd) : Prop where
  unsent : c.waitPush = true → c.sent = false ∧ c.owner = .worker
  confirmed : c.waitCfm = false → c.sent = true
  completed : c.completed = !c.waitCfm

/-- The queue: behind a command that still waits, all wait for their push. -/
structure Listed (s : State) : Prop where
  size : s.queueSz = s.cmds.length
  bound : s.cmds.length ≤ cmdMaxQueued
  shape : s.cmds.Pairwise fun c d => c.blocks = true → d.waitPush = true
  order : s.cmds.Pairwise (·.tkn < ·.tkn)
  fresh : ∀ c ∈ s.cmds, c.tkn < s.nextTkn
  ok : ∀ c ∈ s.cmds, c.Ok

/-- The command that the work item is at is the first of the queue. -/
def AtHead (s : State) : Prop :=
  match s.worker with
  | .picked t => ∃ c l, s.cmds = c :: l ∧ c.tkn = t ∧ c.waitPush = true
  | .waiting t => ∃ c l, s.cmds = c :: l ∧ c.tkn = t ∧ c.owner = .worker ∧ c.sent = true
  | _ => True

/-- What has gone over the bus, in order and before all that is still to go. -/
structure OnBus (s : State) : Prop where
  ascending : s.bus.Pairwise (· < ·)
  before : ∀ t ∈ s.bus, t < s.nextTkn ∧ ∀ c ∈ s.cmds, c.sent = false → t < c.tkn
  sent : ∀ c ∈ s.cmds, c.sent = true → c.tkn ∈ s.bus
  kept : ∀ t < s.nextTkn, t ∈ s.bus ∨ ∃ c ∈ s.cmds, c.tkn = t

structure Inv (s : State) : Prop where
  listed : Listed s
  atHead : AtHead s
  onBus : OnBus s

/-- A message that commands wait for comes only while one that asked for it has been sent. -/
def Honest (s : State) : Event → Prop
  | .msgind reqid _ => (∃ c ∈ s.cmds, takes reqid c = true) →
      ∃ d ∈ s.cmds, takes reqid d = true ∧ d.sent = true
  | _ => True

theorem mem_update {t : ℕ} {g : Cmd → Cmd} {l : List Cmd} {c : Cmd} :
    c ∈ update t g l ↔ ∃ d ∈ l, c = if d.tkn = t then g d else d := by
  simp only [update, List.mem_map, eq_comm]

theorem update_of_ne {t : ℕ} {g : Cmd → Cmd} {l : List Cmd} (h : ∀ c ∈ l, c.tkn ≠ t) :
    update t g l = l :=
  (List.map_congr_left fun c hc => if_neg (h c hc)).trans (List.map_id' l)

theorem update_head {c : Cmd} {l : List Cmd} (h : (c :: l).Pairwise (·.tkn < ·.tkn))
    (g : Cmd → Cmd) : update c.tkn g (c :: l) = g c :: l := by
  obtain ⟨hc, -⟩ := List.pairwise_cons.mp h
  show (if c.tkn = c.tkn then g c else c) :: update c.tkn g l = _
  rw [if_pos rfl, update_of_ne fun d hd => Nat.ne_of_gt (hc d hd)]

/-- Any change of flags that lets no command block anew and clears no wait for a push. -/
theorem Listed.update {s s' : State} (h : Listed s) {t : ℕ} {g : Cmd → Cmd}
    (hcmds : s'.cmds = update t g s.cmds) (hnext : s'.nextTkn = s.nextTkn)
    (hsize : s'.queueSz = s.queueSz) (htkn : ∀ c, (g c).tkn = c.tkn)
    (hblocks : ∀ c, (g c).blocks = true → c.blocks = true)
    (hpush : ∀ c, c.waitPush = true → (g c).waitPush = true)
    (hok : ∀ c ∈ s.cmds, c.tkn = t → (g c).Ok) : Listed s' where
  size := by rw [hsize, hcmds, CmdMgr.update, List.length_map, h.size]
  bound := by rw [hcmds, CmdMgr.update, List.length_map]; exact h.bound
  shape := by
    rw [hcmds, CmdMgr.update]
    refine List.pairwise_map.mpr (h.shape.imp fun {c d} hcd hb => ?_)
    have hd : d.waitPush = true := by
      apply hcd
      split_ifs at hb
      · exact hblocks c hb
      · exact hb
    split_ifs
    · exact hpush d hd
    · exact hd
  order := by
    rw [hcmds, CmdMgr.update]
    refine List.pairwise_map.mpr (h.order.imp fun {c d} hcd => ?_)
    split_ifs <;> simpa only [htkn] using hcd
  fresh := by
    intro c hc
    rw [hcmds, mem_update] at hc
    obtain ⟨d, hd, rfl⟩ := hc
    rw [hnext]
    split_ifs
    · rw [htkn]
      exact h.fresh d hd
    · exact h.fresh d hd
  ok := by
    intro c hc
    rw [hcmds, mem_update] at hc
    obtain ⟨d, hd, rfl⟩ := hc
    split_ifs with hdt
    · exact hok d hd hdt
    · exact h.ok d hd

theorem length_filter_tkn {t : ℕ} {l : List Cmd} (h : l.Pairwise (·.tkn < ·.tkn))
    (ht : ∃ c ∈ l, c.tkn = t) : (l.filter fun c => c.tkn ≠ t).length + 1 = l.length := by
  induction l with
  | nil => simp at ht
  | cons c l ih =>
    obtain ⟨hc, hl⟩ := List.pairwise_cons.mp h
    by_cases hct : c.tkn = t
    · have hself : (l.filter fun c => c.tkn ≠ t) = l :=
        List.filter_eq_self.mpr fun d hd => decide_eq_true fun he => by
          have := hc d hd
          omega
      rw [List.filter_cons_of_neg (by simp [hct]), hself, List.length_cons]
    · obtain ⟨d, hd, hdt⟩ := ht
      rcases List.mem_cons.mp hd with rfl | hd
      · exact absurd hdt hct
      · rw [List.filter_cons_of_pos (by simp [hct]), List.length_cons, List.length_cons,
          ih hl ⟨d, hd, hdt⟩]

theorem Listed.remove {s : State} (h : Listed s) {t : ℕ} (ht : ∃ c ∈ s.cmds, c.tkn = t) :
    Listed (remove s t) := by
  have hsub : (s.cmds.filter fun c => c.tkn ≠ t).Sublist s.cmds := List.filter_sublist
  have hlen := length_filter_tkn h.order ht
  have hsize := h.size
  refine ⟨?_, Nat.le_trans hsub.length_le h.bound, h.shape.sublist hsub, h.order.sublist hsub,
    fun c hc => h.fresh c (hsub.subset hc), fun c hc => h.ok c (hsub.subset hc)⟩
  show s.queueSz - 1 = (s.cmds.filter fun c => c.tkn ≠ t).length
  omega

/-- The last command decides for the whole queue whether a new one has to wait. -/
theorem Listed.busy_iff {s : State} (h : Listed s) :
    busy s.cmds = true ↔ ∃ c ∈ s.cmds, c.blocks = true := by
  unfold busy
  rcases List.eq_nil_or_concat s.cmds with hnil | ⟨l, d, hd⟩
  · simp [hnil]
  · have hshape := h.shape
    rw [hd, List.concat_eq_append] at hshape ⊢
    rw [List.getLast?_concat]
    constructor
    · intro hb
      exact ⟨d, by simp, hb⟩
    · rintro ⟨c, hc, hb⟩
      rcases List.mem_append.mp hc with hc | hc
      · have hp := (List.pairwise_append.mp hshape).2.2 c hc d (by simp) hb
        simp [hp]
      · rw [List.mem_singleton.mp hc] at hb
        exact hb

theorem Listed.addTail {s : State} (h : Listed s) {c : Cmd} {tails : List Tail}
    (hfree : ¬(s.cmds.isEmpty = false ∧ s.queueSz = cmdMaxQueued)) (hc : c.Ok)
    (htkn : c.tkn = s.nextTkn)
    (hpush : (∃ d ∈ s.cmds, d.blocks = true) → c.waitPush = true) :
    Listed (addTail s c tails) where
  size := by
    show s.queueSz + 1 = (s.cmds ++ [c]).length
    rw [h.size, List.length_append, List.length_singleton]
  bound := by
    show (s.cmds ++ [c]).length ≤ cmdMaxQueued
    have hb := h.bound
    have hs := h.size
    rw [List.length_append, List.length_singleton]
    by_cases he : s.cmds = []
    · simp [he, cmdMaxQueued]
    · have hne : s.queueSz ≠ cmdMaxQueued := fun hq => hfree ⟨by simpa using he, hq⟩
      omega
  shape := by
    refine List.pairwise_append.mpr ⟨h.shape, List.pairwise_singleton _ _, ?_⟩
    intro d hd e he hb
    rw [List.mem_singleton.mp he]
    exact hpush ⟨d, hd, hb⟩
  order := by
    refine List.pairwise_append.mpr ⟨h.order, List.pairwise_singleton _ _, ?_⟩
    intro d hd e he
    rw [List.mem_singleton.mp he, htkn]
    exact h.fresh d hd
  fresh := by
    intro d hd
    show d.tkn < s.nextTkn + 1
    rcases List.mem_append.mp hd with hd | hd
    · have := h.fresh d hd
      omega
    · rw [List.mem_singleton.mp hd, htkn]
      omega
  ok := by
    intro d hd
    rcases List.mem_append.mp hd with hd | hd
    · exact h.ok d hd
    · rw [List.mem_singleton.mp hd]
      exact hc

theorem Listed.waitPush_of_lt {s : State} (h : Listed s) {c d : Cmd} (hc : c ∈ s.cmds)
    (hd : d ∈ s.cmds) (hlt : c.tkn < d.tkn) (hb : c.blocks = true) : d.waitPush = true := by
  obtain ⟨i, hi, rfl⟩ := List.mem_iff_getElem.mp hc
  obtain ⟨j, hj, rfl⟩ := List.mem_iff_getElem.mp hd
  rcases Nat.lt_trichotomy i j with hij | rfl | hij
  · exact List.pairwise_iff_getElem.mp h.shape i j hi hj hij hb
  · exact absurd hlt (Nat.lt_irrefl _)
  · have := List.pairwise_iff_getElem.mp h.order j i hj hi hij
    omega

theorem Listed.eq_of_tkn {s : State} (h : Listed s) {c d : Cmd} (hc : c ∈ s.cmds)
    (hd : d ∈ s.cmds) (ht : c.tkn = d.tkn) : c = d := by
  obtain ⟨i, hi, rfl⟩ := List.mem_iff_getElem.mp hc
  obtain ⟨j, hj, rfl⟩ := List.mem_iff_getElem.mp hd
  rcases Nat.lt_trichotomy i j with hij | rfl | hij
  · have := List.pairwise_iff_getElem.mp h.order i j hi hj hij
    omega
  · rfl
  · have := List.pairwise_iff_getElem.mp h.order j i hj hi hij
    omega

/-- Whoever waits for its push, all before it are done or wait for theirs. -/
theorem Listed.lt_of_unsent {s : State} (h : Listed s) {c d : Cmd} (hc : c ∈ s.cmds)
    (hd : d ∈ s.cmds) (hcp : c.waitPush = false) (hds : d.sent = false) (hne : d.tkn ≠ c.tkn) :
    c.tkn < d.tkn := by
  by_contra hlt
  have hcfm : d.waitCfm = true := by
    by_contra hw
    have := (h.ok d hd).confirmed (by simpa using hw)
    simp [hds] at this
  have hp := h.waitPush_of_lt hd hc (by omega) (by simp [Cmd.blocks, hcfm])
  simp [hcp] at hp

theorem Inv.addTail {s : State} (h : Inv s) {c : Cmd} {tails : List Tail}
    (hl : Listed (addTail s c tails)) (htkn : c.tkn = s.nextTkn) (hsent : c.sent = false) :
    Inv (addTail s c tails) where
  listed := hl
  atHead := by
    have hh := h.atHead
    unfold AtHead at hh ⊢
    show match s.worker with
      | .picked t => ∃ d l, s.cmds ++ [c] = d :: l ∧ d.tkn = t ∧ d.waitPush = true
      | .waiting t => ∃ d l, s.cmds ++ [c] = d :: l ∧ d.tkn = t ∧ d.owner = .worker ∧ d.sent = true
      | _ => True
    cases hw : s.worker with
    | idle => trivial
    | looking => trivial
    | picked t =>
      rw [hw] at hh
      obtain ⟨d, l, hcons, hd⟩ := hh
      exact ⟨d, l ++ [c], by rw [hcons, List.cons_append], hd⟩
    | waiting t =>
      rw [hw] at hh
      obtain ⟨d, l, hcons, hd⟩ := hh
      exact ⟨d, l ++ [c], by rw [hcons, List.cons_append], hd⟩
  onBus := by
    refine ⟨h.onBus.ascending, fun t ht => ?_, fun d hd hs => ?_, fun t ht => ?_⟩
    · obtain ⟨hlt, hb⟩ := h.onBus.before t ht
      refine ⟨Nat.lt_succ_of_lt hlt, fun d hd hs => ?_⟩
      rcases List.mem_append.mp hd with hd | hd
      · exact hb d hd hs
      · rw [List.mem_singleton.mp hd, htkn]
        exact hlt
    · rcases List.mem_append.mp hd with hd | hd
      · exact h.onBus.sent d hd hs
      · rw [List.mem_singleton.mp hd, hsent] at hs
        simp at hs
    · rcases Nat.lt_succ_iff_lt_or_eq.mp ht with hlt | rfl
      · rcases h.onBus.kept t hlt with hb | ⟨d, hd, hdt⟩
        · exact .inl hb
        · exact .inr ⟨d, List.mem_append_left _ hd, hdt⟩
      · exact .inr ⟨c, List.mem_append_right _ (by simp), htkn⟩

theorem inv_cmdMgrQueue {s : State} (h : Inv s) (id : MsgId) (reqid : ℕ) (e2aMsg : Bool) :
    Inv (cmdMgrQueue s id reqid e2aMsg) := by
  unfold cmdMgrQueue
  split_ifs with hcr he hfull
  · exact h
  · exact h
  · exact h
  · refine h.addTail (h.listed.addTail (fun hf => hfull ?_) ?_ rfl fun hb => ?_) rfl rfl
    · simp [hf.1, hf.2]
    · refine ⟨fun hp => ⟨rfl, if_pos hp⟩, fun hw => by simp at hw, rfl⟩
    · simp [h.listed.busy_iff.mpr hb]

theorem inv_cmdMgrQueueForceDefer {s : State} (h : Inv s) (reqid : ℕ) :
    Inv (cmdMgrQueueForceDefer s reqid) := by
  unfold cmdMgrQueueForceDefer
  split_ifs with hcr hfull
  · exact h
  · exact h
  · refine h.addTail (h.listed.addTail (fun hf => hfull ?_) ?_ rfl fun _ => rfl) rfl rfl
    · simp [hf.1, hf.2]
    · exact ⟨fun _ => ⟨rfl, rfl⟩, fun hw => by simp at hw, rfl⟩

theorem Inv.of_queue {s s' : State} (hl : Listed s) (hb : OnBus s) (hc : s'.cmds = s.cmds)
    (hq : s'.queueSz = s.queueSz) (hn : s'.nextTkn = s.nextTkn) (hbus : s'.bus = s.bus)
    (hh : AtHead s') : Inv s' := by
  obtain ⟨crashed, nextTkn, queueSz, cmds, tails, workPending, worker, bus⟩ := s'
  subst hc hq hn hbus
  exact ⟨⟨hl.size, hl.bound, hl.shape, hl.order, hl.fresh, hl.ok⟩, hh,
    ⟨hb.ascending, hb.before, hb.sent, hb.kept⟩⟩

/-- Steps that touch neither queue nor bus nor the place of the work item. -/
theorem Inv.of_eq {s s' : State} (h : Inv s) (hc : s'.cmds = s.cmds) (hq : s'.queueSz = s.queueSz)
    (hn : s'.nextTkn = s.nextTkn) (hb : s'.bus = s.bus)
    (hw : s'.worker = s.worker ∨ s'.worker = .idle ∨ s'.worker = .looking) : Inv s' := by
  refine .of_queue h.listed h.onBus hc hq hn hb ?_
  rcases hw with hw | hw | hw
  · have hh := h.atHead
    unfold AtHead at hh ⊢
    rw [hw, hc]
    exact hh
  · unfold AtHead
    rw [hw]
    trivial
  · unfold AtHead
    rw [hw]
    trivial

/-- A change of flags that leaves the owner and the push and takes no sending back. -/
structure Mild (g : Cmd → Cmd) : Prop where
  tkn : ∀ c, (g c).tkn = c.tkn
  owner : ∀ c, (g c).owner = c.owner
  push : ∀ c, (g c).waitPush = c.waitPush
  sent : ∀ c, c.sent = true → (g c).sent = true

theorem AtHead.update {s s' : State} (h : AtHead s) {t : ℕ} {g : Cmd → Cmd} (hg : Mild g)
    (hcmds : s'.cmds = update t g s.cmds) (hw : s'.worker = s.worker) : AtHead s' := by
  unfold AtHead at h ⊢
  rw [hw, hcmds]
  cases hworker : s.worker with
  | idle => trivial
  | looking => trivial
  | picked t' =>
    rw [hworker] at h
    obtain ⟨c, l, hcons, ht, hp⟩ := h
    refine ⟨if c.tkn = t then g c else c, CmdMgr.update t g l, by rw [hcons]; rfl, ?_, ?_⟩
    · split_ifs
      · rw [hg.tkn, ht]
      · exact ht
    · split_ifs
      · rw [hg.push, hp]
      · exact hp
  | waiting t' =>
    rw [hworker] at h
    obtain ⟨c, l, hcons, ht, ho, hs⟩ := h
    refine ⟨if c.tkn = t then g c else c, CmdMgr.update t g l, by rw [hcons]; rfl, ?_, ?_, ?_⟩
    · split_ifs
      · rw [hg.tkn, ht]
      · exact ht
    · split_ifs
      · rw [hg.owner, ho]
      · exact ho
    · split_ifs
      · exact hg.sent c hs
      · exact hs

/-- The flags of a command change, and the bus stays as it is. -/
theorem OnBus.update {s s' : State} (h : OnBus s) {t : ℕ} {g : Cmd → Cmd}
    (htkn : ∀ c, (g c).tkn = c.tkn) (hsent : ∀ c, (g c).sent = c.sent)
    (hcmds : s'.cmds = update t g s.cmds) (hn : s'.nextTkn = s.nextTkn) (hb : s'.bus = s.bus) :
    OnBus s' := by
  have hmem : ∀ c ∈ s'.cmds, ∃ d ∈ s.cmds, c.tkn = d.tkn ∧ c.sent = d.sent := by
    intro c hc
    rw [hcmds, mem_update] at hc
    obtain ⟨d, hd, rfl⟩ := hc
    refine ⟨d, hd, ?_⟩
    split_ifs
    · exact ⟨htkn d, hsent d⟩
    · exact ⟨rfl, rfl⟩
  refine ⟨hb ▸ h.ascending, fun u hu => ?_, fun c hc hs => ?_, fun u hu => ?_⟩
  · obtain ⟨hlt, hbefore⟩ := h.before u (hb ▸ hu)
    refine ⟨hn ▸ hlt, fun c hc hs => ?_⟩
    obtain ⟨d, hd, ht, he⟩ := hmem c hc
    rw [ht]
    exact hbefore d hd (he ▸ hs)
  · obtain ⟨d, hd, ht, he⟩ := hmem c hc
    rw [ht, hb]
    exact h.sent d hd (he ▸ hs)
  · rw [hb]
    rcases h.kept u (hn ▸ hu) with hbus | ⟨d, hd, hdt⟩
    · exact .inl hbus
    · refine .inr ⟨_, hcmds ▸ mem_update.mpr ⟨d, hd, rfl⟩, ?_⟩
      split_ifs
      · rw [htkn, hdt]
      · exact hdt

/-- A command that no other in the queue can overtake goes over the bus. -/
theorem OnBus.setCmdTx {s s' : State} (h : OnBus s) (hl : Listed s) {c : Cmd} (hc : c ∈ s.cmds)
    (hcs : c.sent = false)
    (hfirst : ∀ d ∈ s.cmds, d.sent = false → d.tkn ≠ c.tkn → c.tkn < d.tkn) {g : Cmd → Cmd}
    (htkn : ∀ d, (g d).tkn = d.tkn) (hsent : ∀ d, (g d).sent = true)
    (hcmds : s'.cmds = CmdMgr.update c.tkn g s.cmds) (hn : s'.nextTkn = s.nextTkn)
    (hb : s'.bus = s.bus ++ [c.tkn]) : OnBus s' := by
  refine ⟨?_, fun u hu => ?_, fun d hd hs => ?_, fun u hu => ?_⟩
  · rw [hb]
    refine List.pairwise_append.mpr ⟨h.ascending, List.pairwise_singleton _ _, fun u hu v hv => ?_⟩
    rw [List.mem_singleton.mp hv]
    exact (h.before u hu).2 c hc hcs
  · rw [hb] at hu
    have hu' : u < s.nextTkn ∧ ∀ d ∈ s.cmds, d.sent = false → d.tkn ≠ c.tkn → u < d.tkn := by
      rcases List.mem_append.mp hu with hu | hu
      · exact ⟨(h.before u hu).1, fun d hd hs _ => (h.before u hu).2 d hd hs⟩
      · rw [List.mem_singleton.mp hu]
        exact ⟨hl.fresh c hc, hfirst⟩
    refine ⟨hn ▸ hu'.1, fun d hd hs => ?_⟩
    rw [hcmds, mem_update] at hd
    obtain ⟨e, he, rfl⟩ := hd
    split_ifs at hs ⊢ with het
    · rw [hsent] at hs
      simp at hs
    · exact hu'.2 e he hs het
  · rw [hb]
    rw [hcmds, mem_update] at hd
    obtain ⟨e, he, rfl⟩ := hd
    split_ifs at hs ⊢ with het
    · rw [htkn, het]
      simp
    · exact List.mem_append_left _ (h.sent e he hs)
  · rw [hb]
    rcases h.kept u (hn ▸ hu) with hbus | ⟨d, hd, hdt⟩
    · exact .inl (List.mem_append_left _ hbus)
    · refine .inr ⟨_, hcmds ▸ mem_update.mpr ⟨d, hd, rfl⟩, ?_⟩
      split_ifs
      · rw [htkn, hdt]
      · exact hdt

theorem any_iff {l : List Cmd} {p : Cmd → Bool} : l.any p = true ↔ ∃ c ∈ l, p c = true :=
  List.any_eq_true

theorem inv_send {s : State} (h : Inv s) {t : ℕ} (ht : s.cmds.any (Sendable t) = true) :
    Inv (setCmdTx s t) := by
  obtain ⟨c, hc, hs⟩ := any_iff.mp ht
  simp only [Sendable, Bool.and_eq_true, decide_eq_true_eq, Bool.not_eq_true'] at hs
  obtain ⟨⟨rfl, ho⟩, hsent⟩ := hs
  have hpush : c.waitPush = false := by
    by_contra hp
    have := ((h.listed.ok c hc).unsent (by simpa using hp)).2
    rw [ho] at this
    cases this
  refine ⟨h.listed.update (g := Cmd.markSent) rfl rfl rfl (fun _ => rfl) (fun _ hb => hb)
      (fun _ hp => hp) ?_,
    h.atHead.update (g := Cmd.markSent) ⟨fun _ => rfl, fun _ => rfl, fun _ => rfl, fun _ _ => rfl⟩
      rfl rfl,
    h.onBus.setCmdTx (g := Cmd.markSent) h.listed hc hsent ?_ (fun _ => rfl) (fun _ => rfl) rfl rfl
      rfl⟩
  · intro d hd hdt
    rw [h.listed.eq_of_tkn hd hc hdt]
    exact ⟨fun hp => absurd (hpush.symm.trans hp) Bool.false_ne_true, fun _ => rfl,
      (h.listed.ok c hc).completed⟩
  · exact fun d hd hds hne => h.listed.lt_of_unsent hc hd hpush hds hne

theorem inv_timeOut {s : State} (h : Inv s) (t : ℕ) : Inv (timeOut s t) := by
  refine ⟨h.listed.update (g := Cmd.giveUp) rfl rfl rfl (fun _ => rfl) (fun _ hb => hb)
      (fun _ hp => hp) ?_,
    h.atHead.update (g := Cmd.giveUp) ⟨fun _ => rfl, fun _ => rfl, fun _ => rfl, fun _ hs => hs⟩
      rfl rfl,
    h.onBus.update (g := Cmd.giveUp) (fun _ => rfl) (fun _ => rfl) rfl rfl rfl⟩
  intro c hc _
  have := h.listed.ok c hc
  exact ⟨this.unsent, this.confirmed, this.completed⟩

/-- The command that takes a message is the one that was sent. -/
theorem Listed.find_sent {s : State} (h : Listed s) {reqid : ℕ} {c : Cmd}
    (hfind : s.cmds.find? (takes reqid) = some c)
    (hd : ∃ d ∈ s.cmds, takes reqid d = true ∧ d.sent = true) : c.sent = true := by
  obtain ⟨d, hdm, hdt, hds⟩ := hd
  obtain ⟨hct, as, bs, hl, has⟩ := List.find?_eq_some_iff_append.mp hfind
  rw [hl] at hdm
  rcases List.mem_append.mp hdm with hda | hdb
  · have := has d hda
    simp [hdt] at this
  rcases List.mem_cons.mp hdb with rfl | hdb
  · exact hds
  -- A later command would still wait for its push.
  have hshape := h.shape
  rw [hl] at hshape
  have hcb : c.blocks = true := by
    simp only [takes, Bool.and_eq_true] at hct
    simp [Cmd.blocks, hct.2]
  have hpush := (List.pairwise_cons.mp (List.pairwise_append.mp hshape).2.1).1 d hdb hcb
  have := ((h.ok d (by simp [hl, hdb])).unsent hpush).1
  simp [hds] at this

theorem inv_cmdMgrMsgind {s : State} (h : Inv s) {reqid : ℕ} {refused : Bool}
    (hh : Honest s (.msgind reqid refused)) : Inv (cmdMgrMsgind s reqid refused) := by
  unfold cmdMgrMsgind
  split_ifs
  · exact h
  cases hf : s.cmds.find? (takes reqid) with
  | none => exact h
  | some c =>
    have hc := List.mem_of_find?_eq_some hf
    have hsent := h.listed.find_sent hf (hh ⟨c, hc, List.find?_some hf⟩)
    refine ⟨h.listed.update (g := Cmd.confirm) rfl rfl rfl (fun _ => rfl) (fun d hb => ?_)
        (fun _ hp => hp) ?_,
      h.atHead.update (g := Cmd.confirm) ⟨fun _ => rfl, fun _ => rfl, fun _ => rfl, fun _ hs => hs⟩
        rfl rfl,
      h.onBus.update (g := Cmd.confirm) (fun _ => rfl) (fun _ => rfl) rfl rfl rfl⟩
    · simp only [Cmd.blocks, Cmd.confirm, Bool.or_false] at hb
      simp [Cmd.blocks, hb]
    · intro d hd hdt
      rw [h.listed.eq_of_tkn hd hc hdt]
      exact ⟨(h.listed.ok c hc).unsent, fun _ => hsent, rfl⟩

/-- A command that has been sent and confirmed leaves the queue. -/
theorem OnBus.remove {s : State} (h : OnBus s) {c : Cmd} (hc : c ∈ s.cmds)
    (hs : c.sent = true) : OnBus (remove s c.tkn) := by
  have hsub : ∀ d ∈ (CmdMgr.remove s c.tkn).cmds, d ∈ s.cmds := fun d hd =>
    (List.mem_filter.mp hd).1
  refine ⟨h.ascending, fun t ht => ?_, fun d hd => h.sent d (hsub d hd), fun t ht => ?_⟩
  · obtain ⟨hlt, hb⟩ := h.before t ht
    exact ⟨hlt, fun d hd => hb d (hsub d hd)⟩
  · rcases h.kept t ht with hb | ⟨d, hd, rfl⟩
    · exact .inl hb
    · by_cases hdc : d.tkn = c.tkn
      · left
        rw [hdc]
        exact h.sent c hc hs
      · exact .inr ⟨d, List.mem_filter.mpr ⟨hd, by simpa using hdc⟩, rfl⟩

theorem inv_finish {s : State} (h : Inv s) {t : ℕ}
    (ht : (s.cmds.any fun c => Awaited t c && c.completed) = true) (tails : List Tail) :
    Inv { remove s t with tails := tails } := by
  obtain ⟨c, hc, hs⟩ := any_iff.mp ht
  simp only [Awaited, Bool.and_eq_true, decide_eq_true_eq] at hs
  obtain ⟨⟨⟨⟨rfl, ho⟩, hsent⟩, -⟩, -⟩ := hs
  refine .of_queue (h.listed.remove ⟨c, hc, rfl⟩) (h.onBus.remove hc hsent) rfl rfl rfl rfl ?_
  -- The head is in the hands of the work item, so it is another command.
  have hh := h.atHead
  have hkeep : ∀ d l, s.cmds = d :: l → d.owner = .worker →
      (s.cmds.filter fun e => e.tkn ≠ c.tkn) = d :: l.filter fun e => e.tkn ≠ c.tkn := by
    intro d l hcons hd
    rw [hcons]
    refine List.filter_cons_of_pos (decide_eq_true fun he => ?_)
    have hdc := h.listed.eq_of_tkn (by simp [hcons]) hc he
    rw [hdc, ho] at hd
    cases hd
  unfold AtHead at hh ⊢
  show match s.worker with
    | .picked t => ∃ d l, (s.cmds.filter fun e => e.tkn ≠ c.tkn) = d :: l ∧ d.tkn = t ∧
        d.waitPush = true
    | .waiting t => ∃ d l, (s.cmds.filter fun e => e.tkn ≠ c.tkn) = d :: l ∧ d.tkn = t ∧
        d.owner = .worker ∧ d.sent = true
    | _ => True
  cases hw : s.worker with
  | idle => trivial
  | looking => trivial
  | picked t =>
    rw [hw] at hh
    obtain ⟨d, l, hcons, hd, hp⟩ := hh
    exact ⟨d, _, hkeep d l hcons ((h.listed.ok d (by simp [hcons])).unsent hp).2, hd, hp⟩
  | waiting t =>
    rw [hw] at hh
    obtain ⟨d, l, hcons, hd, hown, hs⟩ := hh
    exact ⟨d, _, hkeep d l hcons hown, hd, hown, hs⟩

theorem inv_push {s : State} (h : Inv s) {t : ℕ} (hw : s.worker = .picked t) :
    Inv { setCmdTx (clearPush s t) t with worker := .waiting t } := by
  have hh := h.atHead
  unfold AtHead at hh
  rw [hw] at hh
  obtain ⟨c, l, hcons, rfl, hp⟩ := hh
  have hc : c ∈ s.cmds := by simp [hcons]
  obtain ⟨hsent, hown⟩ := (h.listed.ok c hc).unsent hp
  have hord := h.listed.order
  rw [hcons] at hord
  obtain ⟨hlt, -⟩ := List.pairwise_cons.mp hord
  have hcmds : (setCmdTx (clearPush s c.tkn) c.tkn).cmds = c.clearPush.markSent :: l := by
    show update c.tkn Cmd.markSent (update c.tkn Cmd.clearPush s.cmds) = _
    rw [hcons, update_head hord]
    exact update_head (c := c.clearPush) (List.pairwise_cons.mpr (List.pairwise_cons.mp hord)) _
  have hupd : (setCmdTx (clearPush s c.tkn) c.tkn).cmds =
      update c.tkn (fun d => d.clearPush.markSent) s.cmds := by
    rw [hcmds, hcons, update_head hord]
  have hshape := h.listed.shape
  rw [hcons] at hshape
  obtain ⟨hpush, hshape⟩ := List.pairwise_cons.mp hshape
  have hl := h.listed
  refine ⟨⟨?_, ?_, ?_, ?_, ?_, ?_⟩, ⟨c.clearPush.markSent, l, hcmds, rfl, hown, rfl⟩, ?_⟩
  · show s.queueSz = (setCmdTx (clearPush s c.tkn) c.tkn).cmds.length
    rw [hupd, update, List.length_map, hl.size]
  · show (setCmdTx (clearPush s c.tkn) c.tkn).cmds.length ≤ cmdMaxQueued
    rw [hupd, update, List.length_map]
    exact hl.bound
  · show List.Pairwise _ (setCmdTx (clearPush s c.tkn) c.tkn).cmds
    rw [hcmds]
    exact List.pairwise_cons.mpr ⟨fun d hd _ => hpush d hd (by simp [Cmd.blocks, hp]), hshape⟩
  · show List.Pairwise _ (setCmdTx (clearPush s c.tkn) c.tkn).cmds
    rw [hcmds]
    exact List.pairwise_cons.mpr (List.pairwise_cons.mp hord)
  · intro d hd
    have hd : d ∈ (setCmdTx (clearPush s c.tkn) c.tkn).cmds := hd
    rw [hcmds] at hd
    rcases List.mem_cons.mp hd with rfl | hd
    · exact hl.fresh c hc
    · exact hl.fresh d (by simp [hcons, hd])
  · intro d hd
    have hd : d ∈ (setCmdTx (clearPush s c.tkn) c.tkn).cmds := hd
    rw [hcmds] at hd
    rcases List.mem_cons.mp hd with rfl | hd
    · exact ⟨fun hf => absurd hf Bool.false_ne_true, fun _ => rfl, (hl.ok c hc).completed⟩
    · exact hl.ok d (by simp [hcons, hd])
  · refine h.onBus.setCmdTx (g := fun d => d.clearPush.markSent) hl hc hsent (fun d hd _ hne => ?_)
      (fun _ => rfl) (fun _ => rfl) hupd rfl rfl
    rw [hcons] at hd
    rcases List.mem_cons.mp hd with rfl | hd
    · exact absurd rfl hne
    · exact hlt d hd

theorem inv_taskProcess {s : State} (h : Inv s) : Inv (taskProcess s) := by
  unfold taskProcess
  cases hw : s.worker with
  | idle =>
    dsimp only
    split_ifs
    · exact h.of_eq rfl rfl rfl rfl (.inr (.inr rfl))
    · exact h
  | looking =>
    dsimp only
    cases hc : s.cmds with
    | nil => exact h.of_eq hc.symm rfl rfl rfl (.inr (.inl rfl))
    | cons c l =>
      dsimp only
      split_ifs with hp
      · exact .of_queue h.listed h.onBus hc.symm rfl rfl rfl ⟨c, l, rfl, rfl, hp⟩
      · exact h.of_eq hc.symm rfl rfl rfl (.inr (.inl rfl))
  | picked t => exact inv_push h hw
  | waiting t =>
    dsimp only
    split_ifs with ht
    · have hh := h.atHead
      unfold AtHead at hh
      rw [hw] at hh
      obtain ⟨c, l, hcons, rfl, -, hs⟩ := hh
      have hc : c ∈ s.cmds := by simp [hcons]
      exact .of_queue (h.listed.remove ⟨c, hc, rfl⟩) (h.onBus.remove hc hs) rfl rfl rfl rfl trivial
    · exact h

theorem inv_step {s : State} (h : Inv s) {e : Event} (he : Honest s e) : Inv (step s e) := by
  cases e with
  | queue id reqid e2aMsg => exact inv_cmdMgrQueue h id reqid e2aMsg
  | forceDefer reqid => exact inv_cmdMgrQueueForceDefer h reqid
  | tail t =>
    simp only [step]
    split_ifs
    · have h1 : Inv { s with tails := s.tails.erase t } := h.of_eq rfl rfl rfl rfl (.inl rfl)
      have h2 : Inv (wakeCmdWork { s with tails := s.tails.erase t }) :=
        h1.of_eq rfl rfl rfl rfl (.inl rfl)
      cases t with
      | testSize => simp only [runTail]; split_ifs <;> assumption
      | testEmpty => simp only [runTail]; split_ifs <;> assumption
      | wake => exact h2
    · exact h
  | send t =>
    simp only [step]
    split_ifs with ht
    · exact inv_send h ht
    · exact h
  | msgind reqid refused => exact inv_cmdMgrMsgind h he
  | finish t =>
    simp only [step]
    split_ifs with ht
    · exact inv_finish h ht _
    · exact h
  | timeOut t =>
    simp only [step]
    split_ifs
    · exact inv_timeOut h t
    · exact h
  | work => exact inv_taskProcess h
  | workTimeOut =>
    simp only [step]
    cases s.worker with
    | waiting t => exact (inv_timeOut h t).of_eq rfl rfl rfl rfl (.inr (.inr rfl))
    | idle => exact h
    | looking => exact h
    | picked t => exact h

theorem inv_init : Inv .init :=
  ⟨⟨rfl, Nat.zero_le _, .nil, .nil, by simp [State.init], by simp [State.init]⟩, trivial,
    ⟨.nil, by simp [State.init], by simp [State.init], by simp [State.init]⟩⟩

/-- With the firmware, and not confirmed. -/
def Cmd.inFlight (c : Cmd) : Bool := c.sent && c.waitCfm

theorem Listed.inFlight_le_one {s : State} (h : Listed s) :
    (s.cmds.filter Cmd.inFlight).length ≤ 1 := by
  have hsub : (s.cmds.filter Cmd.inFlight).Sublist s.cmds := List.filter_sublist
  have hshape := h.shape.sublist hsub
  have hall : ∀ c ∈ s.cmds.filter Cmd.inFlight, c.Ok ∧ c.sent = true ∧ c.waitCfm = true := by
    intro c hc
    obtain ⟨hc, hf⟩ := List.mem_filter.mp hc
    exact ⟨h.ok c hc, by simpa [Cmd.inFlight] using hf⟩
  cases hl : s.cmds.filter Cmd.inFlight with
  | nil => simp
  | cons c l =>
    cases l with
    | nil => simp
    | cons d l =>
      rw [hl] at hshape hall
      obtain ⟨-, -, hcfm⟩ := hall c (by simp)
      obtain ⟨hok, hsent, -⟩ := hall d (by simp)
      have hp := (List.pairwise_cons.mp hshape).1 d (by simp) (by simp [Cmd.blocks, hcfm])
      have := (hok.unsent hp).1
      simp [hsent] at this

def run (es : List Event) : State := es.foldl step .init

theorem inv_run {es : List Event} (hes : Guarded step Honest .init es) : Inv (run es) :=
  hes.invariant (fun _ _ _ hs he => inv_step hs he) inv_init

/-- Stop and wait: commands go over the bus in the order they were queued, each once, one at a time,
and none that was queued is forgotten. -/
theorem run_in_order (es : List Event) (hes : Guarded step Honest .init es) :
    (run es).queueSz = (run es).cmds.length ∧ (run es).cmds.length ≤ cmdMaxQueued ∧
      (run es).bus.Pairwise (· < ·) ∧ ((run es).cmds.filter Cmd.inFlight).length ≤ 1 ∧
      ∀ t < (run es).nextTkn, t ∈ (run es).bus ∨ ∃ c ∈ (run es).cmds, c.tkn = t := by
  have h := inv_run hes
  exact ⟨h.listed.size, h.listed.bound, h.onBus.ascending, h.listed.inFlight_le_one, h.onBus.kept⟩

/-- Two callers, the second one deferred until the first one's confirmation. -/
theorem run_in_order_two :
    let es : List Event := [.queue (.other 1) 7 false, .send 0, .queue (.other 2) 7 false,
      .tail .testSize, .msgind 7 false, .finish 0, .tail .testEmpty, .work, .work, .work]
    (run es).bus = [0, 1] ∧ (run es).cmds.length = 1 ∧
      ((run es).cmds.filter Cmd.inFlight).length ≤ 1 := by
  intro es
  have hes : Guarded step Honest .init es := by
    refine ⟨trivial, trivial, trivial, trivial, fun _ => ?_, trivial, trivial, trivial, trivial,
      trivial, trivial⟩
    exact ⟨⟨0, 7, false, true, false, true, false, .caller⟩, List.Mem.head _, rfl, rfl⟩
  exact ⟨rfl, rfl, (run_in_order es hes).2.2.2.1⟩

/-- The first command waits for its push, and nobody is left to wake the work item for it. -/
structure Stuck (s : State) : Prop where
  waiting : ∃ c l, s.cmds = c :: l ∧ c.waitPush = true
  pending : s.workPending = false
  idle : s.worker = .idle
  noTest : Tail.testEmpty ∉ s.tails
  noWake : Tail.wake ∉ s.tails
  size : Tail.testSize ∈ s.tails → 1 < s.queueSz

/-- No command is queued between a caller's own and its look at the size of the queue. -/
def Prompt (s : State) : Event → Prop
  | .queue .. | .forceDefer _ => Tail.testSize ∉ s.tails
  | _ => True

theorem Stuck.of_update {s s' : State} (h : Stuck s') {t : ℕ} {g : Cmd → Cmd}
    (hg : ∀ c, (g c).waitPush = c.waitPush) (hcmds : s'.cmds = update t g s.cmds)
    (hp : s'.workPending = s.workPending) (hw : s'.worker = s.worker) (ht : s'.tails = s.tails)
    (hq : s'.queueSz = s.queueSz) : Stuck s := by
  obtain ⟨c, l, hcons, hpush⟩ := h.waiting
  refine ⟨?_, hp ▸ h.pending, hw ▸ h.idle, ht ▸ h.noTest, ht ▸ h.noWake, ht ▸ hq ▸ h.size⟩
  rw [hcmds] at hcons
  cases hs : s.cmds with
  | nil => simp [hs, update] at hcons
  | cons d k =>
    rw [hs] at hcons
    obtain ⟨hd, -⟩ := List.cons.inj hcons
    refine ⟨d, k, rfl, ?_⟩
    rw [← hd] at hpush
    dsimp only at hpush
    split_ifs at hpush
    · rw [← hg, hpush]
    · exact hpush

theorem not_stuck_addTail {s : State} (h : Inv s) (hs : ¬Stuck s) {c : Cmd}
    (hprompt : Tail.testSize ∉ s.tails) :
    ¬Stuck (addTail s c (if c.waitPush then [.testSize] else [])) := by
  intro hst
  obtain ⟨d, l, hcons, hpush⟩ := hst.waiting
  have hcons : s.cmds ++ [c] = d :: l := hcons
  have hsize : Tail.testSize ∈ s.tails ++ (if c.waitPush then [.testSize] else []) →
      1 < s.queueSz + 1 := hst.size
  cases hc : s.cmds with
  | nil =>
    -- The caller that finds the queue empty will find its size to be one.
    rw [hc, List.nil_append] at hcons
    obtain ⟨rfl, -⟩ := List.cons.inj hcons
    have hq := h.listed.size
    rw [hc, List.length_nil] at hq
    rw [hpush] at hsize
    have := hsize (by simp)
    omega
  | cons e k =>
    rw [hc, List.cons_append] at hcons
    obtain ⟨rfl, -⟩ := List.cons.inj hcons
    exact hs ⟨⟨e, k, hc, hpush⟩, hst.pending, hst.idle,
      fun ht => hst.noTest (List.mem_append_left _ ht),
      fun ht => hst.noWake (List.mem_append_left _ ht), fun ht => absurd ht hprompt⟩

theorem not_stuck_tail {s : State} (hs : ¬Stuck s) {t : Tail} (ht : t ∈ s.tails) :
    ¬Stuck (runTail { s with tails := s.tails.erase t } t) := by
  have hmem : ∀ u, u ≠ t → u ∈ s.tails → u ∈ s.tails.erase t := fun u hu hut =>
    (List.mem_erase_of_ne hu).mpr hut
  intro hst
  cases t with
  | testSize =>
    simp only [runTail] at hst
    split_ifs at hst with hle
    · exact absurd hst.pending (by simp [wakeCmdWork])
    · exact hs ⟨hst.waiting, hst.pending, hst.idle, fun h => hst.noTest (hmem _ (by simp) h),
        fun h => hst.noWake (hmem _ (by simp) h), fun _ => by omega⟩
  | testEmpty =>
    simp only [runTail] at hst
    split_ifs at hst with he
    · obtain ⟨c, l, hcons, -⟩ := hst.waiting
      have hcons : s.cmds = c :: l := hcons
      simp [hcons] at he
    · exact absurd hst.pending (by simp [wakeCmdWork])
  | wake => exact absurd hst.pending (by simp [runTail, wakeCmdWork])

theorem not_stuck_work {s : State} (hs : ¬Stuck s) : ¬Stuck (taskProcess s) := by
  intro hst
  unfold taskProcess at hst
  cases hw : s.worker with
  | idle =>
    simp only [hw] at hst
    split_ifs at hst
    · exact absurd hst.idle (by simp)
    · exact hs hst
  | looking =>
    simp only [hw] at hst
    cases hc : s.cmds with
    | nil =>
      obtain ⟨c, l, hcons, -⟩ := hst.waiting
      simp [hc] at hcons
    | cons c l =>
      simp only [hc] at hst
      split_ifs at hst with hp
      · exact absurd hst.idle (by simp)
      · obtain ⟨d, k, hcons, hdp⟩ := hst.waiting
        obtain ⟨rfl, -⟩ := List.cons.inj hcons
        exact hp hdp
  | picked t =>
    simp only [hw] at hst
    exact absurd hst.idle (by simp)
  | waiting t =>
    simp only [hw] at hst
    split_ifs at hst
    · exact absurd hst.idle (by simp)
    · exact hs hst

/-- Only a caller that comes between another one and its look at the size can leave the queue
without a waker. -/
theorem not_stuck_step {s : State} (h : Inv s) (hs : ¬Stuck s) {e : Event} (he : Prompt s e) :
    ¬Stuck (step s e) := by
  cases e with
  | queue id reqid e2aMsg =>
    rw [step, cmdMgrQueue]
    split
    · exact hs
    split
    · exact hs
    split
    · exact hs
    · exact not_stuck_addTail h hs he
  | forceDefer reqid =>
    simp only [step, cmdMgrQueueForceDefer]
    split_ifs
    · exact hs
    · exact hs
    · exact fun hst => hst.noWake (List.mem_append_right _ (by simp))
  | tail t =>
    simp only [step]
    split_ifs with ht
    · exact not_stuck_tail hs ht
    · exact hs
  | send t =>
    simp only [step]
    split_ifs
    · exact fun hst => hs (hst.of_update (g := Cmd.markSent) (fun _ => rfl) rfl rfl rfl rfl rfl)
    · exact hs
  | msgind reqid refused =>
    simp only [step, cmdMgrMsgind]
    split_ifs
    · exact hs
    · cases s.cmds.find? (takes reqid) with
      | none => exact hs
      | some c =>
        exact fun hst => hs (hst.of_update (g := Cmd.confirm) (fun _ => rfl) rfl rfl rfl rfl rfl)
  | finish t =>
    simp only [step]
    split_ifs
    · exact fun hst => hst.noTest (List.mem_append_right _ (by simp))
    · exact hs
  | timeOut t =>
    simp only [step]
    split_ifs
    · exact fun hst => hs (hst.of_update (g := Cmd.giveUp) (fun _ => rfl) rfl rfl rfl rfl rfl)
    · exact hs
  | work => exact not_stuck_work hs
  | workTimeOut =>
    simp only [step]
    cases s.worker with
    | waiting t => exact fun hst => absurd hst.idle (by simp)
    | idle => exact hs
    | looking => exact hs
    | picked t => exact hs

/-- While callers look at the size of the queue before the next command comes, whatever command is
first has somebody on the way to push it. -/
theorem run_not_stuck (es : List Event)
    (hes : Guarded step (fun s e => Honest s e ∧ Prompt s e) .init es) : ¬Stuck (run es) := by
  have h : Inv (run es) ∧ ¬Stuck (run es) :=
    hes.invariant (I := fun s => Inv s ∧ ¬Stuck s)
      (fun s e _ hs he => ⟨inv_step hs.1 he.1, not_stuck_step hs.1 hs.2 he.2⟩)
      ⟨inv_init, fun hst => by
        obtain ⟨c, l, hc, -⟩ := hst.waiting
        simp [State.init] at hc⟩
  exact h.2

/-- Two callers, each of whose requests is left to the work item; the second comes at once. -/
theorem run_not_stuck_two :
    let es : List Event := [.queue .meTrafficIndReq 7 false, .tail .testSize,
      .queue .mmSetArpoffloadReq 8 false, .tail .testSize]
    (run es).workPending = true ∧ ¬Stuck (run es) := by
  intro es
  exact ⟨rfl, run_not_stuck es
    ⟨⟨trivial, by simp [Prompt, State.init]⟩, ⟨trivial, trivial⟩,
      ⟨trivial, show Tail.testSize ∉ [] from List.not_mem_nil⟩, ⟨trivial, trivial⟩, trivial⟩⟩

/-- All commands wait for the work item, and nobody is left to wake it. -/
structure Asleep (s : State) : Prop where
  nonempty : s.cmds ≠ []
  all : ∀ c ∈ s.cmds, c.waitPush = true ∧ c.owner = .worker
  pending : s.workPending = false
  idle : s.worker = .idle
  tails : ∀ t ∈ s.tails, t = .testSize ∧ 1 < s.queueSz
  size : 0 < s.queueSz

theorem Stuck.asleep {s : State} (h : Inv s) (hs : Stuck s) : Asleep s := by
  obtain ⟨c, l, hcons, hpush⟩ := hs.waiting
  have hshape := h.listed.shape
  rw [hcons] at hshape
  refine ⟨by simp [hcons], fun d hd => ?_, hs.pending, hs.idle, fun t ht => ?_, ?_⟩
  · have hdp : d.waitPush = true := by
      rw [hcons] at hd
      rcases List.mem_cons.mp hd with rfl | hd
      · exact hpush
      · exact (List.pairwise_cons.mp hshape).1 d hd (by simp [Cmd.blocks, hpush])
    exact ⟨hdp, ((h.listed.ok d hd).unsent hdp).2⟩
  · cases t with
    | testSize => exact ⟨rfl, hs.size ht⟩
    | testEmpty => exact absurd ht hs.noTest
    | wake => exact absurd ht hs.noWake
  · rw [h.listed.size, hcons, List.length_cons]
    omega

theorem Asleep.stuck {s : State} (h : Asleep s) : Stuck s := by
  obtain ⟨c, l, hcons⟩ := List.exists_cons_of_ne_nil h.nonempty
  refine ⟨⟨c, l, hcons, (h.all c (by simp [hcons])).1⟩, h.pending, h.idle, fun ht => ?_,
    fun ht => ?_, fun ht => (h.tails _ ht).2⟩
  · exact absurd (h.tails _ ht).1 (by simp)
  · exact absurd (h.tails _ ht).1 (by simp)

theorem Asleep.busy {s : State} (h : Asleep s) : busy s.cmds = true := by
  unfold CmdMgr.busy
  rw [List.getLast?_eq_getLast_of_ne_nil h.nonempty]
  simp [(h.all _ (List.getLast_mem h.nonempty)).1]

theorem Asleep.no_caller {s : State} (h : Asleep s) {p : Cmd → Bool}
    (hp : ∀ c, p c = true → c.owner = .caller) : ¬s.cmds.any p = true := by
  intro ha
  obtain ⟨c, hc, hpc⟩ := any_iff.mp ha
  have ho := hp c hpc
  rw [(h.all c hc).2] at ho
  cases ho

theorem Asleep.step {s : State} (h : Asleep s) {e : Event} (he : ∀ reqid, e ≠ .forceDefer reqid) :
    Asleep (step s e) ∧ (step s e).bus = s.bus := by
  cases e with
  | queue id reqid e2aMsg =>
    rw [CmdMgr.step, cmdMgrQueue]
    split
    · exact ⟨h, rfl⟩
    split
    · exact ⟨h, rfl⟩
    split
    · exact ⟨h, rfl⟩
    simp only [h.busy, Bool.true_or, if_true]
    have hsize := h.size
    refine ⟨⟨by simp [addTail], fun c hc => ?_, h.pending, h.idle, fun t ht => ?_, ?_⟩, rfl⟩
    · rcases List.mem_append.mp hc with hc | hc
      · exact h.all c hc
      · rw [List.mem_singleton.mp hc]
        exact ⟨rfl, rfl⟩
    · show t = .testSize ∧ 1 < s.queueSz + 1
      rcases List.mem_append.mp ht with ht | ht
      · exact ⟨(h.tails t ht).1, by omega⟩
      · exact ⟨List.mem_singleton.mp ht, by omega⟩
    · exact Nat.succ_pos _
  | forceDefer reqid => exact absurd rfl (he reqid)
  | tail t =>
    simp only [CmdMgr.step]
    split_ifs with ht
    · obtain ⟨rfl, hsize⟩ := h.tails t ht
      have hle : ¬s.queueSz ≤ 1 := by omega
      simp only [runTail, if_neg hle]
      exact ⟨⟨h.nonempty, h.all, h.pending, h.idle,
        fun u hu => h.tails u (List.mem_of_mem_erase hu), h.size⟩, trivial⟩
    · exact ⟨h, rfl⟩
  | send t =>
    simp only [CmdMgr.step]
    rw [if_neg (h.no_caller fun c hc => by
      simp only [Sendable, Bool.and_eq_true, decide_eq_true_eq] at hc
      exact hc.1.2)]
    exact ⟨h, rfl⟩
  | msgind reqid refused =>
    simp only [CmdMgr.step, cmdMgrMsgind]
    split_ifs
    · exact ⟨h, rfl⟩
    · cases s.cmds.find? (takes reqid) with
      | none => exact ⟨h, rfl⟩
      | some c =>
        refine ⟨⟨by simpa [update] using h.nonempty, fun d hd => ?_, h.pending, h.idle, h.tails,
          h.size⟩, rfl⟩
        obtain ⟨e, he, rfl⟩ := mem_update.mp hd
        split_ifs <;> exact h.all e he
  | finish t =>
    simp only [CmdMgr.step]
    rw [if_neg (h.no_caller fun c hc => by
      simp only [Awaited, Bool.and_eq_true, decide_eq_true_eq] at hc
      exact hc.1.1.1.2)]
    exact ⟨h, rfl⟩
  | timeOut t =>
    simp only [CmdMgr.step]
    rw [if_neg (h.no_caller fun c hc => by
      simp only [Awaited, Bool.and_eq_true, decide_eq_true_eq] at hc
      exact hc.1.1.2)]
    exact ⟨h, rfl⟩
  | work =>
    have hw : taskProcess s = s := by
      simp [taskProcess, h.idle, h.pending]
    rw [CmdMgr.step, hw]
    exact ⟨h, rfl⟩
  | workTimeOut =>
    simp only [CmdMgr.step, h.idle]
    exact ⟨h, trivial⟩

/-- A queue left without a waker stays so: whatever callers, firmware and timers do, no command goes
over the bus again until an interface is removed. -/
theorem stuck_forever (es es' : List Event) (hes : Guarded step Honest .init es)
    (hs : Stuck (run es)) (hforce : ∀ reqid, Event.forceDefer reqid ∉ es') :
    (run (es ++ es')).bus = (run es).bus ∧ Stuck (run (es ++ es')) := by
  have h := hs.asleep (inv_run hes)
  have hrun : run (es ++ es') = es'.foldl step (run es) := List.foldl_append
  rw [hrun]
  generalize run es = s at h
  suffices hgoal : Asleep (es'.foldl step s) ∧ (es'.foldl step s).bus = s.bus from
    ⟨hgoal.2, hgoal.1.stuck⟩
  clear hs hrun hes
  induction es' generalizing s with
  | nil => exact ⟨h, rfl⟩
  | cons e es' ih =>
    obtain ⟨h1, h2⟩ := h.step (e := e) fun r he => hforce r (by simp [he])
    obtain ⟨h3, h4⟩ := ih (fun r hr => hforce r (by simp [hr])) (step s e) h1
    exact ⟨h3, h4.trans h2⟩

/-- The second caller comes between the first one's command and its look at the size. -/
theorem stuck_forever_race :
    let es : List Event := [.queue .meTrafficIndReq 7 false, .queue (.other 1) 8 false,
      .tail .testSize, .tail .testSize]
    let es' : List Event := [.queue (.other 2) 9 false, .tail .testSize, .work, .work]
    (run (es ++ es')).bus = [] ∧ Stuck (run (es ++ es')) := by
  intro es es'
  have ht : (run es).tails = [] := rfl
  have hs : Stuck (run es) :=
    ⟨⟨_, _, rfl, rfl⟩, rfl, rfl, by simp [ht], by simp [ht], by simp [ht]⟩
  exact stuck_forever es es' ⟨trivial, trivial, trivial, trivial, trivial⟩ hs (by simp [es'])

/-- A command whose wait has run out stays in the queue for good. -/
def Dead (s : State) : Prop :=
  ∃ c ∈ s.cmds, c.timedOut = true ∧ c.sent = true ∧
    (c.owner = .worker → ∀ t, s.worker = .waiting t → t ≠ c.tkn)

def HasUnsent (s : State) : Prop :=
  ∃ c ∈ s.cmds, c.owner = .caller ∧ c.sent = false

theorem Listed.unsent_unique {s : State} (h : Listed s) {c d : Cmd} (hc : c ∈ s.cmds)
    (hd : d ∈ s.cmds) (hco : c.owner = .caller) (hdo : d.owner = .caller) (hcs : c.sent = false)
    (hds : d.sent = false) : c = d := by
  have hpush : ∀ e ∈ s.cmds, e.owner = .caller → e.waitPush = false := fun e he ho => by
    by_contra hp
    have := ((h.ok e he).unsent (by simpa using hp)).2
    rw [ho] at this
    cases this
  by_contra hne
  have h1 : d.tkn ≠ c.tkn := fun he => hne (h.eq_of_tkn hd hc he).symm
  have h2 := h.lt_of_unsent hc hd (hpush c hc hco) hds h1
  have h3 := h.lt_of_unsent hd hc (hpush d hd hdo) hcs h1.symm
  omega

theorem Listed.not_push_of_sent {s : State} (h : Listed s) {c : Cmd} (hc : c ∈ s.cmds)
    (hs : c.sent = true) : c.waitPush = false := by
  by_contra hp
  have := ((h.ok c hc).unsent (by simpa using hp)).1
  simp [hs] at this

/-- While a sent command is in the queue, the first one does not wait for its push. -/
theorem Listed.head_of_sent {s : State} (h : Listed s) {c d : Cmd} {l : List Cmd}
    (hcons : s.cmds = d :: l) (hc : c ∈ s.cmds) (hs : c.sent = true) : d.waitPush = false := by
  by_contra hp
  have hp : d.waitPush = true := by simpa using hp
  have hcp := h.not_push_of_sent hc hs
  have hshape := h.shape
  rw [hcons] at hc hshape
  rcases List.mem_cons.mp hc with rfl | hc
  · simp [hcp] at hp
  · have := (List.pairwise_cons.mp hshape).1 c hc (by simp [Cmd.blocks, hp])
    simp [hcp] at this

theorem Dead.update {s s' : State} (h : Dead s) {t : ℕ} {g : Cmd → Cmd}
    (htkn : ∀ c, (g c).tkn = c.tkn) (howner : ∀ c, (g c).owner = c.owner)
    (hout : ∀ c, c.timedOut = true → (g c).timedOut = true)
    (hsent : ∀ c, c.sent = true → (g c).sent = true) (hcmds : s'.cmds = update t g s.cmds)
    (hw : s'.worker = s.worker ∨ s'.worker = .looking) : Dead s' := by
  obtain ⟨c, hc, ho, hs, hwait⟩ := h
  have hw' : ∀ u, s'.worker = .waiting u → s.worker = .waiting u := fun u hu => by
    rcases hw with hw | hw
    · rw [← hw, hu]
    · rw [hw] at hu
      cases hu
  refine ⟨_, hcmds ▸ mem_update.mpr ⟨c, hc, rfl⟩, ?_⟩
  split_ifs
  · exact ⟨hout c ho, hsent c hs, fun hown u hu =>
      htkn c ▸ hwait (howner c ▸ hown) u (hw' u hu)⟩
  · exact ⟨ho, hs, fun hown u hu => hwait hown u (hw' u hu)⟩

theorem HasUnsent.of_update {s s' : State} (h : HasUnsent s') {t : ℕ} {g : Cmd → Cmd}
    (howner : ∀ c, (g c).owner = c.owner) (hsent : ∀ c, c.sent = true → (g c).sent = true)
    (hcmds : s'.cmds = update t g s.cmds) : HasUnsent s := by
  obtain ⟨c, hc, ho, hs⟩ := h
  rw [hcmds, mem_update] at hc
  obtain ⟨d, hd, rfl⟩ := hc
  refine ⟨d, hd, ?_⟩
  split_ifs at ho hs
  · refine ⟨howner d ▸ ho, ?_⟩
    by_contra hds
    have := hsent d (by simpa using hds)
    simp [hs] at this
  · exact ⟨ho, hs⟩

/-- What one step does once the wait for a command has run out. -/
structure Fades (s s' : State) : Prop where
  dead : Dead s'
  crashed : s'.crashed = true
  nextTkn : s'.nextTkn = s.nextTkn
  unsent : HasUnsent s' → HasUnsent s
  bus : s'.bus = s.bus ∨
    (HasUnsent s ∧ ¬HasUnsent s' ∧ ∃ t, s'.bus = s.bus ++ [t])

theorem fades_send {s : State} (h : Inv s) (hd : Dead s) (hcr : s.crashed = true) {t : ℕ}
    (ht : s.cmds.any (Sendable t) = true) : Fades s (setCmdTx s t) := by
  obtain ⟨c, hc, hs⟩ := any_iff.mp ht
  simp only [Sendable, Bool.and_eq_true, decide_eq_true_eq, Bool.not_eq_true'] at hs
  obtain ⟨⟨rfl, ho⟩, hsent⟩ := hs
  refine ⟨hd.update (g := Cmd.markSent) (fun _ => rfl) (fun _ => rfl) (fun _ ht => ht)
      (fun _ _ => rfl) rfl (.inl rfl), hcr, rfl,
    fun hu => hu.of_update (g := Cmd.markSent) (fun _ => rfl) (fun _ _ => rfl) rfl,
    .inr ⟨⟨c, hc, ho, hsent⟩, ?_, _, rfl⟩⟩
  rintro ⟨d, hd, hdo, hds⟩
  obtain ⟨e, he, rfl⟩ := mem_update.mp hd
  split_ifs at hdo hds with het
  · exact absurd (show true = false from hds) (by simp)
  · exact het (by rw [h.listed.unsent_unique he hc hdo ho hds hsent])

theorem fades_remove {s : State} (hd : Dead s) (hcr : s.crashed = true) {t : ℕ}
    (ht : ∀ c ∈ s.cmds, c.timedOut = true → c.sent = true →
      (c.owner = .worker → ∀ u, s.worker = .waiting u → u ≠ c.tkn) → c.tkn ≠ t) {s' : State}
    (hcmds : s'.cmds = (remove s t).cmds) (hcr' : s'.crashed = s.crashed)
    (hn : s'.nextTkn = s.nextTkn) (hb : s'.bus = s.bus)
    (hw : ∀ u, s'.worker = .waiting u → s.worker = .waiting u) : Fades s s' := by
  refine ⟨?_, hcr'.trans hcr, hn, ?_, .inl hb⟩
  · obtain ⟨c, hc, ho, hs, hwait⟩ := hd
    refine ⟨c, ?_, ho, hs, fun hown u hu => hwait hown u (hw u hu)⟩
    rw [hcmds]
    exact List.mem_filter.mpr ⟨hc, decide_eq_true (ht c hc ho hs hwait)⟩
  · rintro ⟨c, hc, ho, hs⟩
    rw [hcmds] at hc
    exact ⟨c, (List.mem_filter.mp hc).1, ho, hs⟩

theorem Fades.of_eq {s s' : State} (hd : Dead s) (hcr : s.crashed = true)
    (hc : s'.cmds = s.cmds) (hcr' : s'.crashed = s.crashed) (hn : s'.nextTkn = s.nextTkn)
    (hb : s'.bus = s.bus) (hw : ∀ u, s'.worker = .waiting u → s.worker = .waiting u) :
    Fades s s' := by
  refine ⟨?_, hcr'.trans hcr, hn, ?_, .inl hb⟩
  · obtain ⟨c, hcm, ho, hs, hwait⟩ := hd
    exact ⟨c, hc ▸ hcm, ho, hs, fun hown u hu => hwait hown u (hw u hu)⟩
  · rintro ⟨c, hcm, ho, hs⟩
    exact ⟨c, hc ▸ hcm, ho, hs⟩

theorem fades_work {s : State} (h : Inv s) (hd : Dead s) (hcr : s.crashed = true) :
    Fades s (taskProcess s) := by
  have hsame : Fades s s := .of_eq hd hcr rfl rfl rfl rfl fun _ hu => hu
  have ⟨c, hc, _, hs, _⟩ := hd
  unfold taskProcess
  cases hw : s.worker with
  | idle =>
    dsimp only
    split_ifs
    · exact .of_eq hd hcr rfl rfl rfl rfl fun _ hu => by cases hu
    · exact hsame
  | looking =>
    dsimp only
    cases hcons : s.cmds with
    | nil => exact .of_eq hd hcr hcons.symm rfl rfl rfl fun _ hu => by cases hu
    | cons e l =>
      have he := h.listed.head_of_sent hcons hc hs
      dsimp only
      rw [if_neg (by simp [he])]
      exact .of_eq hd hcr hcons.symm rfl rfl rfl fun _ hu => by cases hu
  | picked t =>
    have hh := h.atHead
    unfold AtHead at hh
    rw [hw] at hh
    obtain ⟨e, l, hcons, -, he⟩ := hh
    have := h.listed.head_of_sent hcons hc hs
    simp [he] at this
  | waiting t =>
    have hh := h.atHead
    unfold AtHead at hh
    rw [hw] at hh
    obtain ⟨e, l, hcons, het, heo, -⟩ := hh
    dsimp only
    split_ifs
    · refine fades_remove hd hcr (t := t) (fun f hf _ _ hfw hft => ?_) rfl rfl rfl rfl
        fun _ hu => by cases hu
      have hfe : f = e := h.listed.eq_of_tkn hf (by simp [hcons]) (by rw [hft, het])
      exact hfw (hfe ▸ heo) t hw hft.symm
    · exact hsame

theorem fades_step {s : State} (h : Inv s) (hd : Dead s) (hcr : s.crashed = true) (e : Event) :
    Fades s (step s e) := by
  have hsame : Fades s s := .of_eq hd hcr rfl rfl rfl rfl fun _ hu => hu
  cases e with
  | queue id reqid e2aMsg =>
    rw [step, cmdMgrQueue, if_pos hcr]
    exact hsame
  | forceDefer reqid =>
    rw [step, cmdMgrQueueForceDefer, if_pos hcr]
    exact hsame
  | tail t =>
    simp only [step]
    split_ifs
    · cases t with
      | testSize =>
        simp only [runTail]
        split_ifs <;> exact .of_eq hd hcr rfl rfl rfl rfl fun _ hu => hu
      | testEmpty =>
        simp only [runTail]
        split_ifs <;> exact .of_eq hd hcr rfl rfl rfl rfl fun _ hu => hu
      | wake => exact .of_eq hd hcr rfl rfl rfl rfl fun _ hu => hu
    · exact hsame
  | send t =>
    simp only [step]
    split_ifs with ht
    · exact fades_send h hd hcr ht
    · exact hsame
  | msgind reqid refused =>
    simp only [step, cmdMgrMsgind]
    split_ifs
    · exact hsame
    · cases s.cmds.find? (takes reqid) with
      | none => exact hsame
      | some c =>
        exact ⟨hd.update (g := Cmd.confirm) (fun _ => rfl) (fun _ => rfl) (fun _ ht => ht)
            (fun _ hs => hs) rfl (.inl rfl), hcr, rfl,
          fun hu => hu.of_update (g := Cmd.confirm) (fun _ => rfl) (fun _ hs => hs) rfl, .inl rfl⟩
  | finish t =>
    simp only [step]
    split_ifs with ht
    · obtain ⟨c, hc, hs⟩ := any_iff.mp ht
      simp only [Awaited, Bool.and_eq_true, decide_eq_true_eq, Bool.not_eq_true'] at hs
      obtain ⟨⟨⟨⟨rfl, -⟩, -⟩, hout⟩, -⟩ := hs
      refine fades_remove hd hcr (fun f hf hfo _ _ hft => ?_) rfl rfl rfl rfl fun _ hu => hu
      rw [h.listed.eq_of_tkn hf hc hft, hout] at hfo
      cases hfo
    · exact hsame
  | timeOut t =>
    simp only [step]
    split_ifs
    · exact ⟨hd.update (g := Cmd.giveUp) (fun _ => rfl) (fun _ => rfl) (fun _ _ => rfl)
          (fun _ hs => hs) rfl (.inl rfl), rfl, rfl,
        fun hu => hu.of_update (g := Cmd.giveUp) (fun _ => rfl) (fun _ hs => hs) rfl, .inl rfl⟩
    · exact hsame
  | work => exact fades_work h hd hcr
  | workTimeOut =>
    simp only [step]
    cases s.worker with
    | waiting t =>
      exact ⟨hd.update (g := Cmd.giveUp) (fun _ => rfl) (fun _ => rfl) (fun _ _ => rfl)
          (fun _ hs => hs) rfl (.inr rfl), rfl, rfl,
        fun hu => hu.of_update (g := Cmd.giveUp) (fun _ => rfl) (fun _ hs => hs) rfl, .inl rfl⟩
    | idle => exact hsame
    | looking => exact hsame
    | picked t => exact hsame

theorem dead_timeOut {s : State} {c : Cmd} (hc : c ∈ s.cmds) (hs : c.sent = true) {w : Worker}
    (hw : c.owner = .worker → ∀ t, w = .waiting t → t ≠ c.tkn) :
    Dead { timeOut s c.tkn with worker := w } :=
  ⟨c.giveUp, mem_update.mpr ⟨c, hc, (if_pos rfl).symm⟩, rfl, hs, hw⟩

/-- The manager is crashed only with a command in its queue that nobody waits for any more. -/
theorem dead_of_crashed_step {s : State} (h : Inv s) (hd : s.crashed = true → Dead s) (e : Event) :
    (step s e).crashed = true → Dead (step s e) := by
  by_cases hcr : s.crashed = true
  · exact fun _ => (fades_step h (hd hcr) hcr e).dead
  have hno : ∀ s' : State, s'.crashed = s.crashed → s'.crashed = true → Dead s' := fun s' he ht =>
    absurd (he.symm.trans ht) hcr
  cases e with
  | queue id reqid e2aMsg =>
    rw [step, cmdMgrQueue]
    split
    · exact hno _ rfl
    split
    · exact hno _ rfl
    split <;> exact hno _ rfl
  | forceDefer reqid =>
    rw [step, cmdMgrQueueForceDefer]
    split
    · exact hno _ rfl
    split <;> exact hno _ rfl
  | tail t =>
    apply hno
    simp only [step]
    split_ifs
    · cases t <;> simp only [runTail] <;> first | rfl | (split_ifs <;> rfl)
    · rfl
  | send t =>
    apply hno
    simp only [step]
    split_ifs <;> rfl
  | msgind reqid refused =>
    apply hno
    simp only [step, cmdMgrMsgind]
    split_ifs
    · rfl
    · cases s.cmds.find? (takes reqid) <;> rfl
  | finish t =>
    apply hno
    simp only [step]
    split_ifs <;> rfl
  | timeOut t =>
    simp only [step]
    split_ifs with ht
    · obtain ⟨c, hc, hs⟩ := any_iff.mp ht
      simp only [Awaited, Bool.and_eq_true, decide_eq_true_eq] at hs
      obtain ⟨⟨⟨rfl, ho⟩, hsent⟩, -⟩ := hs
      refine fun _ => dead_timeOut (w := s.worker) hc hsent fun hown => ?_
      rw [ho] at hown
      cases hown
    · exact hd
  | work =>
    apply hno
    simp only [step, taskProcess]
    cases s.worker with
    | idle => dsimp only; split_ifs <;> rfl
    | looking =>
      cases s.cmds with
      | nil => rfl
      | cons c l => dsimp only; split_ifs <;> rfl
    | picked t => rfl
    | waiting t => dsimp only; split_ifs <;> rfl
  | workTimeOut =>
    have hh := h.atHead
    unfold AtHead at hh
    simp only [step]
    cases hw : s.worker with
    | waiting t =>
      rw [hw] at hh
      obtain ⟨c, l, hcons, rfl, -, hsent⟩ := hh
      exact fun _ => dead_timeOut (w := .looking) (by simp [hcons]) hsent fun _ t ht => by cases ht
    | idle => exact hno _ rfl
    | looking => exact hno _ rfl
    | picked t => exact hno _ rfl

theorem fades_run {s : State} {es : List Event} (hes : Guarded step Honest s es) (h : Inv s)
    (hd : Dead s) (hcr : s.crashed = true) :
    (es.foldl step s).nextTkn = s.nextTkn ∧
      (∃ sent, (es.foldl step s).bus = s.bus ++ sent ∧ sent.length ≤ 1) ∧
      (¬HasUnsent s → (es.foldl step s).bus = s.bus) := by
  induction es generalizing s with
  | nil => exact ⟨rfl, ⟨[], (List.append_nil _).symm, Nat.zero_le _⟩, fun _ => rfl⟩
  | cons e es ih =>
    have hf := fades_step h hd hcr e
    obtain ⟨hn, hb, hu⟩ := ih hes.2 (inv_step h hes.1) hf.dead hf.crashed
    rw [List.foldl_cons]
    refine ⟨hn.trans hf.nextTkn, ?_, fun hns => ?_⟩
    · rcases hf.bus with he | ⟨-, hns, t, he⟩
      · rw [he] at hb
        exact hb
      · exact ⟨[t], by rw [hu hns, he], Nat.le_refl _⟩
    · rcases hf.bus with he | ⟨hs, -, -⟩
      · rw [hu fun hu' => hns (hf.unsent hu'), he]
      · exact absurd hs hns

/-- Once a wait has run out, no command is taken any more, and at most one still goes over the bus,
one that was taken before. -/
theorem after_timeOut (es es' : List Event) (hes : Guarded step Honest .init (es ++ es'))
    (hcr : (run es).crashed = true) : (run (es ++ es')).nextTkn = (run es).nextTkn ∧
      ∃ sent, (run (es ++ es')).bus = (run es).bus ++ sent ∧ sent.length ≤ 1 ∧
        ∀ t ∈ sent, t < (run es).nextTkn ∧ t ∉ (run es).bus := by
  obtain ⟨h1, h2⟩ := Guarded.append.mp hes
  change Guarded step Honest (run es) es' at h2
  have h : Inv (run es) ∧ ((run es).crashed = true → Dead (run es)) :=
    h1.invariant (I := fun s => Inv s ∧ (s.crashed = true → Dead s))
      (fun s e _ hs he => ⟨inv_step hs.1 he, dead_of_crashed_step hs.1 hs.2 e⟩)
      ⟨inv_init, fun hc => by simp [State.init] at hc⟩
  have hrun : run (es ++ es') = es'.foldl step (run es) := List.foldl_append
  have hend : OnBus (run (es ++ es')) :=
    (hes.invariant (I := Inv) (fun s e _ hs he => inv_step hs he) inv_init).onBus
  rw [hrun] at hend ⊢
  obtain ⟨hn, ⟨sent, hb, hlen⟩, -⟩ := fades_run h2 h.1 (h.2 hcr) hcr
  refine ⟨hn, sent, hb, hlen, fun t ht => ⟨?_, fun ht' => ?_⟩⟩
  · rw [← hn]
    exact (hend.before t (hb ▸ List.mem_append_right _ ht)).1
  · have hasc := hend.ascending
    rw [hb] at hasc
    exact Nat.lt_irrefl t ((List.pairwise_append.mp hasc).2.2 t ht' t ht)

/-- The work item gives up a command just as its confirmation comes, and a caller gets in before. -/
theorem after_timeOut_race :
    let es : List Event := [.forceDefer 7, .tail .wake, .work, .work, .work, .msgind 7 false,
      .queue (.other 1) 8 false, .workTimeOut]
    let es' : List Event := [.send 1, .queue (.other 2) 9 false, .work]
    (run es).bus = [0] ∧ (run (es ++ es')).bus = [0, 1] ∧
      (run (es ++ es')).nextTkn = (run es).nextTkn ∧
      ∃ sent, (run (es ++ es')).bus = (run es).bus ++ sent ∧ sent.length ≤ 1 ∧
        ∀ t ∈ sent, t < (run es).nextTkn ∧ t ∉ (run es).bus := by
  intro es es'
  refine ⟨rfl, rfl, after_timeOut es es' ?_ rfl⟩
  refine ⟨trivial, trivial, trivial, trivial, trivial, fun _ => ?_, trivial, trivial, trivial,
    trivial, trivial, trivial⟩
  exact ⟨⟨0, 7, false, true, false, true, false, .worker⟩, List.Mem.head _, rfl, rfl⟩

end NervesSystem.CmdMgr
