import NervesSystem.PowerSave
import NervesSystem.Library.Trace

namespace NervesSystem.TxSched

open Trace

variable {s : TxState}

theorem step_settled (hs : Settled s) (hc : Counted s) {e : TxEvent} (he : Proper s e) :
    Settled (txStep s e) ∧ Counted (txStep s e) := by
  unfold txStep
  rw [hs.bug, if_neg (by simp)]
  cases e with
  | staInit i stop uapsdTids tdls mesh =>
    exact ⟨hs.staInit stop uapsdTids tdls mesh he, hc.staInit i stop uapsdTids tdls mesh hs he⟩
  | staReset i =>
    refine ⟨hs.staReset i, hc.awake (i := i) (fun _ _ => rfl) (fun _ => rfl) ?_ ?_⟩
    · intro j hj
      exact ps_setPs_other s _ hj
    · exact congrArg Ps.active (ps_setPs_same s i _)
  | init q stop => exact ⟨hs.init stop he.1 he.2, hc.init he.1⟩
  | deinit q => exact ⟨hs.deinit he, hc.deinit hs he⟩
  | xmit q skb => exact ⟨hs.xmit he, hc.xmit hs he⟩
  | confirm q skb retry => exact ⟨hs.confirm q skb retry he, hc.confirm hs q fun hr => (he hr).1⟩
  | creditUpdate q => exact ⟨hs.creditUpdate q, hc.creditUpdate q⟩
  | start q reason => exact ⟨hs.start q he, hc.start q reason⟩
  | stop q reason => exact ⟨hs.stop q reason, hc.stop q reason⟩
  | psChange i enable =>
    dsimp only
    split
    · next hvalid =>
      cases enable with
      | true => exact ⟨hs.psEnable hvalid, hc.psEnable i⟩
      | false => exact ⟨hs.psDisable hvalid, hc.psDisable i⟩
    · exact ⟨hs, hc⟩
  | trafficReq i pktReq p => exact ⟨hs.trafficReq hc i pktReq p, hc.trafficReq i pktReq p⟩
  | task => exact ⟨hs.hwqProcessAll, hc.hwqProcessAll hs⟩

theorem settled_init : Settled .init where
  wf := ⟨fun h q => by simp [TxState.init, txqInit], fun _ => List.nodup_nil⟩
  queue := nofun
  bug := rfl
  warned := rfl
  inUse := nofun
  awake := nofun
  queues := nofun

theorem counted_init : Counted .init := ⟨fun _ => rfl, nofun⟩

/-- What holds after every run whose callers keep their promises. -/
theorem run_settled {es : List TxEvent} (hes : Guarded txStep Proper .init es) :
    Settled (txRun .init es) ∧ Counted (txRun .init es) :=
  hes.invariant (I := fun s => Settled s ∧ Counted s)
    (fun _ _ _ hs he => step_settled hs.1 hs.2 he) ⟨settled_init, counted_init⟩

local instance sta_neZero : NeZero 32 := ⟨by decide⟩

local instance tid_neZero : NeZero 9 := ⟨by decide⟩

/-- A station sleeps, two frames come for it, and it asks for them. -/
def sampleRun : List TxEvent :=
  [.staInit (.remote 0) [] 0 false false, .psChange (.remote 0) true,
    .xmit (.sta 0 0) ⟨1, false⟩, .xmit (.sta 0 0) ⟨2, false⟩,
    .trafficReq (.remote 0) 0 .legacy]

theorem sampleRun_proper : Guarded txStep Proper .init sampleRun := by
  refine ⟨?_, trivial, ?_, ?_, trivial, trivial⟩ <;> unfold Proper <;> decide

/-- The sanity checks of the scheduler never fail: a queue in a hardware queue's list is in use, has
frames and credits, and its service period, if there is one, asks for no more than it has. -/
theorem schedule_no_bug {es : List TxEvent} (hes : Guarded txStep Proper .init es) :
    (txRun .init es).bug = false ∧ (txRun .init es).warned = false ∧
      ∀ h, ∀ q ∈ (txRun .init es).hwqList h,
        ((txRun .init es).txq q).active = true ∧ ((txRun .init es).txq q).skList ≠ [] ∧
        0 < ((txRun .init es).txq q).credits ∧
        ((txRun .init es).txq q).pushLimit ≤ ((txRun .init es).txq q).skList.length := by
  obtain ⟨hs, -⟩ := run_settled hes
  refine ⟨hs.bug, hs.warned, fun h q hq => ?_⟩
  obtain ⟨hlisted, -⟩ := (hs.wf.mem h q).mp hq
  have hactive := hs.inUse q hlisted
  have hok := hs.queue q hactive
  have hcred := hok.credits_pos
  exact ⟨hactive, hok.ready hlisted, by omega, hok.limit.1⟩

theorem schedule_no_bug_sample :
    ((txRun .init sampleRun).bug = false ∧ (txRun .init sampleRun).warned = false ∧
      ∀ h, ∀ q ∈ (txRun .init sampleRun).hwqList h,
        ((txRun .init sampleRun).txq q).active = true ∧
        ((txRun .init sampleRun).txq q).skList ≠ [] ∧
        0 < ((txRun .init sampleRun).txq q).credits ∧
        ((txRun .init sampleRun).txq q).pushLimit ≤
          ((txRun .init sampleRun).txq q).skList.length) ∧
      (txRun .init sampleRun).hwqList .be = [.sta 0 0] :=
  ⟨schedule_no_bug sampleRun_proper, by decide⟩

/-- No queue that may send is forgotten, and the net device is held up just while too much waits. -/
theorem schedule_complete {es : List TxEvent} (hes : Guarded txStep Proper .init es) (q : TxqId)
    (hq : ((txRun .init es).txq q).active = true) :
    (((txRun .init es).txq q).stop = [] → ((txRun .init es).txq q).skList ≠ [] →
        q ∈ (txRun .init es).hwqList q.hwq) ∧
      (q.hasNdev = true → ndevFlowCtrlStop < ((txRun .init es).txq q).skList.length →
        ((txRun .init es).txq q).ndevFlowCtrl = true) ∧
      (((txRun .init es).txq q).ndevFlowCtrl = true →
        ndevFlowCtrlRestart ≤ ((txRun .init es).txq q).skList.length) := by
  obtain ⟨hs, -⟩ := run_settled hes
  have hok := hs.queue q hq
  refine ⟨fun hstop hne => ?_, hok.flowStops, hok.flowRuns⟩
  exact (listed_iff hs.wf).mpr (hok.scheduled hstop hne)

/-- Awake again, the station has its frames sent. -/
def wakeRun : List TxEvent := sampleRun ++ [.psChange (.remote 0) false]

theorem wakeRun_proper : Guarded txStep Proper .init wakeRun :=
  Guarded.append.mpr ⟨sampleRun_proper, trivial, trivial⟩

theorem schedule_complete_wake :
    ((((txRun .init wakeRun).txq (.sta 0 0)).stop = [] →
        ((txRun .init wakeRun).txq (.sta 0 0)).skList ≠ [] →
        TxqId.sta 0 0 ∈ (txRun .init wakeRun).hwqList (TxqId.sta 0 0).hwq) ∧
      ((TxqId.sta 0 0).hasNdev = true →
        ndevFlowCtrlStop < ((txRun .init wakeRun).txq (.sta 0 0)).skList.length →
        ((txRun .init wakeRun).txq (.sta 0 0)).ndevFlowCtrl = true) ∧
      (((txRun .init wakeRun).txq (.sta 0 0)).ndevFlowCtrl = true →
        ndevFlowCtrlRestart ≤ ((txRun .init wakeRun).txq (.sta 0 0)).skList.length)) ∧
      ((txRun .init wakeRun).txq (.sta 0 0)).stop = [] ∧
      ((txRun .init wakeRun).txq (.sta 0 0)).skList ≠ [] :=
  ⟨schedule_complete wakeRun_proper (.sta 0 0) (by decide), by decide, by decide⟩

/-- Since a queue was set up, its frames are pushed in the order in which they were queued, and
those that come back are pushed again in the order in which they came back, before any other. -/
theorem frames_in_order {es : List TxEvent} (hes : Guarded txStep Proper .init es) (q : TxqId)
    (hq : ((txRun .init es).txq q).active = true) :
    ∃ retries fresh, ((txRun .init es).txq q).skList = retries ++ fresh ∧
      retries.length = ((txRun .init es).txq q).nbRetry ∧
      ((txRun .init es).txq q).queued = ((txRun .init es).txq q).sent ++ fresh ∧
      ((txRun .init es).txq q).requeued = ((txRun .init es).txq q).resent ++ retries := by
  obtain ⟨hs, -⟩ := run_settled hes
  have hframes := (hs.queue q hq).frames
  refine ⟨_, _, (List.take_append_drop _ _).symm, ?_, hframes.fresh, hframes.again⟩
  rw [List.length_take]
  exact Nat.min_eq_left hframes.retries

/-- A frame comes back while its station sleeps, and is queued before the one that waits. -/
def retryRun : List TxEvent :=
  [.staInit (.remote 0) [] 0 false false, .xmit (.sta 0 0) ⟨1, false⟩, .psChange (.remote 0) true,
    .xmit (.sta 0 0) ⟨2, false⟩, .confirm (.sta 0 0) ⟨1, false⟩ true]

theorem retryRun_proper : Guarded txStep Proper .init retryRun := by
  refine ⟨?_, ?_, trivial, ?_, ?_, trivial⟩ <;> unfold Proper <;> decide

theorem frames_in_order_retry :
    (∃ retries fresh, ((txRun .init retryRun).txq (.sta 0 0)).skList = retries ++ fresh ∧
      retries.length = ((txRun .init retryRun).txq (.sta 0 0)).nbRetry ∧
      ((txRun .init retryRun).txq (.sta 0 0)).queued =
        ((txRun .init retryRun).txq (.sta 0 0)).sent ++ fresh ∧
      ((txRun .init retryRun).txq (.sta 0 0)).requeued =
        ((txRun .init retryRun).txq (.sta 0 0)).resent ++ retries) ∧
      ((txRun .init retryRun).txq (.sta 0 0)).skList = [⟨1, false⟩, ⟨2, false⟩] ∧
      ((txRun .init retryRun).txq (.sta 0 0)).sent = [⟨1, false⟩] :=
  ⟨frames_in_order retryRun_proper (.sta 0 0) (by decide), by decide, by decide⟩

/-- While a station sleeps its queues are in use and stopped for that, and what is told to be ready
for it is what they hold. -/
theorem pktReady_exact {es : List TxEvent} (hes : Guarded txStep Proper .init es) (i : Sta)
    (hi : ((txRun .init es).ps i).active = true) :
    (∀ p, ((txRun .init es).ps i).pktReady p = backlog (txRun .init es) i p % 65536) ∧
      ∀ q ∈ i.txqs, ((txRun .init es).txq q).active = true ∧
        .staPs ∈ ((txRun .init es).txq q).stop := by
  obtain ⟨hs, hc⟩ := run_settled hes
  refine ⟨hc.ready i hi, fun q hq => ?_⟩
  have hown := (mem_txqs i q).mp hq
  have hactive := hs.queues i (hs.awake i hi) q hown
  refine ⟨hactive, (hs.queue q hactive).resting (.inr ?_)⟩
  rw [TxState.sleeps, hown]
  exact hi

theorem pktReady_exact_sample :
    ((∀ p, ((txRun .init sampleRun).ps (.remote 0)).pktReady p =
        backlog (txRun .init sampleRun) (.remote 0) p % 65536) ∧
      ∀ q ∈ (Sta.remote 0).txqs, ((txRun .init sampleRun).txq q).active = true ∧
        .staPs ∈ ((txRun .init sampleRun).txq q).stop) ∧
      ((txRun .init sampleRun).ps (.remote 0)).pktReady .legacy = 2 :=
  ⟨pktReady_exact sampleRun_proper (.remote 0) (by decide), by decide⟩

/-- A frame that the filter lets through, for a queue that may send, has the whole hardware queue
served: each of its queues that may send gives 64 frames, or all that it has. -/
theorem xmit_serves {es : List TxEvent} (hes : Guarded txStep Proper .init es) {q : TxqId}
    {skb : Skb} (hskb : skb ∉ ((txRun .init es).txq q).skList)
    (hqactive : ((txRun .init es).txq q).active = true)
    (hq : ((txRun .init es).txq q).stop = []) {len : ℕ} {filter : Bool}
    (hfilter : len % 65536 ≤ maxTcpAck → filter = false) (a : TxqId) (ha : a.hwq = q.hwq)
    (hactive : ((txRun .init es).txq a).active = true)
    (hstop : ((txRun .init es).txq a).stop = []) :
    ((startXmit (txRun .init es) q skb len filter true).txq a).skList.length + 64 ≤
      max 64 (((txRun .init es).txq a).skList.length + if a = q then 1 else 0) := by
  have hpass : startXmit (txRun .init es) q skb len filter true =
      xmitSection (txRun .init es) q skb := by
    rw [startXmit, if_neg fun h => by simp [hfilter h.1] at h, if_pos ⟨rfl, hqactive⟩]
  rw [hpass]
  obtain ⟨hs, -⟩ := run_settled hes
  generalize txRun .init es = s at *
  obtain ⟨hfst, hset⟩ := sets_txqQueueSkb s q skb false
  obtain ⟨hkept, hkeptStop, -⟩ := Txq.enqueue_keeps (s.txq q) skb false
  have hok : (s.txq q).active = true →
      ((s.txq q).queuedUp q.hasNdev skb false).Ok q.hasNdev (s.sleeps q) :=
    fun hqa => (hs.queue q hqa).queuedUp hskb false (s.txq q).credits (by simp) nofun
  have hI := hs.toInv.sets hset fun hqa => hok (hkept ▸ hqa)
  unfold xmitSection
  generalize txqQueueSkb s q skb false = r at hfst hset hI
  obtain ⟨b, s₁⟩ := r
  dsimp only at hfst hset hI
  rw [hq] at hfst
  subst hfst
  dsimp only [List.isEmpty_nil]
  have hlen : (s₁.txq a).skList.length = (s.txq a).skList.length + if a = q then 1 else 0 := by
    by_cases haq : a = q
    · subst haq
      rw [if_pos rfl, hset.same]
      exact (hs.queue a hactive).frames.length_enqueue hskb false
    · rw [if_neg haq, hset.other haq]
      rfl
  have hstop₁ : (s₁.txq a).stop = [] := by
    by_cases haq : a = q
    · subst haq
      rw [hset.same]
      exact hkeptStop.trans hstop
    · rw [hset.other haq]
      exact hstop
  have hactive₁ : (s₁.txq a).active = true := by
    by_cases haq : a = q
    · subst haq
      rw [hset.same]
      exact hkept.trans hactive
    · rw [hset.other haq]
      exact hactive
  have hok₁ := hI.queue a hactive₁
  obtain ⟨-, hswept, hclear⟩ := hwqProcess_spec hI q.hwq
  rw [← hlen]
  -- A queue that may send is in the list, or it has nothing to give.
  by_cases hmem : a ∈ s₁.hwqList q.hwq
  · obtain ⟨-, hsuffix⟩ := (hclear a hmem).served hactive₁
    have hle := hsuffix.length_le
    have hlimit : (s₁.txq a).pushLimit = 0 := by
      by_contra hne
      have hrest := hok₁.resting (.inl hne)
      rw [hstop₁] at hrest
      cases hrest
    have hcred := hok₁.credits_pos
    rw [List.length_drop, Txq.batch, if_neg (not_not.mpr hlimit)] at hle
    omega
  · have hnil : (s₁.txq a).skList = [] := by
      by_contra hne
      have hlisted := (listed_iff hI.wf).mpr (hok₁.scheduled hstop₁ hne)
      rw [ha] at hlisted
      exact hmem hlisted
    rw [hswept.outside a hmem, hnil]
    simp

theorem xmit_serves_wake :
    ((startXmit (txRun .init wakeRun) (.sta 0 3) ⟨3, false⟩ 1500 true true).txq
        (.sta 0 0)).skList.length + 64 ≤
        max 64 (((txRun .init wakeRun).txq (.sta 0 0)).skList.length +
          if (TxqId.sta 0 0) = .sta 0 3 then 1 else 0) ∧
      ((txRun .init wakeRun).txq (.sta 0 0)).skList.length = 2 :=
  ⟨xmit_serves wakeRun_proper (by decide) (by decide) (by decide) (by decide) (.sta 0 0) (by decide)
    (by decide) (by decide), by decide⟩

end NervesSystem.TxSched
