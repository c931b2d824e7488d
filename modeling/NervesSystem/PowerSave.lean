import NervesSystem.TxWalk

namespace NervesSystem.TxSched

open FrameQueue (u16Inc u16Dec)

variable {s s' s'' : TxState} {q : TxqId} {t t' : Txq} {ndev asleep : Bool}

/-- The frames that wait for a station in its queues of one kind. -/
def backlog (s : TxState) (i : Sta) (p : PsId) : ℕ :=
  (i.txqs.map fun q => if (s.txq q).psId = p then (s.txq q).skList.length else 0).sum

/-- What is ready for a sleeping station is what its queues hold. -/
structure Counted (s : TxState) : Prop where
  legacy : ∀ vif, (s.txq (.bcmc vif)).psId = .legacy
  ready : ∀ i, (s.ps i).active = true → ∀ p, (s.ps i).pktReady p = backlog s i p % 65536

/-- The count goes along with the list of one queue. -/
structure Counts (s s' : TxState) (q : TxqId) : Prop where
  psId : (s'.txq q).psId = (s.txq q).psId
  ready : ∀ i, q.owner = some i → (s.ps i).active = true → ∀ p b,
    (s.ps i).pktReady p =
      (b + if (s.txq q).psId = p then (s.txq q).skList.length else 0) % 65536 →
    (s'.ps i).pktReady p =
      (b + if (s.txq q).psId = p then (s'.txq q).skList.length else 0) % 65536

theorem backlog_split (s : TxState) {i : Sta} {q : TxqId} (hq : q.owner = some i) (p : PsId) :
    ∃ b, ∀ s' : TxState, (∀ a, a ≠ q → s'.txq a = s.txq a) →
      backlog s' i p = b + if (s'.txq q).psId = p then (s'.txq q).skList.length else 0 := by
  have hmem := (mem_txqs i q).mpr hq
  refine ⟨((i.txqs.erase q).map fun a =>
    if (s.txq a).psId = p then (s.txq a).skList.length else 0).sum, fun s' hs' => ?_⟩
  have hperm := ((List.perm_cons_erase hmem).map fun a =>
    if (s'.txq a).psId = p then (s'.txq a).skList.length else 0).sum_eq
  rw [List.map_cons, List.sum_cons] at hperm
  rw [backlog, hperm, Nat.add_comm]
  congr 1
  apply sum_map_congr
  intro a ha
  rw [hs' a ((nodup_txqs i).mem_erase_iff.mp ha).1]

theorem backlog_congr {i : Sta} (p : PsId) (h : ∀ q, q.owner = some i → s'.txq q = s.txq q) :
    backlog s' i p = backlog s i p := by
  apply sum_map_congr
  intro q hq
  rw [h q ((mem_txqs i q).mp hq)]

theorem Counted.sets (h : Counted s) (hs : Sets s s' q t) (hc : Counts s s' q) : Counted s' where
  legacy := by
    intro vif
    by_cases hq : TxqId.bcmc vif = q
    · rw [hq, hc.psId, ← hq]
      exact h.legacy vif
    · rw [hs.other hq]
      exact h.legacy vif
  ready := by
    intro i hi p
    rw [hs.active] at hi
    have hold := h.ready i hi p
    by_cases hq : q.owner = some i
    · obtain ⟨b, hb⟩ := backlog_split s hq p
      rw [hb s fun _ _ => rfl] at hold
      rw [hb s' fun _ hne => hs.other hne, hc.psId]
      exact hc.ready i hq hi p b hold
    · have hsame : backlog s' i p = backlog s i p := by
        apply backlog_congr
        intro a ha
        apply hs.other
        rintro rfl
        exact hq ha
      rw [hs.station i hq, hold, hsame]

/-- An event that moves no frame of the queue counts none. -/
theorem Sets.counts (hs : Sets s s' q t) (hpsId : t.psId = (s.txq q).psId)
    (hlen : t.skList.length = (s.txq q).skList.length)
    (hready : ∀ i, (s'.ps i).pktReady = (s.ps i).pktReady) : Counts s s' q where
  psId := by
    rw [hs.same, hpsId]
  ready := by
    intro i _ _ p b hb
    rw [hready, hs.same, hlen]
    exact hb

theorem pktReady_countReady (s : TxState) {q : TxqId} {i : Sta} (hq : q.owner = some i)
    (hi : (s.ps i).active = true) (p : PsId) (n b : ℕ)
    (hold : (s.ps i).pktReady p = (b + if (s.txq q).psId = p then n else 0) % 65536) :
    ((countReady s q).ps i).pktReady p =
      (b + if (s.txq q).psId = p then n + 1 else 0) % 65536 := by
  unfold countReady
  rw [hq]
  dsimp only
  rw [if_pos hi]
  have hset : ((s.setPs i { s.ps i with
      pktReady := Function.update (s.ps i).pktReady (s.txq q).psId
        (u16Inc ((s.ps i).pktReady (s.txq q).psId)) }).ps i).pktReady p =
      (b + if (s.txq q).psId = p then n + 1 else 0) % 65536 := by
    rw [ps_setPs_same]
    dsimp only
    by_cases hp : p = (s.txq q).psId
    · subst hp
      rw [Function.update_self, hold, if_pos rfl, if_pos rfl, u16Inc]
      omega
    · rw [Function.update_of_ne hp, hold, if_neg (Ne.symm hp), if_neg (Ne.symm hp)]
  split
  · exact hset
  · exact hset

theorem ready_setMoreDataFlag (s : TxState) {q : TxqId} {i : Sta} (hq : q.owner = some i)
    (hi : (s.ps i).active = true) (p : PsId) (n b : ℕ)
    (hold : (s.ps i).pktReady p = (b + if (s.txq q).psId = p then n + 1 else 0) % 65536) :
    ((setMoreDataFlag s q).2.ps i).pktReady p =
      (b + if (s.txq q).psId = p then n else 0) % 65536 := by
  have hnew : Function.update (s.ps i).pktReady (s.txq q).psId
      (u16Dec ((s.ps i).pktReady (s.txq q).psId)) p =
      (b + if (s.txq q).psId = p then n else 0) % 65536 := by
    by_cases hp : p = (s.txq q).psId
    · subst hp
      rw [Function.update_self, hold, if_pos rfl, if_pos rfl, u16Dec]
      omega
    · rw [Function.update_of_ne hp, hold, if_neg (Ne.symm hp), if_neg (Ne.symm hp)]
  unfold setMoreDataFlag
  rw [hq]
  dsimp only
  rw [if_pos hi]
  split
  · rw [ps_setPs_same]
    exact hnew
  · change ((s.setPs i _).ps i).pktReady p = _
    rw [ps_setPs_same]
    exact hnew

theorem ready_foldl_txPush (out l : List Skb) {i : Sta} (hq : q.owner = some i)
    (hi : (s.ps i).active = true) (hframes : (s.txq q).Frames (out ++ l)) (p : PsId) (n b : ℕ)
    (hold : (s.ps i).pktReady p =
      (b + if (s.txq q).psId = p then n + out.length else 0) % 65536) :
    ((out.foldl (txPush q) s).ps i).pktReady p =
      (b + if (s.txq q).psId = p then n else 0) % 65536 := by
  induction out generalizing s with
  | nil => exact hold
  | cons x out ih =>
    have hpush := sets_txPush hframes.expected
    have hpsId : ((txPush q s x).txq q).psId = (s.txq q).psId := by
      rw [hpush.same]
      exact ((s.txq q).same_push x).psId
    have hone := ready_setMoreDataFlag s hq hi p (n + out.length) b hold
    rw [← hpsId]
    apply ih
    · rw [hpush.active]
      exact hi
    · rw [hpush.same]
      exact hframes.push
    · rw [hpsId]
      exact hone

theorem sets_grant (s : TxState) {i : Sta} {q : TxqId} (hi : q.owner = some i) (n : ℕ) :
    Sets s (grant s i q n) q { s.txq q with pushLimit := n % 256, inHwqList := true } := by
  have hlim := (Sets.refl s q).modify (fun t => { t with pushLimit := n % 256 }) rfl
  have hps := hlim.trans (sets_setPs _ q (p := { s.ps i with
    spCnt := Function.update (s.ps i).spCnt (s.txq q).psId
      (((s.ps i).spCnt (s.txq q).psId + n) % 65536) }) hi rfl rfl)
  rw [hlim.same] at hps
  exact hps.add

/-- A sleeping station may be sent what one of its queues has. -/
theorem Settled.grant (h : Settled s) {i : Sta} (hasleep : (s.ps i).active = true)
    (hi : q.owner = some i) {n : ℕ} (hpos : n ≠ 0) (hlen : n ≤ (s.txq q).skList.length)
    (hcred : (n : ℤ) ≤ (s.txq q).credits) : Settled (grant s i q n) := by
  have hactive := h.queues i (h.awake i hasleep) q hi
  have hok := h.queue q hactive
  have hsleeps : s.sleeps q = true := by
    rw [TxState.sleeps, hi]
    exact hasleep
  have hsmall : n % 256 = n := by
    apply Nat.mod_eq_of_lt
    have hc := hok.credits
    have hf := hok.few
    rw [nxTxqInitialCredits] at hc
    omega
  have hne : (s.txq q).skList ≠ [] := by
    intro hnil
    rw [hnil, List.length_nil] at hlen
    exact hpos (Nat.le_zero.mp hlen)
  apply h.sets (sets_grant s hi n) _ rfl fun _ => hactive
  intro _
  rw [hsmall]
  exact (hok.limited hlen hcred fun _ => hok.resting (.inr hsleeps)).listed hne

theorem active_grant (s : TxState) {i : Sta} {q : TxqId} (hi : q.owner = some i) (n : ℕ) :
    ((grant s i q n).ps i).active = (s.ps i).active :=
  (sets_grant s hi n).active i

theorem u16_le {z : ℤ} (hz : 0 ≤ z) : (u16 z : ℤ) ≤ z := by
  unfold u16
  have h := Int.emod_nonneg z (show (65536 : ℤ) ≠ 0 by decide)
  omega

theorem le_u16 {z : ℤ} (hz : 0 ≤ z) (hsmall : z < 65536) : z ≤ u16 z := by
  unfold u16
  rw [Int.emod_eq_of_lt hz hsmall]
  exact Int.self_le_toNat z

theorem Txq.Ok.credits_small (h : t.Ok ndev asleep) : t.credits < 65536 := by
  have hc := h.credits
  have hf := h.few
  rw [nxTxqInitialCredits] at hc
  omega

theorem backlog_bcmc (s : TxState) (vif : Fin 4) (p : PsId) :
    backlog s (.bcmc vif) p ≤ (s.txq (.bcmc vif)).skList.length := by
  unfold backlog Sta.txqs
  rw [List.map_singleton, List.sum_singleton]
  split <;> omega

theorem Settled.dispatch (h : Settled s) {j : Fin 32} (hasleep : (s.ps (.remote j)).active = true)
    (p : PsId) (tids : List (Fin 9)) (req : ℕ) (hreq : req ≠ 0) :
    Settled (dispatch j p tids req s) := by
  induction tids generalizing s req with
  | nil => exact h
  | cons tid tids ih =>
    rw [TxSched.dispatch]
    have hown : TxqId.owner (.sta j tid) = some (.remote j) := rfl
    have hok := h.queue (.sta j tid) (h.queues _ (h.awake _ hasleep) (.sta j tid) hown)
    have hcred := hok.credits_pos
    have hmod := Nat.mod_le (s.txq (.sta j tid)).skList.length 65536
    have hu := u16_le (z := (s.txq (.sta j tid)).credits) (by omega)
    generalize hlen : (if (s.txq (.sta j tid)).credits <
      (((s.txq (.sta j tid)).skList.length % 65536 : ℕ) : ℤ)
      then u16 (s.txq (.sta j tid)).credits
      else (s.txq (.sta j tid)).skList.length % 65536) = len
    have hlim : len ≤ (s.txq (.sta j tid)).skList.length ∧
        (len : ℤ) ≤ (s.txq (.sta j tid)).credits := by
      rw [← hlen]
      split
      · exact ⟨by omega, hu⟩
      · exact ⟨hmod, by omega⟩
    split
    · exact ih h hasleep req hreq
    · next hc =>
      rw [not_or] at hc
      split
      · next hlt =>
        apply ih (h.grant hasleep hown hc.2 hlim.1 hlim.2) _ _ (by omega)
        rw [active_grant s hown]
        exact hasleep
      · exact h.grant hasleep hown hreq (by omega) (by omega)

theorem Settled.trafficReq (h : Settled s) (hcount : Counted s) (i : Sta) (pktReq : ℕ) (p : PsId) :
    Settled (psBhTrafficReq s i pktReq p) := by
  unfold psBhTrafficReq
  split
  · exact h
  · next hasleep =>
    rw [Bool.not_eq_false] at hasleep
    have hvalid := h.awake i hasleep
    split
    · let ps : Ps := { s.ps i with spCnt := Function.update (s.ps i).spCnt p 0 }
      obtain ⟨hk, ht⟩ := foldl_sets (s := s.setPs i ps)
        (f := fun s q => s.setTxq q { s.txq q with pushLimit := 0 })
        (g := fun _ t => { t with pushLimit := 0 }) (P := fun _ => True)
        (fun s q _ _ => (Sets.refl s q).modify (fun t => { t with pushLimit := 0 }) rfl)
        (nodup_txqs i) fun _ _ => trivial
      refine h.station ps (fun _ t => { t with pushLimit := 0 }) hk ht (fun q hq ha => ?_)
        (fun q _ hl => h.inUse q hl) (fun _ => hvalid) fun _ q hq => h.queues i hvalid q hq
      have hok := h.queue q ha
      have hcred := hok.credits_pos
      have hzero := hok.limited (Nat.zero_le _) (by omega) fun hne => absurd rfl hne
      rw [TxState.sleeps, hq] at hzero
      exact hzero
    · split
      · exact h
      · next hnone =>
        rw [not_or, not_not] at hnone
        dsimp only
        generalize hreq : (if pktReq = 0 ∨ (s.ps i).pktReady p < pktReq then (s.ps i).pktReady p
          else pktReq) = req
        -- A period asks for a frame at least, and for no more than is ready.
        have hpos : req ≠ 0 := by
          rw [← hreq]
          split
          · exact hnone.2
          · next hc => exact fun h0 => hc (.inl h0)
        have hle : req ≤ (s.ps i).pktReady p := by
          rw [← hreq]
          split <;> omega
        cases i with
        | remote j => exact h.dispatch hasleep p nxTidPrio req hpos
        | bcmc vif =>
          have hin := h.queues _ hvalid (.bcmc vif) rfl
          have hcred := (h.queue _ hin).credits_pos
          have hu := u16_le (z := (s.txq (.bcmc vif)).credits) (by omega)
          have hlow := le_u16 (z := (s.txq (.bcmc vif)).credits) (by omega)
            (h.queue _ hin).credits_small
          have hback := backlog_bcmc s vif p
          have hready := hcount.ready _ hasleep p
          have hmod := Nat.mod_le (backlog s (.bcmc vif) p) 65536
          apply h.grant hasleep rfl
          · split <;> omega
          · split <;> omega
          · split <;> omega

/-- A visit of a queue in use counts the frames that it pushes. -/
theorem counts_visit (hI : Inv s) (hactive : (s.txq q).active = true)
    (hlisted : (s.txq q).inHwqList = true) : Counts s (visit s q) q := by
  have h := hI.queue q hactive
  have hbatch := h.batch_le
  obtain ⟨-, t, hset, hv, hps⟩ := visit_ok hactive hlisted h
  have hsame : ((s.setTxq q
      { s.txq q with skList := (s.txq q).skList.drop (s.txq q).batch }).txq q) =
      { s.txq q with skList := (s.txq q).skList.drop (s.txq q).batch } :=
    Function.update_self ..
  refine ⟨by rw [hset.same]; exact hv.psId, fun i hi hsleep p b hb => ?_⟩
  rw [hps, hset.same, hv.skList]
  have hready := ready_foldl_txPush (s := s.setTxq q
    { s.txq q with skList := (s.txq q).skList.drop (s.txq q).batch })
    ((s.txq q).skList.take (s.txq q).batch) ((s.txq q).skList.drop (s.txq q).batch) hi hsleep
    (by
      rw [hsame, List.take_append_drop]
      exact h.frames.congr rfl rfl rfl rfl rfl rfl) p
    ((s.txq q).skList.drop (s.txq q).batch).length b
  rw [hsame] at hready
  apply hready
  have hsplit : ((s.txq q).skList.drop (s.txq q).batch).length +
      ((s.txq q).skList.take (s.txq q).batch).length = (s.txq q).skList.length := by
    rw [List.length_drop, List.length_take]
    omega
  rw [hsplit]
  exact hb

/-- The count is kept through a walk while the queues of sleeping stations are in use. -/
theorem Counted.hwqProcess (hc : Counted s) (hI : Inv s)
    (hqueues : ∀ i, (s.ps i).active = true → ∀ q, q.owner = some i → (s.txq q).active = true)
    (h : Hwq) : Counted (hwqProcess s h) := by
  have hsafe := (safe_visit h).and (P := fun s' => Swept s h s' ∧ Counted s') ?_
  · have hstart : Swept s h
        { s with needProcessing := Function.update s.needProcessing h false } :=
      ⟨fun _ => id, fun _ _ => rfl, fun _ => .inl rfl, fun _ => rfl, fun _ => rfl⟩
    exact (hsafe.run ⟨hI.unneeded _, hstart, hc.legacy, hc.ready⟩ (Nat.le_refl _)).2.2
  · intro s' q hI' hs' hq
    refine ⟨hs'.1.visit hI' hq, ?_⟩
    obtain ⟨hlisted, rfl⟩ := (hI'.wf.mem h q).mp hq
    obtain ⟨t, hset⟩ := sets_visit hI' hlisted
    apply hs'.2.sets hset
    cases hactive : (s'.txq q).active with
    | true => exact counts_visit hI' hactive hlisted
    | false =>
      obtain ⟨-, hflush⟩ := visit_inactive hactive hlisted
      refine ⟨by rw [hflush.same], fun i hi hsleep => ?_⟩
      rw [hs'.1.active] at hsleep
      have hin := hqueues i hsleep q hi
      have hsame : (s'.txq q).active = (s.txq q).active := by
        rcases hs'.1.inside q with hq' | hq'
        · rw [hq']
        · exact hq'.active
      rw [hsame, hin] at hactive
      cases hactive

theorem counts_txqQueueSkb (s : TxState) (q : TxqId) {skb : Skb} (retry : Bool)
    (hframes : ∀ i, q.owner = some i → (s.ps i).active = true →
      (s.txq q).Frames (s.txq q).skList) (hskb : skb ∉ (s.txq q).skList) :
    Counts s (txqQueueSkb s q skb retry).2 q := by
  obtain ⟨-, hset⟩ := sets_txqQueueSkb s q skb retry
  obtain ⟨-, -, -, -, -, hpsId, -⟩ := Txq.enqueue_keeps (s.txq q) skb retry
  refine ⟨by rw [hset.same]; exact hpsId, fun i hi hsleep p b hb => ?_⟩
  have hlen := (hframes i hi hsleep).length_enqueue hskb retry
  have hready := pktReady_countReady s hi hsleep p _ b hb
  have hps : (txqQueueSkb s q skb retry).2.ps = (countReady s q).ps := by
    unfold txqQueueSkb
    dsimp only
    split
    · split
      · rfl
      · exact ps_addToHwList _ q
    · split
      · rfl
      · exact ps_addToHwList _ q
  rw [hps, hready, hset.same, Txq.queuedUp]
  dsimp only
  rw [hlen]

/-- The queues of one station change, and what is counted for it. -/
theorem Counted.station (h : Counted s) {i : Sta}
    (hothers : ∀ q, q.owner ≠ some i → s'.txq q = s.txq q)
    (hps : ∀ j, j ≠ i → s'.ps j = s.ps j)
    (hlegacy : ∀ q, q.owner = some i → (∃ vif, q = .bcmc vif) → (s'.txq q).psId = .legacy)
    (hready : (s'.ps i).active = true → ∀ p, (s'.ps i).pktReady p = backlog s' i p % 65536) :
    Counted s' where
  legacy := by
    intro vif
    by_cases hq : TxqId.owner (.bcmc vif) = some i
    · exact hlegacy _ hq ⟨vif, rfl⟩
    · rw [hothers _ hq]
      exact h.legacy vif
  ready := by
    intro j hj p
    by_cases hji : j = i
    · subst hji
      exact hready hj p
    · have hsame : backlog s' j p = backlog s j p := by
        apply backlog_congr
        intro q hq
        apply hothers
        rw [hq]
        simpa using hji
      rw [hps j hji] at hj ⊢
      rw [hsame]
      exact h.ready j hj p

theorem foldl_ps {f : TxState → TxqId → TxState} (hf : ∀ s q, (f s q).ps = s.ps) (l : List TxqId)
    (s : TxState) : (l.foldl f s).ps = s.ps := by
  induction l generalizing s with
  | nil => rfl
  | cons q l ih => rw [List.foldl_cons, ih, hf]

theorem sum_filter (P : TxqId → Prop) [DecidablePred P] (f : TxqId → ℕ) (l : List TxqId) :
    ((l.filter fun q => P q).map f).sum = (l.map fun q => if P q then f q else 0).sum := by
  induction l with
  | nil => rfl
  | cons q l ih =>
    rw [List.map_cons, List.sum_cons, ← ih]
    by_cases hq : P q
    · rw [List.filter_cons_of_pos (by simpa using hq), if_pos hq, List.map_cons, List.sum_cons]
    · rw [List.filter_cons_of_neg (by simpa using hq), if_neg hq, Nat.zero_add]

/-- What is counted when a station goes to sleep. -/
theorem readyCount_eq (hlegacy : ∀ vif, (s.txq (.bcmc vif)).psId = .legacy) (i : Sta) (p : PsId) :
    readyCount s i p = backlog s i p % 65536 := by
  cases i with
  | bcmc vif =>
    unfold readyCount backlog Sta.txqs
    rw [List.map_singleton, List.sum_singleton, hlegacy]
    dsimp only
    by_cases hp : p = .legacy
    · rw [if_pos hp, if_pos hp.symm]
    · rw [if_neg hp, if_neg (Ne.symm hp)]
  | remote j =>
    unfold readyCount backlog
    rw [← sum_filter fun q => (s.txq q).psId = p]

theorem Counted.same (h : Counted s) (htxq : s'.txq = s.txq)
    (hps : ∀ i, (s'.ps i).active = true → (s.ps i).active = true ∧
      (s'.ps i).pktReady = (s.ps i).pktReady) : Counted s' where
  legacy := by
    intro vif
    rw [htxq]
    exact h.legacy vif
  ready := by
    intro i hi p
    obtain ⟨hold, hready⟩ := hps i hi
    rw [hready, backlog_congr p fun q _ => congrFun htxq q]
    exact h.ready i hold p

theorem Txq.stopped_same (t : Txq) (reason : StopReason) :
    (t.stopped reason).skList = t.skList ∧ (t.stopped reason).psId = t.psId := by
  unfold Txq.stopped
  split <;> exact ⟨rfl, rfl⟩

theorem Txq.psId_started (t : Txq) (reason : StopReason) : (t.started reason).psId = t.psId := by
  unfold Txq.started
  split <;> rfl

theorem Counted.start (h : Counted s) (q : TxqId) (reason : StopReason) :
    Counted (txqStart s q reason) := by
  have hset := sets_txqStart s q reason
  apply h.sets hset (hset.counts (Txq.psId_started _ _) _ fun i => by rw [ps_txqStart])
  rw [(Txq.started_same _ _).1]

theorem Counted.stop (h : Counted s) (q : TxqId) (reason : StopReason) :
    Counted (txqStop s q reason) := by
  have hset := sets_txqStop s q reason
  obtain ⟨hlist, hpsId⟩ := Txq.stopped_same (s.txq q) reason
  apply h.sets hset (hset.counts hpsId _ fun i => by rw [ps_txqStop])
  rw [hlist]

theorem Counted.creditUpdate (h : Counted s) (q : TxqId) : Counted (txqCreditUpdate s q) := by
  unfold txqCreditUpdate
  split
  · split
    · exact h.stop q .full
    · exact h.start q .full
  · exact h

theorem Counted.add (h : Counted s) (q : TxqId) : Counted (addToHwList s q) := by
  have hset := sets_addToHwList s q
  exact h.sets hset (hset.counts rfl rfl fun i => by rw [ps_addToHwList])

theorem Counted.deinit (h : Counted s) (hs : Settled s)
    (hfree : ∀ i, q.owner = some i → (s.ps i).valid = false) : Counted (txqDeinit s q) := by
  have hset := sets_txqDeinit s q
  apply h.sets hset
  refine ⟨?_, fun i hi hsleep => ?_⟩
  · rw [hset.same]
    unfold Txq.deinited
    split <;> rfl
  · have hvalid := hs.awake i hsleep
    rw [hfree i hi] at hvalid
    cases hvalid

theorem Counted.init (h : Counted s) {t : Txq} (hown : q.owner = none) :
    Counted (s.setTxq q t) where
  legacy := by
    intro vif
    have hne : TxqId.bcmc vif ≠ q := by
      rintro rfl
      cases hown
    rw [show (s.setTxq q t).txq (.bcmc vif) = s.txq (.bcmc vif) from Function.update_of_ne hne ..]
    exact h.legacy vif
  ready := by
    intro i hi p
    have hsame : backlog (s.setTxq q t) i p = backlog s i p := by
      apply backlog_congr
      intro a ha
      apply Function.update_of_ne
      rintro rfl
      rw [hown] at ha
      cases ha
    rw [hsame]
    exact h.ready i hi p

theorem Counted.xmit (h : Counted s) (hs : Settled s) {skb : Skb}
    (hskb : skb ∉ (s.txq q).skList) : Counted (xmitSection s q skb) := by
  have hin : ∀ i, (s.ps i).active = true → ∀ a, a.owner = some i → (s.txq a).active = true :=
    fun i hi => hs.queues i (hs.awake i hi)
  obtain ⟨-, hset⟩ := sets_txqQueueSkb s q skb false
  obtain ⟨hactive, -⟩ := Txq.enqueue_keeps (s.txq q) skb false
  have hact : ((s.txq q).queuedUp q.hasNdev skb false).active = (s.txq q).active := hactive
  have hcount := h.sets hset (counts_txqQueueSkb s q false
    (fun i hi hsleep => (hs.queue q (hin i hsleep q hi)).frames) hskb)
  have hI := hs.toInv.sets hset fun ha =>
    (hs.queue q (hact ▸ ha)).queuedUp hskb false (s.txq q).credits (by simp) nofun
  unfold xmitSection
  generalize txqQueueSkb s q skb false = r at hset hcount hI
  obtain ⟨b, s₁⟩ := r
  cases b with
  | false => exact hcount
  | true =>
    apply hcount.hwqProcess hI
    intro i hi a ha
    dsimp only at hset hi ⊢
    rw [hset.active] at hi
    have hold := hin i hi a ha
    by_cases hne : a = q
    · rw [hne] at hold ⊢
      rw [hset.same, hact]
      exact hold
    · rw [hset.other hne]
      exact hold

theorem Txq.Frames.started {l : List Skb} (h : t.Frames l) (reason : StopReason) :
    (t.started reason).Frames l := by
  unfold Txq.started
  split
  · exact h.congr rfl rfl rfl rfl rfl rfl
  · exact h

theorem Counted.retry (h : Counted s) {skb : Skb} (hframes : (s.txq q).Frames (s.txq q).skList)
    (hskb : skb ∉ (s.txq q).skList) : Counted (txRetry s q skb) := by
  unfold txRetry
  dsimp only
  generalize Int.bmod ((s.txq q).credits + 1) 256 = credits
  have hset := (Sets.refl s q).modify (fun t => { t with credits }) rfl
  have hcount := h.sets hset (hset.counts rfl rfl fun _ => rfl)
  have hold : Txq.Frames { s.txq q with credits } (s.txq q).skList :=
    hframes.congr rfl rfl rfl rfl rfl rfl
  by_cases hpos : 0 < credits
  · rw [if_pos hpos]
    have hstart := sets_txqStart (s.setTxq q { s.txq q with credits }) q .full
    obtain ⟨hlist, -⟩ := Txq.started_same { s.txq q with credits } .full
    apply (hcount.start q .full).sets (sets_txqQueueSkb _ q skb true).2
    apply counts_txqQueueSkb
    · intro _ _ _
      rw [hstart.same, hset.same, hlist]
      exact hold.started .full
    · rw [hstart.same, hset.same, hlist]
      exact hskb
  · rw [if_neg hpos]
    apply hcount.sets (sets_txqQueueSkb _ q skb true).2
    apply counts_txqQueueSkb
    · intro _ _ _
      rw [hset.same]
      exact hold
    · rw [hset.same]
      exact hskb

theorem Counted.confirm (h : Counted s) (hs : Settled s) (q : TxqId) {skb : Skb} {retry : Bool}
    (hretry : retry = true → skb ∉ (s.txq q).skList) : Counted (txdatacfm s q skb retry) := by
  have hset := (Sets.refl s q).modify
    (fun t => { t with pktPushed := (s.txq q).pktPushed - 1 }) rfl
  have hpushed := h.sets hset (hset.counts rfl rfl fun _ => rfl)
  have hneed : Counted { s.setTxq q { s.txq q with pktPushed := (s.txq q).pktPushed - 1 } with
      needProcessing := Function.update s.needProcessing q.hwq true } :=
    hpushed.same rfl fun _ hi => ⟨hi, rfl⟩
  unfold txdatacfm txqConfirmAny settleSkb
  dsimp only
  split
  · next hc =>
    have hskb := hretry hc.2.2
    have hactive : (s.txq q).active = true := by
      have ha := hc.2.1
      rw [hset.same] at ha
      exact ha
    have hframes := (hs.queue q hactive).frames
    apply hneed.retry
    · dsimp only
      rw [hset.same]
      exact hframes.congr rfl rfl rfl rfl rfl rfl
    · dsimp only
      rw [hset.same]
      exact hskb
  · split
    · exact hneed.add q
    · exact hneed

theorem Counted.staInit (h : Counted s) (i : Sta) (stop : List StopReason)
    (uapsdTids : BitVec 16) (tdls mesh : Bool) (hs : Settled s)
    (hfree : ∀ q ∈ i.txqs, (s.txq q).active = false) :
    Counted (txqStaInit s i stop uapsdTids tdls mesh) := by
  let p : Ps := { s.ps i with valid := true, active := false, tdlsActive := tdls, mesh }
  obtain ⟨hkeeps, htxq⟩ := foldl_sets (s := s.setPs i p)
    (f := fun s q => s.setTxq q (txqInit stop (psIdOf uapsdTids q)))
    (g := fun q _ => txqInit stop (psIdOf uapsdTids q)) (P := fun t => t.inHwqList = false)
    (fun s q _ hq => sets_setTxq s hq.symm) (nodup_txqs i)
    fun q hq => hs.flag (hfree q hq)
  have hps := foldl_ps (f := fun s q => s.setTxq q (txqInit stop (psIdOf uapsdTids q)))
    (fun _ _ => rfl) i.txqs (s.setPs i p)
  apply h.station
  · intro q hq
    exact (htxq q).trans (if_neg fun hmem => hq ((mem_txqs i q).mp hmem))
  · intro j hj
    exact (congrFun hps j).trans (ps_setPs_other s p hj)
  · rintro q hq ⟨vif, rfl⟩
    rw [show (txqStaInit s i stop uapsdTids tdls mesh).txq (.bcmc vif) =
      txqInit stop (psIdOf uapsdTids (.bcmc vif)) from
      (htxq _).trans (if_pos ((mem_txqs i _).mpr hq))]
    rfl
  · intro hi
    have hoff := hkeeps.active i
    rw [ps_setPs_same] at hoff
    exact absurd (hoff.symm.trans hi) (by simp [p])

theorem Counted.psEnable (h : Counted s) (i : Sta) : Counted (psBhEnable s i true) := by
  let p : Ps := { s.ps i with active := true, spCnt := fun _ => 0 }
  obtain ⟨-, htxq⟩ := foldl_sets (s := s.setPs i p) (f := fun s q => txqStop s q .staPs)
    (g := fun _ t => t.stopped .staPs) (P := fun _ => True)
    (fun s q _ _ => sets_txqStop s q .staPs) (nodup_txqs i) fun _ _ => trivial
  have hps := foldl_ps (f := fun s q => txqStop s q .staPs)
    (fun s q => ps_txqStop s q .staPs) i.txqs (s.setPs i p)
  have hlegacy : ∀ vif, ((i.txqs.foldl (fun s q => txqStop s q .staPs) (s.setPs i p)).txq
      (.bcmc vif)).psId = .legacy := by
    intro vif
    rw [htxq]
    split
    · rw [(Txq.stopped_same _ _).2]
      exact h.legacy vif
    · exact h.legacy vif
  unfold psBhEnable
  rw [if_pos rfl]
  apply h.station
  · intro q hq
    exact (htxq q).trans (if_neg fun hmem => hq ((mem_txqs i q).mp hmem))
  · intro j hj
    exact (ps_setPs_other _ _ hj).trans ((congrFun hps j).trans (ps_setPs_other s p hj))
  · rintro q _ ⟨vif, rfl⟩
    exact hlegacy vif
  · intro _ p'
    rw [ps_setPs_same]
    exact readyCount_eq hlegacy i p'

/-- A station that does not sleep has nothing counted. -/
theorem Counted.awake (h : Counted s) {i : Sta}
    (hothers : ∀ q, q.owner ≠ some i → s'.txq q = s.txq q)
    (hpsId : ∀ q, (s'.txq q).psId = (s.txq q).psId) (hps : ∀ j, j ≠ i → s'.ps j = s.ps j)
    (hi : (s'.ps i).active = false) : Counted s' := by
  apply h.station hothers hps
  · rintro q _ ⟨vif, rfl⟩
    rw [hpsId]
    exact h.legacy vif
  · intro hon
    rw [hi] at hon
    cases hon

theorem Counted.psDisable (h : Counted s) (i : Sta) : Counted (psBhEnable s i false) := by
  let p : Ps := { s.ps i with active := false }
  obtain ⟨-, ht₁⟩ := foldl_sets (s := s.setPs i p)
    (f := fun s q => s.setTxq q { s.txq q with pushLimit := 0 })
    (g := fun _ t => { t with pushLimit := 0 }) (P := fun _ => True)
    (fun s q _ _ => (Sets.refl s q).modify (fun t => { t with pushLimit := 0 }) rfl)
    (nodup_txqs i) fun _ _ => trivial
  obtain ⟨-, ht₂⟩ := foldl_sets (s := i.txqs.foldl
      (fun s q => s.setTxq q { s.txq q with pushLimit := 0 }) (s.setPs i p))
    (f := fun s q => txqStart s q .staPs)
    (g := fun _ t => t.started .staPs) (P := fun _ => True)
    (fun s q _ _ => sets_txqStart s q .staPs) (nodup_txqs i) fun _ _ => trivial
  have hps := (foldl_ps (f := fun s q => txqStart s q .staPs)
    (fun s q => ps_txqStart s q .staPs) i.txqs _).trans
    (foldl_ps (f := fun s q => s.setTxq q { s.txq q with pushLimit := 0 }) (fun _ _ => rfl)
      i.txqs (s.setPs i p))
  have hdone : Counted (i.txqs.foldl (fun s q => txqStart s q .staPs) (i.txqs.foldl
      (fun s q => s.setTxq q { s.txq q with pushLimit := 0 }) (s.setPs i p))) := by
    apply h.awake (i := i)
    · intro q hq
      have hmem : q ∉ i.txqs := fun hm => hq ((mem_txqs i q).mp hm)
      rw [ht₂, ht₁, if_neg hmem, if_neg hmem]
      rfl
    · intro q
      rw [ht₂, ht₁]
      split
      · exact Txq.psId_started _ _
      · rfl
    · intro j hj
      exact (congrFun hps j).trans (ps_setPs_other s p hj)
    · rw [congrFun hps i, ps_setPs_same]
  unfold psBhEnable
  rw [if_neg (by simp)]
  dsimp only
  split
  · exact hdone.same rfl fun _ hi => ⟨hi, rfl⟩
  · exact hdone

theorem ready_grant (s : TxState) (i : Sta) (q : TxqId) (n : ℕ) (j : Sta) :
    ((grant s i q n).ps j).pktReady = (s.ps j).pktReady := by
  unfold TxSched.grant
  dsimp only
  rw [ps_addToHwList]
  by_cases hj : j = i
  · rw [hj, ps_setPs_same]
    rfl
  · rw [ps_setPs_other _ _ hj]
    rfl

theorem Counted.grant (h : Counted s) {i : Sta} {q : TxqId} (hi : q.owner = some i) (n : ℕ) :
    Counted (grant s i q n) := by
  have hset := sets_grant s hi n
  exact h.sets hset (hset.counts rfl rfl (ready_grant s i q n))

theorem Counted.dispatch (h : Counted s) (j : Fin 32) (p : PsId) (tids : List (Fin 9)) (req : ℕ) :
    Counted (dispatch j p tids req s) := by
  induction tids generalizing s req with
  | nil => exact h
  | cons tid tids ih =>
    rw [TxSched.dispatch]
    have hown : TxqId.owner (.sta j tid) = some (.remote j) := rfl
    generalize (if (s.txq (.sta j tid)).credits <
      (((s.txq (.sta j tid)).skList.length % 65536 : ℕ) : ℤ)
      then u16 (s.txq (.sta j tid)).credits
      else (s.txq (.sta j tid)).skList.length % 65536) = len
    split
    · exact ih h req
    · split
      · exact ih (h.grant hown _) _
      · exact h.grant hown _

theorem Counted.trafficReq (h : Counted s) (i : Sta) (pktReq : ℕ) (p : PsId) :
    Counted (psBhTrafficReq s i pktReq p) := by
  unfold psBhTrafficReq
  split
  · exact h
  · split
    · let ps : Ps := { s.ps i with spCnt := Function.update (s.ps i).spCnt p 0 }
      obtain ⟨-, ht⟩ := foldl_sets (s := s.setPs i ps)
        (f := fun s q => s.setTxq q { s.txq q with pushLimit := 0 })
        (g := fun _ t => { t with pushLimit := 0 }) (P := fun _ => True)
        (fun s q _ _ => (Sets.refl s q).modify (fun t => { t with pushLimit := 0 }) rfl)
        (nodup_txqs i) fun _ _ => trivial
      have hps := foldl_ps (f := fun s q => s.setTxq q { s.txq q with pushLimit := 0 })
        (fun _ _ => rfl) i.txqs (s.setPs i ps)
      apply h.station (i := i)
      · intro q hq
        exact (ht q).trans (if_neg fun hmem => hq ((mem_txqs i q).mp hmem))
      · intro j hj
        exact (congrFun hps j).trans (ps_setPs_other s ps hj)
      · rintro q hq ⟨vif, rfl⟩
        rw [show _ = { s.txq (.bcmc vif) with pushLimit := 0 } from
          (ht _).trans (if_pos ((mem_txqs i _).mpr hq))]
        exact h.legacy vif
      · intro hi p'
        have hsame := congrFun hps i
        rw [ps_setPs_same] at hsame
        rw [hsame] at hi ⊢
        refine (h.ready i hi p').trans (congrArg (· % 65536) (sum_map_congr fun q _ => ?_))
        rw [show _ = if q ∈ i.txqs then { s.txq q with pushLimit := 0 } else s.txq q from ht q]
        split <;> rfl
    · split
      · exact h
      · cases i with
        | remote j => exact h.dispatch j p nxTidPrio _
        | bcmc vif => exact h.grant rfl _

theorem Counted.hwqProcessAll (h : Counted s) (hs : Settled s) : Counted (hwqProcessAll s) := by
  -- Each hardware queue needs both invariants of the one before it.
  have hstep : ∀ s k, Settled s ∧ Counted s →
      Settled (if s.bug = false ∧ s.needProcessing k = true then TxSched.hwqProcess s k else s) ∧
      Counted
        (if s.bug = false ∧ s.needProcessing k = true then TxSched.hwqProcess s k else s) := by
    intro s k ⟨hs, hc⟩
    split
    · exact ⟨hs.hwqProcess k, hc.hwqProcess hs.toInv (fun i hi => hs.queues i (hs.awake i hi)) k⟩
    · exact ⟨hs, hc⟩
  exact (hstep _ _ (hstep _ _ (hstep _ _ (hstep _ _ ⟨hs, h⟩)))).2

end NervesSystem.TxSched
