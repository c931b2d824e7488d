import NervesSystem.TxQueue

namespace NervesSystem.TxSched

open SafeWalk
open FrameQueue (u16Inc u16Dec)

/-- The frames still to be pushed: first those to be sent again, in the order in which they came
back, then the others in the order in which they were queued. -/
structure Txq.Frames (t : Txq) (l : List Skb) : Prop where
  retries : t.nbRetry ≤ l.length
  last : t.lastRetrySkb = (l.take t.nbRetry).getLast?
  fresh : t.queued = t.sent ++ l.drop t.nbRetry
  again : t.requeued = t.resent ++ l.take t.nbRetry
  nodup : l.Nodup

/-- What a push leaves as it is. -/
structure Txq.Same (t t' : Txq) : Prop where
  active : t'.active = t.active
  inHwqList : t'.inHwqList = t.inHwqList
  stop : t'.stop = t.stop
  ndevFlowCtrl : t'.ndevFlowCtrl = t.ndevFlowCtrl
  credits : t'.credits = t.credits
  skList : t'.skList = t.skList
  psId : t'.psId = t.psId
  queued : t'.queued = t.queued
  requeued : t'.requeued = t.requeued

theorem Txq.same_push (t : Txq) (skb : Skb) : t.Same (t.push skb) := by
  unfold Txq.push
  split <;> exact ⟨rfl, rfl, rfl, rfl, rfl, rfl, rfl, rfl, rfl⟩

theorem Txq.Same.trans {t t' t'' : Txq} (h : t.Same t') (h' : t'.Same t'') : t.Same t'' :=
  ⟨h'.active.trans h.active, h'.inHwqList.trans h.inHwqList, h'.stop.trans h.stop,
    h'.ndevFlowCtrl.trans h.ndevFlowCtrl, h'.credits.trans h.credits, h'.skList.trans h.skList,
    h'.psId.trans h.psId, h'.queued.trans h.queued, h'.requeued.trans h.requeued⟩

theorem Txq.same_foldl_push (t : Txq) (out : List Skb) : t.Same (out.foldl Txq.push t) := by
  induction out generalizing t with
  | nil => exact ⟨rfl, rfl, rfl, rfl, rfl, rfl, rfl, rfl, rfl⟩
  | cons x out ih => exact (t.same_push x).trans (ih (t.push x))

theorem Txq.pushLimit_push (t : Txq) (skb : Skb) : (t.push skb).pushLimit = t.pushLimit - 1 := by
  unfold Txq.push
  split <;> rfl

theorem Txq.pushLimit_foldl_push (t : Txq) (out : List Skb) :
    (out.foldl Txq.push t).pushLimit = t.pushLimit - out.length := by
  induction out generalizing t with
  | nil => rfl
  | cons x out ih =>
    rw [List.foldl_cons, ih, Txq.pushLimit_push, List.length_cons]
    omega

theorem Txq.Frames.expected {t : Txq} {x : Skb} {l : List Skb} (h : t.Frames (x :: l))
    (hone : t.nbRetry = 1) : t.lastRetrySkb = some x := by
  rw [h.last, hone]
  rfl

theorem Txq.Frames.push {t : Txq} {x : Skb} {l : List Skb} (h : t.Frames (x :: l)) :
    (t.push x).Frames l := by
  have hretries := h.retries
  have hlast := h.last
  have hfresh := h.fresh
  have hagain := h.again
  unfold Txq.push
  cases hnb : t.nbRetry with
  | zero =>
    rw [hnb] at hlast hfresh hagain
    rw [if_neg (by simp)]
    refine ⟨by simp, by simp [hlast], ?_, by simpa using hagain, (List.nodup_cons.mp h.nodup).2⟩
    simpa using hfresh
  | succ k =>
    rw [hnb, List.take_succ_cons] at hlast hagain
    rw [hnb, List.drop_succ_cons] at hfresh
    rw [hnb, List.length_cons] at hretries
    rw [if_pos (by omega)]
    refine ⟨?_, ?_, hfresh, ?_, (List.nodup_cons.mp h.nodup).2⟩
    · dsimp only
      omega
    · dsimp only
      cases k with
      | zero => simp
      | succ k =>
        have hne : l.take (k + 1) ≠ [] := by
          intro hnil
          rw [List.take_eq_nil_iff] at hnil
          rcases hnil with h0 | h0
          · omega
          · rw [h0, List.length_nil] at hretries
            omega
        rw [if_neg (by omega), hlast, Nat.add_sub_cancel, List.getLast?_cons,
          List.getLast?_eq_some_getLast hne]
        rfl
    · dsimp only
      rw [hagain, List.append_assoc]
      rfl

theorem Txq.Frames.foldl_push {t : Txq} {out l : List Skb} (h : t.Frames (out ++ l)) :
    (out.foldl Txq.push t).Frames l := by
  induction out generalizing t with
  | nil => exact h
  | cons x out ih => exact ih h.push

/-- The list itself is not part of what is said of the frames. -/
theorem Txq.Frames.congr {t t' : Txq} {l : List Skb} (h : t.Frames l)
    (hnb : t'.nbRetry = t.nbRetry) (hlast : t'.lastRetrySkb = t.lastRetrySkb)
    (hqueued : t'.queued = t.queued) (hsent : t'.sent = t.sent)
    (hrequeued : t'.requeued = t.requeued) (hresent : t'.resent = t.resent) : t'.Frames l := by
  refine ⟨?_, ?_, ?_, ?_, h.nodup⟩
  · rw [hnb]
    exact h.retries
  · rw [hnb, hlast]
    exact h.last
  · rw [hnb, hqueued, hsent]
    exact h.fresh
  · rw [hnb, hrequeued, hresent]
    exact h.again

theorem skbAppend_after {r f : List Skb} {last : Skb} (new : Skb) (hnodup : (r ++ f).Nodup)
    (hlast : r.getLast? = some last) : skbAppend last new (r ++ f) = r ++ new :: f := by
  induction r with
  | nil => cases hlast
  | cons x r ih =>
    rw [List.cons_append, List.nodup_cons] at hnodup
    cases r with
    | nil =>
      cases hlast
      simp [skbAppend]
    | cons y r =>
      have hmem : last ∈ y :: r := List.mem_of_getLast? hlast
      have hne : x ≠ last := by
        rintro rfl
        exact hnodup.1 (List.mem_append_left _ hmem)
      rw [List.cons_append, skbAppend, if_neg hne, ih hnodup.2 hlast]
      rfl

theorem Txq.Frames.enqueue_new {t : Txq} {skb : Skb} (h : t.Frames t.skList)
    (hskb : skb ∉ t.skList) : (t.enqueue skb false).Frames (t.skList ++ [skb]) := by
  have hretries := h.retries
  rw [Txq.enqueue, if_neg (by simp)]
  refine ⟨?_, ?_, ?_, ?_, List.nodup_append.mpr ⟨h.nodup, List.nodup_singleton skb, ?_⟩⟩
  · dsimp only
    rw [List.length_append]
    omega
  · dsimp only
    rw [List.take_append_of_le_length hretries, h.last]
  · dsimp only
    rw [List.drop_append_of_le_length hretries, h.fresh, List.append_assoc]
  · dsimp only
    rw [List.take_append_of_le_length hretries, h.again]
  · intro a ha b hb hab
    rw [List.mem_singleton] at hb
    exact hskb (hb ▸ hab ▸ ha)

theorem Txq.Frames.enqueue_retry {t : Txq} {skb : Skb} (h : t.Frames t.skList)
    (hskb : skb ∉ t.skList) :
    (t.enqueue skb true).skList = t.skList.take t.nbRetry ++ skb :: t.skList.drop t.nbRetry ∧
      (t.enqueue skb true).Frames (t.enqueue skb true).skList := by
  have hretries := h.retries
  have hlast := h.last
  have hsplit := List.take_append_drop t.nbRetry t.skList
  have hlist : (t.enqueue skb true).skList =
      t.skList.take t.nbRetry ++ skb :: t.skList.drop t.nbRetry := by
    rw [Txq.enqueue, if_pos rfl]
    dsimp only
    cases hr : t.lastRetrySkb with
    | none =>
      rw [hr] at hlast
      have hnil := List.getLast?_eq_none_iff.mp hlast.symm
      rw [hnil, List.nil_append] at hsplit
      rw [hnil, List.nil_append, hsplit]
    | some last =>
      rw [hr] at hlast
      have hnodup : (t.skList.take t.nbRetry ++ t.skList.drop t.nbRetry).Nodup := by
        rw [hsplit]
        exact h.nodup
      have happend := skbAppend_after skb hnodup hlast.symm
      rw [hsplit] at happend
      exact happend
  have hlen : (t.skList.take t.nbRetry ++ [skb]).length = t.nbRetry + 1 := by
    rw [List.length_append, List.length_take, List.length_singleton]
    omega
  have hcat : (t.enqueue skb true).skList =
      (t.skList.take t.nbRetry ++ [skb]) ++ t.skList.drop t.nbRetry := by
    rw [hlist, List.append_assoc]
    rfl
  have htake : (t.enqueue skb true).skList.take (t.nbRetry + 1) =
      t.skList.take t.nbRetry ++ [skb] := by
    rw [hcat, List.take_append_of_le_length (Nat.le_of_eq hlen.symm), List.take_of_length_le]
    exact Nat.le_of_eq hlen
  have hdrop : (t.enqueue skb true).skList.drop (t.nbRetry + 1) = t.skList.drop t.nbRetry := by
    rw [hcat, ← hlen, List.drop_left]
  have hnb : (t.enqueue skb true).nbRetry = t.nbRetry + 1 := by
    rw [Txq.enqueue, if_pos rfl]
  refine ⟨hlist, ?_, ?_, ?_, ?_, ?_⟩
  · rw [hnb, hcat, List.length_append, hlen]
    omega
  · rw [hnb, htake, Txq.enqueue, if_pos rfl, List.getLast?_append]
    rfl
  · rw [hnb, hdrop, Txq.enqueue, if_pos rfl]
    exact h.fresh
  · rw [hnb, htake, Txq.enqueue, if_pos rfl]
    dsimp only
    rw [h.again, List.append_assoc]
  · rw [hlist]
    apply (List.perm_middle).nodup_iff.mpr
    rw [hsplit]
    exact List.nodup_cons.mpr ⟨hskb, h.nodup⟩

variable {s s' s'' : TxState} {q : TxqId} {t t' : Txq} {ndev asleep : Bool}

/-- The list of a hardware queue has the queues that are flagged as listed, each once. -/
structure Wf (s : TxState) : Prop where
  mem : ∀ h q, q ∈ s.hwqList h ↔ (s.txq q).inHwqList = true ∧ q.hwq = h
  nodup : ∀ h, (s.hwqList h).Nodup

/-- The state differs in one queue only, and in what its hardware queue and its station hold. -/
structure Sets (s s' : TxState) (q : TxqId) (t : Txq) : Prop where
  txq : s'.txq = Function.update s.txq q t
  wf : Wf s → Wf s'
  lists : ∀ h, h ≠ q.hwq → s'.hwqList h = s.hwqList h
  active : ∀ i, (s'.ps i).active = (s.ps i).active
  valid : ∀ i, (s'.ps i).valid = (s.ps i).valid
  station : ∀ i, q.owner ≠ some i → s'.ps i = s.ps i
  bug : s'.bug = s.bug
  warned : s'.warned = s.warned
  need : ∀ h, s.needProcessing h = true → s'.needProcessing h = true

theorem Sets.same (h : Sets s s' q t) : s'.txq q = t := by
  rw [h.txq, Function.update_self]

theorem Sets.other (h : Sets s s' q t) {q' : TxqId} (hne : q' ≠ q) : s'.txq q' = s.txq q' := by
  rw [h.txq, Function.update_of_ne hne]

theorem Sets.trans (h : Sets s s' q t) (h' : Sets s' s'' q t') : Sets s s'' q t' where
  txq := by
    rw [h'.txq, h.txq]
    apply Function.update_idem
  wf := fun hw => h'.wf (h.wf hw)
  lists := fun k hk => (h'.lists k hk).trans (h.lists k hk)
  active := fun i => (h'.active i).trans (h.active i)
  valid := fun i => (h'.valid i).trans (h.valid i)
  station := fun i hi => (h'.station i hi).trans (h.station i hi)
  bug := h'.bug.trans h.bug
  warned := h'.warned.trans h.warned
  need := fun k hk => h'.need k (h.need k hk)

theorem Sets.refl (s : TxState) (q : TxqId) : Sets s s q (s.txq q) where
  txq := (Function.update_eq_self q s.txq).symm
  wf := id
  lists := fun _ _ => rfl
  active := fun _ => rfl
  valid := fun _ => rfl
  station := fun _ _ => rfl
  bug := rfl
  warned := rfl
  need := fun _ => id

theorem wf_congr (h : Wf s) (hlist : s'.hwqList = s.hwqList)
    (hflag : ∀ q, (s'.txq q).inHwqList = (s.txq q).inHwqList) : Wf s' := by
  refine ⟨fun k q => ?_, fun k => ?_⟩
  · rw [hlist, hflag]
    exact h.mem k q
  · rw [hlist]
    exact h.nodup k

theorem flag_update (ht : t.inHwqList = (s.txq q).inHwqList) (q' : TxqId) :
    (Function.update s.txq q t q').inHwqList = (s.txq q').inHwqList := by
  by_cases hq : q' = q
  · rw [hq, Function.update_self, ht]
  · rw [Function.update_of_ne hq]

theorem sets_setTxq (s : TxState) (ht : t.inHwqList = (s.txq q).inHwqList) :
    Sets s (s.setTxq q t) q t where
  txq := rfl
  wf := fun hw => wf_congr hw rfl (flag_update ht)
  lists := fun _ _ => rfl
  active := fun _ => rfl
  valid := fun _ => rfl
  station := fun _ _ => rfl
  bug := rfl
  warned := rfl
  need := fun _ => id

theorem listed_iff (h : Wf s) : q ∈ s.hwqList q.hwq ↔ (s.txq q).inHwqList = true := by
  rw [h.mem, and_iff_left rfl]

theorem sets_addToHwList (s : TxState) (q : TxqId) :
    Sets s (addToHwList s q) q { s.txq q with inHwqList := true } := by
  unfold addToHwList
  split
  · next hflag =>
    have hself : ({ s.txq q with inHwqList := true } : Txq) = s.txq q := by rw [← hflag]
    rw [hself]
    exact .refl s q
  · next hflag =>
    refine ⟨rfl, fun hw => ⟨fun k q' => ?_, fun k => ?_⟩, fun k hk => ?_, fun _ => rfl,
      fun _ => rfl, fun _ _ => rfl, rfl, rfl, fun k hk => ?_⟩
    · dsimp only [TxState.setTxq, TxState.setList]
      by_cases hq : q' = q
      · subst hq
        rw [Function.update_self]
        by_cases hk : k = q'.hwq
        · subst hk
          rw [Function.update_self]
          simp
        · rw [Function.update_of_ne hk, hw.mem]
          simp [hflag, Ne.symm hk]
      · rw [Function.update_of_ne hq]
        by_cases hk : k = q.hwq
        · subst hk
          rw [Function.update_self, ← hw.mem]
          simp [hq]
        · rw [Function.update_of_ne hk, hw.mem]
    · dsimp only [TxState.setTxq, TxState.setList]
      by_cases hk : k = q.hwq
      · subst hk
        rw [Function.update_self]
        apply List.nodup_append.mpr
        refine ⟨hw.nodup _, List.nodup_singleton q, ?_⟩
        intro a ha b hb hab
        rw [List.mem_singleton] at hb
        rw [hab, hb, listed_iff hw] at ha
        exact hflag ha
      · rw [Function.update_of_ne hk]
        exact hw.nodup k
    · dsimp only [TxState.setTxq, TxState.setList]
      exact Function.update_of_ne hk _ _
    · dsimp only [TxState.setTxq, TxState.setList]
      by_cases hq : k = q.hwq
      · rw [hq, Function.update_self]
      · rw [Function.update_of_ne hq]
        exact hk

theorem sets_delFromHwList (s : TxState) (q : TxqId) :
    Sets s (delFromHwList s q) q { s.txq q with inHwqList := false } := by
  unfold delFromHwList
  split
  · next hflag =>
    refine ⟨rfl, fun hw => ⟨fun k q' => ?_, fun k => ?_⟩, fun k hk => ?_, fun _ => rfl,
      fun _ => rfl, fun _ _ => rfl, rfl, rfl, fun _ => id⟩
    · dsimp only [TxState.setTxq, TxState.setList]
      by_cases hk : k = q.hwq
      · subst hk
        rw [Function.update_self, (hw.nodup _).mem_erase_iff, hw.mem]
        by_cases hq : q' = q
        · rw [hq, Function.update_self]
          simp
        · rw [Function.update_of_ne hq]
          simp [hq]
      · rw [Function.update_of_ne hk, hw.mem]
        by_cases hq : q' = q
        · rw [hq]
          simp [Ne.symm hk]
        · rw [Function.update_of_ne hq]
    · dsimp only [TxState.setTxq, TxState.setList]
      by_cases hk : k = q.hwq
      · subst hk
        rw [Function.update_self]
        exact (hw.nodup _).erase q
      · rw [Function.update_of_ne hk]
        exact hw.nodup k
    · dsimp only [TxState.setTxq, TxState.setList]
      exact Function.update_of_ne hk _ _
  · next hflag =>
    have hself : ({ s.txq q with inHwqList := false } : Txq) = s.txq q := by
      rw [← Bool.eq_false_iff.mpr hflag]
    rw [hself]
    exact .refl s q

theorem Sets.modify (h : Sets s s' q t) (g : Txq → Txq) (hg : (g t).inHwqList = t.inHwqList) :
    Sets s (s'.setTxq q (g (s'.txq q))) q (g t) := by
  have hset := h.trans (sets_setTxq (q := q) s' (t := g (s'.txq q)) (by rw [h.same, hg]))
  rw [h.same] at hset ⊢
  exact hset

theorem Sets.add (h : Sets s s' q t) :
    Sets s (addToHwList s' q) q { t with inHwqList := true } := by
  have hadd := h.trans (sets_addToHwList s' q)
  rw [h.same] at hadd
  exact hadd

theorem Sets.del (h : Sets s s' q t) :
    Sets s (delFromHwList s' q) q { t with inHwqList := false } := by
  have hdel := h.trans (sets_delFromHwList s' q)
  rw [h.same] at hdel
  exact hdel

def Txq.started (t : Txq) (reason : StopReason) : Txq :=
  if t.active = true ∧ reason ∈ t.stop then
    { t with
      stop := t.stop.filter (· ≠ reason)
      inHwqList := t.inHwqList ||
        ((t.stop.filter (· ≠ reason)).isEmpty && !t.skList.isEmpty) }
  else t

def Txq.stopped (t : Txq) (reason : StopReason) : Txq :=
  if t.active then { t with stop := t.stop.insert reason, inHwqList := false } else t

def Txq.deinited (t : Txq) : Txq :=
  if t.active then { t with inHwqList := false, active := false, skList := [] } else t

def Txq.queuedUp (t : Txq) (ndev : Bool) (skb : Skb) (retry : Bool) : Txq :=
  { t.enqueue skb retry with
    ndevFlowCtrl := t.ndevFlowCtrl ||
      (ndev && decide (ndevFlowCtrlStop < (t.enqueue skb retry).skList.length))
    inHwqList := t.inHwqList || t.stop.isEmpty }

theorem sets_txqStart (s : TxState) (q : TxqId) (reason : StopReason) :
    Sets s (txqStart s q reason) q ((s.txq q).started reason) := by
  unfold txqStart Txq.started
  split
  · have hset := (Sets.refl s q).modify
      (fun t => { t with stop := t.stop.filter (· ≠ reason) }) rfl
    have hstopped : Txq.isStopped { s.txq q with stop := (s.txq q).stop.filter (· ≠ reason) } =
        !((s.txq q).stop.filter (· ≠ reason)).isEmpty := rfl
    simp only [hset.same, hstopped]
    split
    · next hrun =>
      have hstop : ((s.txq q).stop.filter (· ≠ reason)).isEmpty = true := by
        simpa using hrun.1
      have hlist : (s.txq q).skList.isEmpty = false := by simpa using hrun.2
      rw [hstop, hlist, Bool.not_false, Bool.and_self, Bool.or_true]
      exact hset.add
    · next hrun =>
      have hoff : (((s.txq q).stop.filter (· ≠ reason)).isEmpty && !(s.txq q).skList.isEmpty)
          = false := by
        by_contra hne
        apply hrun
        simpa using hne
      rw [hoff, Bool.or_false]
      exact hset
  · exact .refl s q

theorem sets_txqStop (s : TxState) (q : TxqId) (reason : StopReason) :
    Sets s (txqStop s q reason) q ((s.txq q).stopped reason) := by
  unfold txqStop Txq.stopped
  split
  · exact ((Sets.refl s q).modify (fun t => { t with stop := t.stop.insert reason }) rfl).del
  · exact .refl s q

theorem sets_txqDeinit (s : TxState) (q : TxqId) :
    Sets s (txqDeinit s q) q (s.txq q).deinited := by
  unfold txqDeinit Txq.deinited
  split
  · have hoff := (Sets.refl s q).del.modify (fun t => { t with active := false }) rfl
    exact hoff.modify (fun t => { t with skList := [] }) rfl
  · exact .refl s q

theorem sets_setPs (s : TxState) (q : TxqId) {i : Sta} {p : Ps} (hi : q.owner = some i)
    (hactive : p.active = (s.ps i).active) (hvalid : p.valid = (s.ps i).valid) :
    Sets s (s.setPs i p) q (s.txq q) where
  txq := (Function.update_eq_self q s.txq).symm
  wf := fun hw => wf_congr hw rfl fun _ => rfl
  lists := fun _ _ => rfl
  active := fun j => by
    dsimp only [TxState.setPs]
    by_cases hj : j = i
    · rw [hj, Function.update_self, hactive]
    · rw [Function.update_of_ne hj]
  valid := fun j => by
    dsimp only [TxState.setPs]
    by_cases hj : j = i
    · rw [hj, Function.update_self, hvalid]
    · rw [Function.update_of_ne hj]
  station := fun j hj => by
    dsimp only [TxState.setPs]
    apply Function.update_of_ne
    rintro rfl
    exact hj hi
  bug := rfl
  warned := rfl
  need := fun _ => id

theorem sets_setTrafficStatus (s : TxState) (q : TxqId) (i : Sta) (available : Bool) (p : PsId) :
    Sets s (setTrafficStatus s i available p) q (s.txq q) :=
  have h := Sets.refl s q
  ⟨h.txq, fun hw => wf_congr hw rfl fun _ => rfl, h.lists, h.active, h.valid, h.station, h.bug,
    h.warned, h.need⟩

theorem sets_countReady (s : TxState) (q : TxqId) : Sets s (countReady s q) q (s.txq q) := by
  unfold countReady
  cases hi : q.owner with
  | none => exact .refl s q
  | some i =>
    dsimp only
    split
    · have hps := sets_setPs s q (p := { s.ps i with
        pktReady := Function.update (s.ps i).pktReady (s.txq q).psId
          (u16Inc ((s.ps i).pktReady (s.txq q).psId)) }) hi rfl rfl
      split
      · exact hps.trans (sets_setTrafficStatus _ q i true _)
      · exact hps
    · exact .refl s q

theorem Txq.enqueue_keeps (t : Txq) (skb : Skb) (retry : Bool) :
    (t.enqueue skb retry).active = t.active ∧ (t.enqueue skb retry).stop = t.stop ∧
      (t.enqueue skb retry).inHwqList = t.inHwqList ∧
      (t.enqueue skb retry).ndevFlowCtrl = t.ndevFlowCtrl ∧
      (t.enqueue skb retry).credits = t.credits ∧ (t.enqueue skb retry).psId = t.psId ∧
      (t.enqueue skb retry).pushLimit = t.pushLimit := by
  unfold Txq.enqueue
  split <;> exact ⟨rfl, rfl, rfl, rfl, rfl, rfl, rfl⟩

theorem sets_txqQueueSkb (s : TxState) (q : TxqId) (skb : Skb) (retry : Bool) :
    (txqQueueSkb s q skb retry).1 = (s.txq q).stop.isEmpty ∧
      Sets s (txqQueueSkb s q skb retry).2 q ((s.txq q).queuedUp q.hasNdev skb retry) := by
  obtain ⟨-, hstop, hflag, hflow, -⟩ := Txq.enqueue_keeps (s.txq q) skb retry
  let flowed : Txq → Txq := fun t =>
    if q.hasNdev ∧ ndevFlowCtrlStop < (t.enqueue skb retry).skList.length then
      { t.enqueue skb retry with ndevFlowCtrl := true }
    else t.enqueue skb retry
  have hflowed : flowed (s.txq q) = { (s.txq q).enqueue skb retry with
      ndevFlowCtrl := (s.txq q).ndevFlowCtrl || (q.hasNdev &&
        decide (ndevFlowCtrlStop < ((s.txq q).enqueue skb retry).skList.length)) } := by
    dsimp only [flowed]
    split
    · next hc => simp [hc.1, hc.2]
    · next hc =>
      have hoff : (q.hasNdev &&
          decide (ndevFlowCtrlStop < ((s.txq q).enqueue skb retry).skList.length)) = false := by
        by_contra hne
        apply hc
        simpa using hne
      rw [hoff, Bool.or_false, ← hflow]
  have hset := (sets_countReady s q).modify flowed (by rw [hflowed]; exact hflag)
  have hstopped : (flowed (s.txq q)).isStopped = !(s.txq q).stop.isEmpty := by
    rw [hflowed, Txq.isStopped, hstop]
  have hq : txqQueueSkb s q skb retry =
      if (flowed (s.txq q)).isStopped then
        (false, (countReady s q).setTxq q (flowed ((countReady s q).txq q)))
      else
        (true, addToHwList ((countReady s q).setTxq q (flowed ((countReady s q).txq q))) q) := by
    rw [← hset.same]
    rfl
  rw [hq, hstopped, Txq.queuedUp]
  cases hempty : (s.txq q).stop.isEmpty with
  | true =>
    rw [if_neg (by simp), Bool.or_true]
    have hadd := hset.add
    rw [hflowed] at hadd
    exact ⟨rfl, hadd⟩
  | false =>
    rw [if_pos (by simp), Bool.or_false, ← hflag]
    rw [hflowed] at hset
    exact ⟨rfl, hset⟩

theorem sets_setMoreDataFlag (s : TxState) (q : TxqId) :
    Sets s (setMoreDataFlag s q).2 q (s.txq q) := by
  unfold setMoreDataFlag
  cases hi : q.owner with
  | none => exact .refl s q
  | some i =>
    dsimp only
    split
    · split
      · exact sets_setPs s q hi rfl rfl
      · refine (sets_setPs s q hi ?_ ?_).trans (sets_setTrafficStatus _ q i false _) <;> rfl
    · exact .refl s q

theorem sets_txPush {skb : Skb}
    (hexp : (s.txq q).nbRetry = 1 → (s.txq q).lastRetrySkb = some skb) :
    Sets s (txPush q s skb) q ((s.txq q).push skb) := by
  have hflag := sets_setMoreDataFlag s q
  have hset := hflag.trans (sets_setTxq (q := q) _ (t := (s.txq q).push skb)
    (by rw [hflag.same]; exact ((s.txq q).same_push skb).inHwqList))
  have hnot : ¬((s.txq q).nbRetry = 1 ∧ (s.txq q).lastRetrySkb ≠ some skb) :=
    fun hc => hc.2 (hexp hc.1)
  refine ⟨hset.txq, fun hw => wf_congr (hset.wf hw) rfl fun _ => rfl, hset.lists, hset.active,
    hset.valid, hset.station, hset.bug, ?_, hset.need⟩
  rw [← hset.warned]
  simp [txPush, hnot]

theorem sets_foldl_txPush {out l : List Skb} (h : (s.txq q).Frames (out ++ l)) :
    Sets s (out.foldl (txPush q) s) q (out.foldl Txq.push (s.txq q)) := by
  induction out generalizing s with
  | nil => exact .refl s q
  | cons x out ih =>
    have hpush := sets_txPush h.expected
    have hrest := ih (s := txPush q s x) (by rw [hpush.same]; exact h.push)
    rw [hpush.same] at hrest
    exact hpush.trans hrest

/-- How many frames a visit takes of the queue. -/
def Txq.batch (t : Txq) : ℕ :=
  if t.pushLimit ≠ 0 then t.pushLimit else min t.skList.length t.credits.toNat

/-- What holds of a queue that is in use; `ndev` says that it is one of the net device, `asleep`
that its station sleeps. -/
structure Txq.Ok (t : Txq) (ndev asleep : Bool) : Prop where
  frames : t.Frames t.skList
  few : t.requeued.length < 64
  credits : t.credits = nxTxqInitialCredits + t.requeued.length
  ready : t.inHwqList = true → t.skList ≠ []
  scheduled : t.stop = [] → t.skList ≠ [] → t.inHwqList = true
  limit : t.pushLimit ≤ t.skList.length ∧ (t.pushLimit : ℤ) ≤ t.credits
  resting : t.pushLimit ≠ 0 ∨ asleep = true → .staPs ∈ t.stop
  flowStops : ndev = true → ndevFlowCtrlStop < t.skList.length → t.ndevFlowCtrl = true
  flowRuns : t.ndevFlowCtrl = true → ndevFlowCtrlRestart ≤ t.skList.length

theorem Txq.Ok.credits_pos (h : t.Ok ndev asleep) : 64 ≤ t.credits := by
  have hc := h.credits
  rw [nxTxqInitialCredits] at hc
  omega

theorem Txq.Ok.batch_le (h : t.Ok ndev asleep) :
    t.batch ≤ t.skList.length := by
  unfold Txq.batch
  split
  · exact h.limit.1
  · exact Nat.min_le_left _ _

theorem Txq.Ok.batch_pos (h : t.Ok ndev asleep) (hne : t.skList ≠ []) :
    0 < t.batch := by
  have hpos := List.length_pos_iff.mpr hne
  have hcred := h.credits_pos
  unfold Txq.batch
  split <;> omega

/-- A service period is served at once, and other queues give at most their credits. -/
theorem Txq.Ok.getSkbToPush (h : t.Ok ndev asleep) :
    t.getSkbToPush = (t.skList.take t.batch, t.skList.drop t.batch,
      decide (t.pushLimit ≠ 0 ∨ (t.skList.length : ℤ) ≤ t.credits)) := by
  have hcred := h.credits_pos
  obtain ⟨hlen, hlim⟩ := h.limit
  have hget : t.getCredits = if t.pushLimit ≠ 0 then (t.pushLimit : ℤ) else t.credits := by
    unfold Txq.getCredits
    split
    · next hc => rw [if_pos hc.1]
    · next hc =>
      split
      · next hne =>
        have hle : ¬((t.pushLimit : ℤ) < t.credits) := fun hlt => hc ⟨hne, hlt⟩
        omega
      · rfl
  have htoNat : min t.skList.length t.getCredits.toNat = t.batch := by
    rw [hget, Txq.batch]
    split
    · rw [Int.toNat_natCast]
      exact Nat.min_eq_right hlen
    · rfl
  unfold Txq.getSkbToPush
  split
  · next hall =>
    have hbatch : t.batch = t.skList.length := by
      rw [← htoNat]
      apply Nat.min_eq_left
      omega
    rw [hbatch, List.take_length, List.drop_length]
    have htrue : t.pushLimit ≠ 0 ∨ (t.skList.length : ℤ) ≤ t.credits := by
      by_cases hp : t.pushLimit ≠ 0
      · exact .inl hp
      · rw [hget, if_neg hp] at hall
        exact .inr hall
    rw [decide_eq_true htrue]
  · next hsome =>
    have hbatch : t.getCredits.toNat = t.batch := by
      rw [← htoNat]
      apply (Nat.min_eq_right _).symm
      omega
    rw [hbatch]
    have hiff : (t.pushLimit ≠ 0 ∧ t.getCredits = t.pushLimit) ↔
        (t.pushLimit ≠ 0 ∨ (t.skList.length : ℤ) ≤ t.credits) := by
      rw [hget] at hsome ⊢
      split at hsome
      · next hp => simp [hp]
      · next hp => simp [hp, hsome]
    simp only [hiff]

theorem hwqList_setMoreDataFlag (s : TxState) (q : TxqId) :
    (setMoreDataFlag s q).2.hwqList = s.hwqList := by
  unfold setMoreDataFlag
  cases q.owner with
  | none => rfl
  | some i =>
    dsimp only
    split
    · split <;> rfl
    · rfl

theorem hwqList_foldl_txPush (s : TxState) (q : TxqId) (out : List Skb) :
    (out.foldl (txPush q) s).hwqList = s.hwqList := by
  induction out generalizing s with
  | nil => rfl
  | cons x out ih =>
    rw [List.foldl_cons, ih]
    exact hwqList_setMoreDataFlag s q

theorem sets_rotate (s : TxState) (q : TxqId) :
    Sets s (s.setList q.hwq (rotateLeft (s.hwqList q.hwq))) q (s.txq q) := by
  have hperm := rotateLeft_perm (s.hwqList q.hwq)
  refine ⟨(Function.update_eq_self q s.txq).symm, fun hw => ⟨fun k q' => ?_, fun k => ?_⟩,
    fun k hk => ?_, fun _ => rfl, fun _ => rfl, fun _ _ => rfl, rfl, rfl, fun _ => id⟩ <;>
    dsimp only [TxState.setList]
  · by_cases hk : k = q.hwq
    · rw [hk, Function.update_self, hperm.mem_iff]
      exact hw.mem _ _
    · rw [Function.update_of_ne hk]
      exact hw.mem _ _
  · by_cases hk : k = q.hwq
    · rw [hk, Function.update_self]
      exact hperm.nodup_iff.mpr (hw.nodup _)
    · rw [Function.update_of_ne hk]
      exact hw.nodup k
  · exact Function.update_of_ne hk _ _

theorem moves_del (s : TxState) (q : TxqId) :
    Moves q (s.hwqList q.hwq) ((delFromHwList s q).hwqList q.hwq) := by
  unfold delFromHwList
  split
  · dsimp only [TxState.setTxq, TxState.setList]
    rw [Function.update_self]
    exact .leaves
  · exact .stays

theorem settleList_spec (s : TxState) (q : TxqId) (empty : Bool) :
    Moves q (s.hwqList q.hwq) ((settleList s q empty).hwqList q.hwq) ∧ ∃ k,
      Sets s (settleList s q empty) q
        { s.txq q with pktSent := k, inHwqList := (s.txq q).inHwqList && !empty } := by
  unfold settleList
  cases empty with
  | true =>
    rw [Bool.not_true, Bool.and_false]
    exact ⟨moves_del s q, 0, (Sets.refl s q).del.modify (fun t => { t with pktSent := 0 }) rfl⟩
  | false =>
    rw [Bool.not_false, Bool.and_true]
    split
    · contradiction
    · split
      · have hset := (Sets.refl s q).modify (fun t => { t with pktSent := 0 }) rfl
        have hturn := hset.trans (sets_rotate _ q)
        rw [hset.same] at hturn
        refine ⟨?_, 0, hturn⟩
        dsimp only [TxState.setTxq, TxState.setList]
        rw [Function.update_self]
        exact .turns
      · exact ⟨.stays, (s.txq q).pktSent, .refl s q⟩

theorem abortSp_of_limit (h : (s.txq q).pushLimit = 0) : abortSp s q = s := by
  unfold abortSp
  cases q.owner with
  | none => rfl
  | some i => exact if_neg fun hc => hc.1 h

theorem sets_wakeNdev (s : TxState) (q : TxqId) :
    (wakeNdev s q).hwqList = s.hwqList ∧ Sets s (wakeNdev s q) q { s.txq q with
      ndevFlowCtrl := (s.txq q).ndevFlowCtrl &&
        decide (ndevFlowCtrlRestart ≤ (s.txq q).skList.length) } := by
  unfold wakeNdev
  split
  · next hc =>
    have hoff : ((s.txq q).ndevFlowCtrl &&
        decide (ndevFlowCtrlRestart ≤ (s.txq q).skList.length)) = false := by
      simp [hc.2]
    rw [hoff]
    exact ⟨rfl, (Sets.refl s q).modify (fun t => { t with ndevFlowCtrl := false }) rfl⟩
  · next hc =>
    have hkeep : ((s.txq q).ndevFlowCtrl &&
        decide (ndevFlowCtrlRestart ≤ (s.txq q).skList.length)) = (s.txq q).ndevFlowCtrl := by
      cases hflow : (s.txq q).ndevFlowCtrl with
      | false => rfl
      | true =>
        rw [Bool.true_and, decide_eq_true]
        by_contra hlt
        exact hc ⟨hflow, Nat.lt_of_not_le hlt⟩
    rw [hkeep]
    exact ⟨rfl, .refl s q⟩

theorem ps_addToHwList (s : TxState) (q : TxqId) : (addToHwList s q).ps = s.ps := by
  unfold addToHwList
  split <;> rfl

theorem ps_delFromHwList (s : TxState) (q : TxqId) : (delFromHwList s q).ps = s.ps := by
  unfold delFromHwList
  split <;> rfl

theorem ps_txqStart (s : TxState) (q : TxqId) (reason : StopReason) :
    (txqStart s q reason).ps = s.ps := by
  unfold txqStart
  dsimp only
  split
  · split
    · exact ps_addToHwList _ q
    · rfl
  · rfl

theorem ps_txqStop (s : TxState) (q : TxqId) (reason : StopReason) :
    (txqStop s q reason).ps = s.ps := by
  unfold txqStop
  split
  · exact ps_delFromHwList _ q
  · rfl

theorem ps_settleList (s : TxState) (q : TxqId) (empty : Bool) :
    (settleList s q empty).ps = s.ps := by
  unfold settleList
  split
  · exact ps_delFromHwList s q
  · split <;> rfl

theorem ps_wakeNdev (s : TxState) (q : TxqId) : (wakeNdev s q).ps = s.ps := by
  unfold wakeNdev
  split <;> rfl

/-- What a visit makes of a queue in use. -/
structure Txq.Visited (t t' : Txq) : Prop where
  active : t'.active = t.active
  stop : t'.stop = t.stop
  credits : t'.credits = t.credits
  requeued : t'.requeued = t.requeued
  psId : t'.psId = t.psId
  skList : t'.skList = t.skList.drop t.batch
  frames : t'.Frames t'.skList
  pushLimit : t'.pushLimit = 0
  inHwqList : t'.inHwqList =
    (t.inHwqList && !decide (t.pushLimit ≠ 0 ∨ (t.skList.length : ℤ) ≤ t.credits))
  ndevFlowCtrl : t'.ndevFlowCtrl =
    (t.ndevFlowCtrl && decide (ndevFlowCtrlRestart ≤ t'.skList.length))

theorem visit_ok (hactive : (s.txq q).active = true)
    (hlisted : (s.txq q).inHwqList = true) (h : (s.txq q).Ok ndev asleep) :
    Moves q (s.hwqList q.hwq) ((visit s q).hwqList q.hwq) ∧
      ∃ t, Sets s (visit s q) q t ∧ (s.txq q).Visited t ∧ (visit s q).ps =
        (((s.txq q).skList.take (s.txq q).batch).foldl (txPush q) (s.setTxq q
          { s.txq q with skList := (s.txq q).skList.drop (s.txq q).batch })).ps := by
  have hcred := h.credits_pos
  have hne := h.ready hlisted
  unfold visit
  rw [if_neg (by simp [hlisted]), if_neg (by simp [hactive]),
    if_neg (by simp only [hne, or_false]; omega), h.getSkbToPush]
  dsimp only
  generalize hout : (s.txq q).skList.take (s.txq q).batch = out
  generalize hrest : (s.txq q).skList.drop (s.txq q).batch = rest
  generalize hempty : decide ((s.txq q).pushLimit ≠ 0 ∨
    ((s.txq q).skList.length : ℤ) ≤ (s.txq q).credits) = empty
  have hcat : out ++ rest = (s.txq q).skList := by
    rw [← hout, ← hrest, List.take_append_drop]
  have htake := (Sets.refl s q).modify (fun t => { t with skList := rest }) rfl
  have hframes : (((s.setTxq q { s.txq q with skList := rest }).txq q)).Frames (out ++ rest) := by
    rw [htake.same, hcat]
    exact h.frames.congr rfl rfl rfl rfl rfl rfl
  have hpush := htake.trans (sets_foldl_txPush hframes)
  have hlist := hwqList_foldl_txPush (s.setTxq q { s.txq q with skList := rest }) q out
  have hdone := hframes.foldl_push
  have hlimit := Txq.pushLimit_foldl_push ({ s.txq q with skList := rest }) out
  have hsame := Txq.same_foldl_push ({ s.txq q with skList := rest }) out
  rw [htake.same] at hpush hdone
  generalize out.foldl (txPush q) (s.setTxq q { s.txq q with skList := rest }) = s₁ at hpush hlist ⊢
  generalize out.foldl Txq.push ({ s.txq q with skList := rest } : Txq) = t₁
    at hpush hdone hlimit hsame
  obtain ⟨hmoves, k, hsettle⟩ := settleList_spec s₁ q empty
  have hlen : out.length = (s.txq q).batch := by
    rw [← hout, List.length_take]
    exact Nat.min_eq_left h.batch_le
  have hzero : t₁.pushLimit = 0 := by
    rw [hlimit, hlen, Txq.batch]
    split
    · exact Nat.sub_self _
    · next hp =>
      rw [not_not.mp hp]
      exact Nat.zero_sub _
  have hset := hpush.trans hsettle
  rw [hpush.same] at hset
  -- The whole period was pushed, as it asked for no more than the queue had.
  have habort : abortSp (settleList s₁ q empty) q = settleList s₁ q empty :=
    abortSp_of_limit (by rw [hset.same]; exact hzero)
  rw [habort]
  obtain ⟨hwakeList, hwake⟩ := sets_wakeNdev (settleList s₁ q empty) q
  have hall := hset.trans hwake
  rw [hset.same] at hall
  rw [hwakeList]
  have hstart : s₁.hwqList = s.hwqList := hlist
  rw [hstart] at hmoves
  refine ⟨hmoves, _, hall, ⟨hsame.active, hsame.stop, hsame.credits, hsame.requeued, hsame.psId,
    hsame.skList.trans hrest.symm, ?_, hzero, ?_, ?_⟩,
    (ps_wakeNdev _ q).trans (ps_settleList _ q _)⟩
  · have hsk : t₁.skList = rest := hsame.skList
    dsimp only
    rw [hsk]
    exact hdone.congr rfl rfl rfl rfl rfl rfl
  · dsimp only
    rw [hsame.inHwqList, hempty]
  · dsimp only
    rw [hsame.ndevFlowCtrl]

theorem Txq.Ok.visited (h : t.Ok ndev asleep) (hlisted : t.inHwqList = true)
    (hv : t.Visited t') : t'.Ok ndev asleep := by
  have hlen : t'.skList.length = t.skList.length - t.batch := by
    rw [hv.skList, List.length_drop]
  have hbatch : t.pushLimit = 0 → t.batch = min t.skList.length t.credits.toNat := by
    intro hp
    rw [Txq.batch, if_neg (not_not.mpr hp)]
  have hcred := h.credits_pos
  refine ⟨hv.frames, ?_, ?_, ?_, ?_, ?_, ?_, ?_, ?_⟩
  · rw [hv.requeued]
    exact h.few
  · rw [hv.credits, hv.requeued]
    exact h.credits
  · intro hl hnil
    rw [hv.inHwqList, hlisted, Bool.true_and, Bool.not_eq_true', decide_eq_false_iff_not,
      not_or, not_not] at hl
    have hb := hbatch hl.1
    rw [hnil, List.length_nil] at hlen
    omega
  · intro hstop hne
    rw [hv.stop] at hstop
    -- A queue in a service period is stopped, so this one is not.
    have hp : t.pushLimit = 0 := by
      by_contra hp
      have hmem := h.resting (.inl hp)
      rw [hstop] at hmem
      cases hmem
    have hb := hbatch hp
    have hpos := List.length_pos_iff.mpr hne
    rw [hv.inHwqList, hlisted, Bool.true_and, Bool.not_eq_true', decide_eq_false_iff_not,
      not_or, not_not]
    exact ⟨hp, by omega⟩
  · rw [hv.pushLimit, hv.credits]
    exact ⟨Nat.zero_le _, by omega⟩
  · intro hrest
    rw [hv.stop]
    apply h.resting
    rcases hrest with hp | ha
    · exact absurd hv.pushLimit hp
    · exact .inr ha
  · intro hn hlt
    rw [hv.ndevFlowCtrl, h.flowStops hn (by omega), Bool.true_and, decide_eq_true_eq]
    rw [ndevFlowCtrlStop] at hlt
    rw [ndevFlowCtrlRestart]
    omega
  · intro hf
    rw [hv.ndevFlowCtrl, Bool.and_eq_true, decide_eq_true_eq] at hf
    exact hf.2

theorem Txq.Ok.started (h : t.Ok ndev asleep) (reason : StopReason)
    (hr : t.pushLimit ≠ 0 ∨ asleep = true → reason ≠ .staPs) :
    (t.started reason).Ok ndev asleep := by
  unfold Txq.started
  split
  · refine ⟨h.frames.congr rfl rfl rfl rfl rfl rfl, h.few, h.credits, ?_, ?_, h.limit, ?_,
      h.flowStops, h.flowRuns⟩
    · intro hl hnil
      dsimp only at hl hnil
      rw [hnil, List.isEmpty_nil, Bool.not_true, Bool.and_false, Bool.or_false] at hl
      exact h.ready hl hnil
    · intro hstop hne
      dsimp only at hstop hne ⊢
      rw [hstop]
      simp [hne]
    · intro hrest
      have hmem := h.resting hrest
      exact List.mem_filter.mpr ⟨hmem, by simpa using (hr hrest).symm⟩
  · exact h

theorem Txq.Ok.stopped (h : t.Ok ndev asleep) (hactive : t.active = true) (reason : StopReason) :
    (t.stopped reason).Ok ndev asleep := by
  rw [Txq.stopped, if_pos hactive]
  refine ⟨h.frames.congr rfl rfl rfl rfl rfl rfl, h.few, h.credits, nofun, ?_, h.limit, ?_,
    h.flowStops, h.flowRuns⟩
  · intro hstop
    have hmem : reason ∈ t.stop.insert reason := List.mem_insert_self
    dsimp only at hstop
    rw [hstop] at hmem
    cases hmem
  · intro hrest
    exact List.mem_insert_of_mem (h.resting hrest)

theorem Txq.Frames.length_enqueue (h : t.Frames t.skList) {skb : Skb} (hskb : skb ∉ t.skList)
    (retry : Bool) : (t.enqueue skb retry).skList.length = t.skList.length + 1 := by
  cases retry with
  | true =>
    have hsplit := List.take_append_drop t.nbRetry t.skList
    have hlen := congrArg List.length hsplit
    rw [(h.enqueue_retry hskb).1, List.length_append, List.length_cons]
    rw [List.length_append] at hlen
    omega
  | false =>
    rw [Txq.enqueue, if_neg (by simp), List.length_append]
    rfl

theorem Txq.Frames.enqueue (h : t.Frames t.skList) {skb : Skb} (hskb : skb ∉ t.skList)
    (retry : Bool) : (t.enqueue skb retry).Frames (t.enqueue skb retry).skList := by
  cases retry with
  | true => exact (h.enqueue_retry hskb).2
  | false =>
    have hnew := h.enqueue_new hskb
    rw [Txq.enqueue, if_neg (by simp)] at hnew ⊢
    exact hnew

theorem Txq.requeued_enqueue (t : Txq) (skb : Skb) (retry : Bool) :
    (t.enqueue skb retry).requeued.length = t.requeued.length + if retry then 1 else 0 := by
  unfold Txq.enqueue
  split
  · exact List.length_append
  · rfl

/-- A queued frame; a frame that is queued again brings a credit. -/
theorem Txq.Ok.queuedUp (h : t.Ok ndev asleep) {skb : Skb} (hskb : skb ∉ t.skList) (retry : Bool)
    (credits : ℤ) (hcred : credits = t.credits + if retry then 1 else 0)
    (hfew : retry = true → t.requeued.length < 63) :
    (Txq.queuedUp { t with credits } ndev skb retry).Ok ndev asleep := by
  have hframes : Txq.Frames { t with credits } t.skList := h.frames.congr rfl rfl rfl rfl rfl rfl
  have hlen := hframes.length_enqueue hskb retry
  have hreq := Txq.requeued_enqueue { t with credits } skb retry
  obtain ⟨-, hstop, -, -, hcr, -, hpl⟩ := Txq.enqueue_keeps { t with credits } skb retry
  have hold := h.credits
  have hlow := h.few
  dsimp only at hlen hreq hstop hcr hpl
  rw [Txq.queuedUp]
  refine ⟨(hframes.enqueue hskb retry).congr rfl rfl rfl rfl rfl rfl, ?_, ?_, ?_, ?_, ?_, ?_, ?_,
    ?_⟩ <;> dsimp only
  · rw [hreq]
    split
    · next hr =>
      have hlt := hfew hr
      omega
    · exact hlow
  · rw [hcr, hreq, hcred, hold]
    split
    · push_cast
      omega
    · push_cast
      omega
  · intro _ hnil
    rw [hnil, List.length_nil] at hlen
    omega
  · intro hnil _
    rw [hstop] at hnil
    rw [hnil]
    simp
  · rw [hpl, hcr, hlen, hcred]
    obtain ⟨h1, h2⟩ := h.limit
    refine ⟨by omega, ?_⟩
    split <;> omega
  · rw [hpl, hstop]
    exact h.resting
  · intro hn hlt
    rw [hn, Bool.true_and, decide_eq_true hlt, Bool.or_true]
  · intro hf
    rw [Bool.or_eq_true, Bool.and_eq_true, decide_eq_true_eq] at hf
    rw [hlen]
    rcases hf with hf | ⟨-, hf⟩
    · have hge := h.flowRuns hf
      omega
    · rw [hlen, ndevFlowCtrlStop] at hf
      rw [ndevFlowCtrlRestart]
      omega

/-- More may be pushed to a station that sleeps, or less. -/
theorem Txq.Ok.limited (h : t.Ok ndev asleep) {n : ℕ} (hlen : n ≤ t.skList.length)
    (hcred : (n : ℤ) ≤ t.credits) (hstop : n ≠ 0 → .staPs ∈ t.stop) :
    Txq.Ok { t with pushLimit := n } ndev asleep :=
  ⟨h.frames.congr rfl rfl rfl rfl rfl rfl, h.few, h.credits, h.ready, h.scheduled, ⟨hlen, hcred⟩,
    fun hrest => hrest.elim hstop fun ha => h.resting (.inr ha), h.flowStops, h.flowRuns⟩

theorem Txq.Ok.listed (h : t.Ok ndev asleep) (hne : t.skList ≠ []) :
    Txq.Ok { t with inHwqList := true } ndev asleep :=
  ⟨h.frames.congr rfl rfl rfl rfl rfl rfl, h.few, h.credits, fun _ => hne, fun _ _ => rfl, h.limit,
    h.resting, h.flowStops, h.flowRuns⟩

theorem Txq.Ok.pushed (h : t.Ok ndev asleep) (n : ℕ) :
    Txq.Ok { t with pktPushed := n } ndev asleep :=
  ⟨h.frames.congr rfl rfl rfl rfl rfl rfl, h.few, h.credits, h.ready, h.scheduled, h.limit,
    h.resting, h.flowStops, h.flowRuns⟩

theorem ok_init (stop : List StopReason) (p : PsId) (ndev : Bool) :
    (txqInit stop p).Ok ndev false where
  frames := ⟨Nat.le_refl 0, rfl, rfl, rfl, List.nodup_nil⟩
  few := by
    dsimp only [txqInit]
    decide
  credits := by
    dsimp only [txqInit]
    simp
  ready := nofun
  scheduled := fun _ hne => absurd rfl hne
  limit := ⟨Nat.le_refl 0, by dsimp only [txqInit]; decide⟩
  resting := by simp [txqInit]
  flowStops := by simp [txqInit]
  flowRuns := nofun

end NervesSystem.TxSched
