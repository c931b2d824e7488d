import NervesSystem.TxQueueOps

namespace NervesSystem.TxSched

open SafeWalk

variable {s s' s'' : TxState} {q : TxqId} {t t' : Txq} {ndev asleep : Bool}

def TxState.sleeps (s : TxState) (q : TxqId) : Bool :=
  match q.owner with
  | none => false
  | some i => (s.ps i).active

structure Inv (s : TxState) : Prop where
  wf : Wf s
  queue : ∀ q, (s.txq q).active = true → (s.txq q).Ok q.hasNdev (s.sleeps q)
  bug : s.bug = false
  warned : s.warned = false

theorem Sets.sleeps (h : Sets s s' q t) (q' : TxqId) : s'.sleeps q' = s.sleeps q' := by
  unfold TxState.sleeps
  cases q'.owner with
  | none => rfl
  | some i => exact h.active i

theorem Inv.sets (h : Inv s) (hs : Sets s s' q t)
    (hq : t.active = true → t.Ok q.hasNdev (s.sleeps q)) : Inv s' where
  wf := hs.wf h.wf
  queue := by
    intro q' hactive
    rw [hs.sleeps]
    by_cases hne : q' = q
    · subst hne
      rw [hs.same] at hactive ⊢
      exact hq hactive
    · rw [hs.other hne] at hactive ⊢
      exact h.queue q' hactive
  bug := hs.bug.trans h.bug
  warned := hs.warned.trans h.warned

/-- A queue that went out of use while it was in the list is emptied. -/
theorem visit_inactive (hactive : (s.txq q).active = false)
    (hlisted : (s.txq q).inHwqList = true) :
    (visit s q).hwqList q.hwq = (s.hwqList q.hwq).erase q ∧
      Sets s (visit s q) q { s.txq q with inHwqList := false, skList := [] } := by
  unfold visit
  rw [if_neg (by simp [hlisted]), if_pos hactive]
  refine ⟨?_, (Sets.refl s q).del.modify (fun t => { t with skList := [] }) rfl⟩
  unfold delFromHwList
  rw [if_pos hlisted]
  dsimp only [txqFlush, TxState.setTxq, TxState.setList]
  rw [Function.update_self]

theorem sum_map_congr {f g : TxqId → ℕ} {l : List TxqId} (h : ∀ a ∈ l, f a = g a) :
    (l.map f).sum = (l.map g).sum := by
  rw [List.map_congr_left h]

theorem sum_map_lt {f g : TxqId → ℕ} {l : List TxqId} (hq : q ∈ l)
    (hother : ∀ a ∈ l, a ≠ q → g a = f a) (hlt : g q < f q) : (l.map g).sum < (l.map f).sum := by
  apply List.sum_lt_sum
  · intro a ha
    by_cases hne : a = q
    · rw [hne]
      exact Nat.le_of_lt hlt
    · exact Nat.le_of_eq (hother a ha hne)
  · exact ⟨q, hq, hlt⟩

theorem sum_map_erase_lt {f g : TxqId → ℕ} {l : List TxqId} (hl : l.Nodup) (hq : q ∈ l)
    (hother : ∀ a ∈ l, a ≠ q → g a = f a) (hpos : 0 < f q) :
    ((l.erase q).map g).sum < (l.map f).sum := by
  have hperm := ((List.perm_cons_erase hq).map f).sum_eq
  rw [List.map_cons, List.sum_cons] at hperm
  have hsame : ((l.erase q).map g).sum = ((l.erase q).map f).sum := by
    apply sum_map_congr
    intro a ha
    have hmem := (hl.mem_erase_iff).mp ha
    exact hother a hmem.2 hmem.1
  omega

/-- Each visit leaves less to do. -/
theorem visits_lt {h : Hwq} (hI : Inv s) (hq : q ∈ s.hwqList h) :
    visits (visit s q) h < visits s h := by
  obtain ⟨hlisted, rfl⟩ := (hI.wf.mem h q).mp hq
  have hnodup := hI.wf.nodup q.hwq
  unfold visits
  -- A queue out of use leaves the list; one in use gives at least a frame.
  cases hactive : (s.txq q).active with
  | false =>
    obtain ⟨hlist, hset⟩ := visit_inactive hactive hlisted
    rw [hlist]
    apply sum_map_erase_lt hnodup hq
    · intro a _ hne
      rw [hset.other hne]
    · omega
  | true =>
    have hok := hI.queue q hactive
    obtain ⟨hmoves, t, hset, hv, -⟩ := visit_ok hactive hlisted hok
    have hother : ∀ a ∈ s.hwqList q.hwq, a ≠ q →
        ((visit s q).txq a).skList.length + 1 = (s.txq a).skList.length + 1 := by
      intro a _ hne
      rw [hset.other hne]
    have hless : ((visit s q).txq q).skList.length + 1 < (s.txq q).skList.length + 1 := by
      have hpos := hok.batch_pos (hok.ready hlisted)
      have hle := hok.batch_le
      rw [hset.same, hv.skList, List.length_drop]
      omega
    generalize (visit s q).hwqList q.hwq = l' at hmoves
    cases hmoves with
    | stays => exact sum_map_lt hq hother hless
    | leaves => exact sum_map_erase_lt hnodup hq hother (by omega)
    | turns =>
      rw [((rotateLeft_perm (s.hwqList q.hwq)).map _).sum_eq]
      exact sum_map_lt hq hother hless

theorem Inv.visited (hI : Inv s) (hlisted : (s.txq q).inHwqList = true) : Inv (visit s q) := by
  cases hactive : (s.txq q).active with
  | false =>
    obtain ⟨-, hset⟩ := visit_inactive hactive hlisted
    apply hI.sets hset
    intro ha
    rw [hactive] at ha
    cases ha
  | true =>
    have hok := hI.queue q hactive
    obtain ⟨-, t, hset, hv, -⟩ := visit_ok hactive hlisted hok
    exact hI.sets hset fun _ => hok.visited hlisted hv

theorem moves_visit (hI : Inv s) (hlisted : (s.txq q).inHwqList = true) :
    Moves q (s.hwqList q.hwq) ((visit s q).hwqList q.hwq) := by
  cases hactive : (s.txq q).active with
  | false =>
    obtain ⟨hlist, -⟩ := visit_inactive hactive hlisted
    rw [hlist]
    exact .leaves
  | true => exact (visit_ok hactive hlisted (hI.queue q hactive)).1

theorem safe_visit (h : Hwq) :
    Safe (fun s => s.hwqList h) visit TxState.bug Inv fun s => visits s h where
  nodup := fun _ hI => hI.wf.nodup h
  keeps := fun s q hI hq => hI.visited ((hI.wf.mem h q).mp hq).1
  runs := fun _ hI => hI.bug
  moves := by
    intro s q hI hq
    obtain ⟨hlisted, rfl⟩ := (hI.wf.mem h q).mp hq
    exact moves_visit hI hlisted
  less := fun _ _ hI hq => visits_lt hI hq

/-- What one or more visits make of a queue: a queue in use has given a whole batch. -/
structure Txq.Cleared (t t' : Txq) : Prop where
  active : t'.active = t.active
  stop : t'.stop = t.stop
  served : t.active = true → t'.pushLimit = 0 ∧ t'.skList <:+ t.skList.drop t.batch
  gone : t.active = false → t'.inHwqList = false ∧ t'.skList = []

theorem cleared_visit (hI : Inv s) (hlisted : (s.txq q).inHwqList = true)
    (h : s.txq q = t ∨ t.Cleared (s.txq q)) : t.Cleared ((visit s q).txq q) := by
  cases hactive : (s.txq q).active with
  | false =>
    obtain ⟨-, hset⟩ := visit_inactive hactive hlisted
    rcases h with rfl | hc
    · rw [hset.same]
      refine ⟨rfl, rfl, fun ha => ?_, fun _ => ⟨rfl, rfl⟩⟩
      rw [hactive] at ha
      cases ha
    · -- What was flushed before is in no list any more.
      have hgone := hc.gone (hc.active ▸ hactive)
      rw [hlisted] at hgone
      cases hgone.1
  | true =>
    obtain ⟨-, t', hset, hv, -⟩ := visit_ok hactive hlisted (hI.queue q hactive)
    rw [hset.same]
    rcases h with rfl | hc
    · refine ⟨hv.active, hv.stop, fun _ => ⟨hv.pushLimit, ?_⟩, fun ha => ?_⟩
      · rw [hv.skList]
      · rw [hactive] at ha
        cases ha
    · refine ⟨hv.active.trans hc.active, hv.stop.trans hc.stop, fun ha => ⟨hv.pushLimit, ?_⟩,
        fun ha => ?_⟩
      · rw [hv.skList]
        exact (List.drop_suffix _ _).trans (hc.served ha).2
      · rw [← hc.active, hactive] at ha
        cases ha

/-- What a walk has done so far to the state in which it began. -/
structure Swept (s₀ : TxState) (h : Hwq) (s : TxState) : Prop where
  subset : s.hwqList h ⊆ s₀.hwqList h
  outside : ∀ q, q ∉ s₀.hwqList h → s.txq q = s₀.txq q
  inside : ∀ q, s.txq q = s₀.txq q ∨ (s₀.txq q).Cleared (s.txq q)
  active : ∀ i, (s.ps i).active = (s₀.ps i).active
  valid : ∀ i, (s.ps i).valid = (s₀.ps i).valid

theorem sets_visit (hI : Inv s) (hlisted : (s.txq q).inHwqList = true) :
    ∃ t, Sets s (visit s q) q t := by
  cases hactive : (s.txq q).active with
  | false => exact ⟨_, (visit_inactive hactive hlisted).2⟩
  | true =>
    obtain ⟨-, t, hset, -⟩ := visit_ok hactive hlisted (hI.queue q hactive)
    exact ⟨t, hset⟩

theorem Swept.visit {s₀ : TxState} {h : Hwq} (hs : Swept s₀ h s) (hI : Inv s)
    (hq : q ∈ s.hwqList h) : Swept s₀ h (visit s q) := by
  have hmem := hs.subset hq
  obtain ⟨hlisted, rfl⟩ := (hI.wf.mem h q).mp hq
  obtain ⟨t, hset⟩ := sets_visit hI hlisted
  have hclear := cleared_visit hI hlisted (hs.inside q)
  refine ⟨fun a ha => hs.subset ((moves_visit hI hlisted).subset ha), fun a ha => ?_, fun a => ?_,
    fun i => (hset.active i).trans (hs.active i), fun i => (hset.valid i).trans (hs.valid i)⟩
  · have hne : a ≠ q := by
      rintro rfl
      exact ha hmem
    rw [hset.other hne]
    exact hs.outside a ha
  · by_cases hne : a = q
    · subst hne
      exact .inr hclear
    · rw [hset.other hne]
      exact hs.inside a

theorem Inv.unneeded (hI : Inv s) (f : Hwq → Bool) : Inv { s with needProcessing := f } :=
  ⟨wf_congr hI.wf rfl fun _ => rfl, hI.queue, hI.bug, hI.warned⟩

/-- Every queue of the list is visited, and nothing else is touched. -/
theorem hwqProcess_spec (hI : Inv s) (h : Hwq) :
    Inv (hwqProcess s h) ∧ Swept s h (hwqProcess s h) ∧
      ∀ q ∈ s.hwqList h, (s.txq q).Cleared ((hwqProcess s h).txq q) := by
  have hsafe := (safe_visit h).and (P := Swept s h) fun s' q hI' hs' hq => hs'.visit hI' hq
  have hstart : Swept s h { s with needProcessing := Function.update s.needProcessing h false } :=
    ⟨fun _ => id, fun _ _ => rfl, fun _ => .inl rfl, fun _ => rfl, fun _ => rfl⟩
  have hall := hsafe.walk_all (fun q s' => (s.txq q).Cleared (s'.txq q)) ?_ ?_
    ⟨hI.unneeded _, hstart⟩ (Nat.le_refl _)
  · exact ⟨hall.1.1, hall.1.2, hall.2⟩
  · intro s' q hs' hq
    exact cleared_visit hs'.1 ((hs'.1.wf.mem h q).mp hq).1 (hs'.2.inside q)
  · intro s' q b hs' hq hc
    obtain ⟨hlisted, rfl⟩ := (hs'.1.wf.mem h q).mp hq
    by_cases hne : b = q
    · subst hne
      exact cleared_visit hs'.1 hlisted (.inr hc)
    · obtain ⟨t, hset⟩ := sets_visit hs'.1 hlisted
      rw [hset.other hne]
      exact hc

/-- The visits that the walk is given are enough: it ends at the end of the list. -/
theorem hwqProcess_enough (hI : Inv s) (h : Hwq) {k : ℕ} (hk : visits s h ≤ k) :
    walk (fun s => s.hwqList h) visit TxState.bug k
      { s with needProcessing := Function.update s.needProcessing h false } (s.hwqList h).head? =
      hwqProcess s h :=
  (safe_visit h).walk_enough [] (s.hwqList h) (hI.unneeded _) hk (Nat.le_refl _) rfl

/-- What holds between two events. -/
structure Settled (s : TxState) : Prop extends Inv s where
  inUse : ∀ q, (s.txq q).inHwqList = true → (s.txq q).active = true
  awake : ∀ i, (s.ps i).active = true → (s.ps i).valid = true
  queues : ∀ i, (s.ps i).valid = true → ∀ q, q.owner = some i → (s.txq q).active = true

theorem Settled.sets (h : Settled s) (hs : Sets s s' q t)
    (hq : t.active = true → t.Ok q.hasNdev (s.sleeps q))
    (hactive : t.active = (s.txq q).active)
    (hlisted : t.inHwqList = true → t.active = true) : Settled s' where
  toInv := h.toInv.sets hs hq
  inUse := by
    intro q'
    by_cases hne : q' = q
    · rw [hne, hs.same]
      exact hlisted
    · rw [hs.other hne]
      exact h.inUse q'
  awake := by
    intro i
    rw [hs.active, hs.valid]
    exact h.awake i
  queues := by
    intro i hi q' hq'
    rw [hs.valid] at hi
    have hold := h.queues i hi q' hq'
    by_cases hne : q' = q
    · rw [hne] at hold ⊢
      rw [hs.same, hactive]
      exact hold
    · rw [hs.other hne]
      exact hold

/-- A walk puts right what was queued on a queue that is no longer in use. -/
theorem settled_hwqProcess (hI : Inv s) (h : Hwq)
    (hinUse : ∀ q, q.hwq ≠ h → (s.txq q).inHwqList = true → (s.txq q).active = true)
    (hawake : ∀ i, (s.ps i).active = true → (s.ps i).valid = true)
    (hqueues : ∀ i, (s.ps i).valid = true → ∀ q, q.owner = some i → (s.txq q).active = true) :
    Settled (hwqProcess s h) := by
  obtain ⟨hI', hswept, hclear⟩ := hwqProcess_spec hI h
  have hsame : ∀ q, ((hwqProcess s h).txq q).active = (s.txq q).active := by
    intro q
    rcases hswept.inside q with hq | hq
    · rw [hq]
    · exact hq.active
  refine ⟨hI', fun q hl => ?_, fun i => ?_, fun i hi q hq => ?_⟩
  · by_cases hh : q.hwq = h
    · have hmem := hswept.subset ((hI'.wf.mem h q).mpr ⟨hl, hh⟩)
      by_contra hna
      rw [hsame, Bool.not_eq_true] at hna
      have hgone := ((hclear q hmem).gone hna).1
      rw [hl] at hgone
      cases hgone
    · have hout : q ∉ s.hwqList h := fun hmem => hh ((hI.wf.mem h q).mp hmem).2
      have hq := hswept.outside q hout
      rw [hq] at hl ⊢
      exact hinUse q hh hl
  · rw [hswept.active, hswept.valid]
    exact hawake i
  · rw [hswept.valid] at hi
    rw [hsame]
    exact hqueues i hi q hq

theorem Settled.hwqProcess (h : Settled s) (k : Hwq) : Settled (hwqProcess s k) :=
  settled_hwqProcess h.toInv k (fun q _ => h.inUse q) h.awake h.queues

theorem Settled.hwqProcessAll (h : Settled s) : Settled (hwqProcessAll s) := by
  have hstep : ∀ s k, Settled s → Settled
      (if s.bug = false ∧ s.needProcessing k = true then TxSched.hwqProcess s k else s) := by
    intro s k hs
    split
    · exact hs.hwqProcess k
    · exact hs
  exact hstep _ _ (hstep _ _ (hstep _ _ (hstep _ _ h)))

/-- What an event on several queues leaves as it is. -/
structure Keeps (s s' : TxState) : Prop where
  wf : Wf s → Wf s'
  active : ∀ i, (s'.ps i).active = (s.ps i).active
  valid : ∀ i, (s'.ps i).valid = (s.ps i).valid
  bug : s'.bug = s.bug
  warned : s'.warned = s.warned

theorem Sets.keeps (h : Sets s s' q t) : Keeps s s' := ⟨h.wf, h.active, h.valid, h.bug, h.warned⟩

theorem Keeps.trans (h : Keeps s s') (h' : Keeps s' s'') : Keeps s s'' :=
  ⟨fun hw => h'.wf (h.wf hw), fun i => (h'.active i).trans (h.active i),
    fun i => (h'.valid i).trans (h.valid i), h'.bug.trans h.bug, h'.warned.trans h.warned⟩

/-- A loop over the queues of a station does to each what its body does to one. -/
theorem foldl_sets {f : TxState → TxqId → TxState} {g : TxqId → Txq → Txq} {P : Txq → Prop}
    {l : List TxqId} (hf : ∀ s, ∀ q ∈ l, P (s.txq q) → Sets s (f s q) q (g q (s.txq q)))
    (hl : l.Nodup) (hP : ∀ q ∈ l, P (s.txq q)) :
    Keeps s (l.foldl f s) ∧
      ∀ q, (l.foldl f s).txq q = if q ∈ l then g q (s.txq q) else s.txq q := by
  induction l generalizing s with
  | nil => exact ⟨⟨id, fun _ => rfl, fun _ => rfl, rfl, rfl⟩, fun q => by simp⟩
  | cons a l ih =>
    rw [List.nodup_cons] at hl
    have hset := hf s a (by simp) (hP a (by simp))
    have hother : ∀ q ∈ l, (f s a).txq q = s.txq q := by
      intro q hq
      apply hset.other
      rintro rfl
      exact hl.1 hq
    obtain ⟨hkeeps, hrest⟩ := ih (s := f s a) (fun s q hq => hf s q (by simp [hq])) hl.2
      fun q hq => by
        rw [hother q hq]
        exact hP q (by simp [hq])
    refine ⟨hset.keeps.trans hkeeps, fun q => ?_⟩
    rw [List.foldl_cons, hrest]
    by_cases hq : q ∈ l
    · rw [if_pos hq, if_pos (by simp [hq]), hother q hq]
    · rw [if_neg hq]
      by_cases hqa : q = a
      · subst hqa
        rw [if_pos (by simp), hset.same]
      · rw [if_neg (by simp [hq, hqa]), hset.other hqa]

theorem mem_txqs (i : Sta) (q : TxqId) : q ∈ i.txqs ↔ q.owner = some i := by
  cases i <;> cases q <;> simp [Sta.txqs, TxqId.owner, eq_comm]

theorem nodup_txqs (i : Sta) : i.txqs.Nodup := by
  cases i with
  | remote j =>
    apply (List.nodup_finRange 9).map
    intro a b hab
    injection hab
  | bcmc vif => exact List.nodup_singleton _

theorem Txq.Ok.toSleep (h : t.Ok ndev asleep) (asleep' : Bool)
    (hrest : asleep' = true → asleep = true ∨ .staPs ∈ t.stop) : t.Ok ndev asleep' :=
  ⟨h.frames, h.few, h.credits, h.ready, h.scheduled, h.limit,
    fun hr => hr.elim (fun hp => h.resting (.inl hp))
      fun ha => (hrest ha).elim (fun hb => h.resting (.inr hb)) id, h.flowStops, h.flowRuns⟩

/-- What the callers promise: queues are set up while they are not in use, and taken down after
their station was reset; a buffer that is queued is in no list, and no queue gets back more than 63
frames to be sent again; only the change of a station's power save mode starts what was stopped for
that reason. -/
def Proper (s : TxState) : TxEvent → Prop
  | .staInit i _ _ _ _ => ∀ q ∈ i.txqs, (s.txq q).active = false
  | .init q _ => q.owner = none ∧ (s.txq q).active = false
  | .deinit q => ∀ i, q.owner = some i → (s.ps i).valid = false
  | .xmit q skb => skb ∉ (s.txq q).skList
  | .confirm q skb retry =>
    retry = true → skb ∉ (s.txq q).skList ∧ (s.txq q).requeued.length < 63
  | .start _ reason => reason ≠ .staPs
  | .staReset _ | .creditUpdate _ | .stop _ _ | .psChange _ _ | .trafficReq _ _ _ | .task => True

theorem Settled.flag (h : Settled s) (hactive : (s.txq q).active = false) :
    (s.txq q).inHwqList = false := by
  by_contra hl
  rw [Bool.not_eq_false] at hl
  have ha := h.inUse q hl
  rw [hactive] at ha
  cases ha

theorem ps_setPs_same (s : TxState) (i : Sta) (p : Ps) : (s.setPs i p).ps i = p :=
  Function.update_self ..

theorem ps_setPs_other (s : TxState) {i j : Sta} (p : Ps) (hj : j ≠ i) :
    (s.setPs i p).ps j = s.ps j :=
  Function.update_of_ne hj ..

theorem keeps_setPs (s : TxState) {i : Sta} {p : Ps} (hactive : p.active = (s.ps i).active)
    (hvalid : p.valid = (s.ps i).valid) : Keeps s (s.setPs i p) := by
  refine ⟨fun hw => wf_congr hw rfl fun _ => rfl, fun j => ?_, fun j => ?_, rfl, rfl⟩
  · by_cases hj : j = i
    · rw [hj, ps_setPs_same, hactive]
    · rw [ps_setPs_other s p hj]
  · by_cases hj : j = i
    · rw [hj, ps_setPs_same, hvalid]
    · rw [ps_setPs_other s p hj]

theorem Keeps.refl (s : TxState) : Keeps s s := ⟨id, fun _ => rfl, fun _ => rfl, rfl, rfl⟩

/-- The queues of one station change, and perhaps whether it sleeps. -/
theorem Settled.station (h : Settled s) {i : Sta} (p : Ps) (g : TxqId → Txq → Txq)
    (hk : Keeps (s.setPs i p) s')
    (htxq : ∀ q, s'.txq q = if q ∈ i.txqs then g q (s.txq q) else s.txq q)
    (hok : ∀ q, q.owner = some i → (g q (s.txq q)).active = true →
      (g q (s.txq q)).Ok q.hasNdev p.active)
    (hlist : ∀ q, q.owner = some i → (g q (s.txq q)).inHwqList = true →
      (g q (s.txq q)).active = true)
    (hawake : p.active = true → p.valid = true)
    (hqueues : p.valid = true → ∀ q, q.owner = some i → (g q (s.txq q)).active = true) :
    Settled s' := by
  have hown : ∀ q, q.owner = some i → s'.txq q = g q (s.txq q) :=
    fun q hq => (htxq q).trans (if_pos ((mem_txqs i q).mpr hq))
  have hothers : ∀ q, q.owner ≠ some i → s'.txq q = s.txq q :=
    fun q hq => (htxq q).trans (if_neg fun hmem => hq ((mem_txqs i q).mp hmem))
  have hactive : (s'.ps i).active = p.active := by
    rw [hk.active, ps_setPs_same]
  have hvalid : (s'.ps i).valid = p.valid := by
    rw [hk.valid, ps_setPs_same]
  refine ⟨⟨hk.wf (wf_congr h.wf rfl fun _ => rfl), fun q ha => ?_, hk.bug.trans h.bug,
    hk.warned.trans h.warned⟩, fun q hl => ?_, fun j hj => ?_, fun j hj q hq => ?_⟩
  · unfold TxState.sleeps
    cases hq : q.owner with
    | none =>
      rw [hothers q (by simp [hq])] at ha ⊢
      have hold := h.queue q ha
      rw [TxState.sleeps, hq] at hold
      exact hold
    | some j =>
      by_cases hj : j = i
      · subst hj
        rw [hown q hq] at ha ⊢
        dsimp only
        rw [hactive]
        exact hok q hq ha
      · rw [hothers q (by simpa [hq] using hj)] at ha ⊢
        have hold := h.queue q ha
        rw [TxState.sleeps, hq] at hold
        dsimp only at hold ⊢
        rw [hk.active, ps_setPs_other s p hj]
        exact hold
  · by_cases hq : q.owner = some i
    · rw [hown q hq] at hl ⊢
      exact hlist q hq hl
    · rw [hothers q hq] at hl ⊢
      exact h.inUse q hl
  · by_cases hji : j = i
    · rw [hji, hactive] at hj
      rw [hji, hvalid]
      exact hawake hj
    · rw [hk.active, ps_setPs_other s p hji] at hj
      rw [hk.valid, ps_setPs_other s p hji]
      exact h.awake j hj
  · by_cases hji : j = i
    · rw [hji] at hq
      rw [hji, hvalid] at hj
      rw [hown q hq]
      exact hqueues hj q hq
    · rw [hk.valid, ps_setPs_other s p hji] at hj
      rw [hothers q (by simpa [hq] using hji)]
      exact h.queues j hj q hq

theorem Settled.staInit (h : Settled s) {i : Sta} (stop : List StopReason)
    (uapsdTids : BitVec 16) (tdls mesh : Bool) (hfree : ∀ q ∈ i.txqs, (s.txq q).active = false) :
    Settled (txqStaInit s i stop uapsdTids tdls mesh) := by
  let p : Ps := { s.ps i with valid := true, active := false, tdlsActive := tdls, mesh }
  obtain ⟨hkeeps, htxq⟩ := foldl_sets (s := s.setPs i p)
    (f := fun s q => s.setTxq q (txqInit stop (psIdOf uapsdTids q)))
    (g := fun q _ => txqInit stop (psIdOf uapsdTids q)) (P := fun t => t.inHwqList = false)
    (fun s q _ hq => sets_setTxq s hq.symm) (nodup_txqs i)
    fun q hq => h.flag (hfree q hq)
  exact h.station p (fun q _ => txqInit stop (psIdOf uapsdTids q)) hkeeps htxq
    (fun q _ _ => ok_init stop _ _) nofun nofun fun _ _ _ => rfl

theorem Settled.staReset (h : Settled s) (i : Sta) :
    Settled (s.setPs i { s.ps i with valid := false, active := false }) := by
  apply h.station { s.ps i with valid := false, active := false } (fun _ t => t) (Keeps.refl _)
  · intro q
    exact (ite_self _).symm
  · intro q _ ha
    exact (h.queue q ha).toSleep false nofun
  · intro q _
    exact h.inUse q
  · nofun
  · nofun

theorem Txq.active_stopped (t : Txq) (reason : StopReason) :
    (t.stopped reason).active = t.active := by
  unfold Txq.stopped
  split <;> rfl

theorem Txq.active_started (t : Txq) (reason : StopReason) :
    (t.started reason).active = t.active := by
  unfold Txq.started
  split <;> rfl

theorem Settled.psEnable (h : Settled s) {i : Sta} (hvalid : (s.ps i).valid = true) :
    Settled (psBhEnable s i true) := by
  let p : Ps := { s.ps i with active := true, spCnt := fun _ => 0 }
  obtain ⟨hkeeps, htxq⟩ := foldl_sets (s := s.setPs i p) (f := fun s q => txqStop s q .staPs)
    (g := fun _ t => t.stopped .staPs) (P := fun _ => True)
    (fun s q _ _ => sets_txqStop s q .staPs) (nodup_txqs i) fun _ _ => trivial
  refine h.station p (fun _ t => t.stopped .staPs) (hkeeps.trans (keeps_setPs _ rfl rfl)) htxq
    (fun q _ ha => ?_) (fun q hq _ => ?_) (fun _ => hvalid) fun _ q hq => ?_
  · rw [Txq.active_stopped] at ha
    have hstop : StopReason.staPs ∈ ((s.txq q).stopped .staPs).stop := by
      rw [Txq.stopped, if_pos ha]
      exact List.mem_insert_self
    exact ((h.queue q ha).stopped ha .staPs).toSleep true fun _ => .inr hstop
  · rw [Txq.active_stopped]
    exact h.queues i hvalid q hq
  · rw [Txq.active_stopped]
    exact h.queues i hvalid q hq

/-- A station that wakes is served from then on like any other. -/
theorem Settled.psDisable (h : Settled s) {i : Sta} (hvalid : (s.ps i).valid = true) :
    Settled (psBhEnable s i false) := by
  let p : Ps := { s.ps i with active := false }
  obtain ⟨hk₁, ht₁⟩ := foldl_sets (s := s.setPs i p)
    (f := fun s q => s.setTxq q { s.txq q with pushLimit := 0 })
    (g := fun _ t => { t with pushLimit := 0 }) (P := fun _ => True)
    (fun s q _ _ => (Sets.refl s q).modify (fun t => { t with pushLimit := 0 }) rfl)
    (nodup_txqs i) fun _ _ => trivial
  obtain ⟨hk₂, ht₂⟩ := foldl_sets (s := i.txqs.foldl
      (fun s q => s.setTxq q { s.txq q with pushLimit := 0 }) (s.setPs i p))
    (f := fun s q => txqStart s q .staPs)
    (g := fun _ t => t.started .staPs) (P := fun _ => True)
    (fun s q _ _ => sets_txqStart s q .staPs) (nodup_txqs i) fun _ _ => trivial
  have hk := hk₁.trans hk₂
  let g : TxqId → Txq → Txq := fun _ t => Txq.started { t with pushLimit := 0 } .staPs
  have htxq : ∀ q, (i.txqs.foldl (fun s q => txqStart s q .staPs) (i.txqs.foldl
      (fun s q => s.setTxq q { s.txq q with pushLimit := 0 }) (s.setPs i p))).txq q =
      if q ∈ i.txqs then g q (s.txq q) else s.txq q := by
    intro q
    rw [ht₂, ht₁]
    split <;> rfl
  have hactive : ∀ q, q.owner = some i → (g q (s.txq q)).active = true := by
    intro q hq
    dsimp only [g]
    rw [Txq.active_started]
    exact h.queues i hvalid q hq
  have hok : ∀ q, q.owner = some i → (g q (s.txq q)).Ok q.hasNdev false := by
    intro q hq
    have hold := (h.queue q (h.queues i hvalid q hq)).limited (Nat.zero_le _)
      (by have hc := (h.queue q (h.queues i hvalid q hq)).credits_pos; omega)
      fun hne => absurd rfl hne
    apply (hold.toSleep false nofun).started
    rintro (hne | hne)
    · exact absurd rfl hne
    · cases hne
  have hdone := h.station p g hk htxq (fun q hq _ => hok q hq) (fun q hq _ => hactive q hq)
    nofun fun _ => hactive
  unfold psBhEnable
  rw [if_neg (by simp)]
  dsimp only
  split
  · exact hdone.sets (sets_setTrafficStatus _ .offchan i false .legacy)
      (fun ha => hdone.queue _ ha) rfl (hdone.inUse _)
  · exact hdone

theorem Settled.start (h : Settled s) (q : TxqId) {reason : StopReason} (hr : reason ≠ .staPs) :
    Settled (txqStart s q reason) := by
  apply h.sets (sets_txqStart s q reason)
  · intro ha
    rw [Txq.active_started] at ha
    exact (h.queue q ha).started reason fun _ => hr
  · exact Txq.active_started _ _
  · intro hl
    rw [Txq.active_started]
    by_contra hna
    rw [Txq.started, if_neg fun hc => hna hc.1] at hl
    exact hna (h.inUse q hl)

theorem Settled.stop (h : Settled s) (q : TxqId) (reason : StopReason) :
    Settled (txqStop s q reason) := by
  apply h.sets (sets_txqStop s q reason)
  · intro ha
    rw [Txq.active_stopped] at ha
    exact (h.queue q ha).stopped ha reason
  · exact Txq.active_stopped _ _
  · intro hl
    rw [Txq.active_stopped]
    by_contra hna
    rw [Txq.stopped, if_neg hna] at hl
    exact hna (h.inUse q hl)

theorem Settled.creditUpdate (h : Settled s) (q : TxqId) : Settled (txqCreditUpdate s q) := by
  unfold txqCreditUpdate
  split
  · split
    · exact h.stop q .full
    · exact h.start q (by decide)
  · exact h

/-- Only a queue out of the reach of stations that are there may change its use. -/
theorem Settled.reuse (h : Settled s) (hs : Sets s s' q t)
    (hq : t.active = true → t.Ok q.hasNdev (s.sleeps q))
    (hlisted : t.inHwqList = true → t.active = true)
    (hfree : ∀ i, q.owner = some i → (s.ps i).valid = false) : Settled s' where
  toInv := h.toInv.sets hs hq
  inUse := by
    intro q'
    by_cases hne : q' = q
    · rw [hne, hs.same]
      exact hlisted
    · rw [hs.other hne]
      exact h.inUse q'
  awake := by
    intro i
    rw [hs.active, hs.valid]
    exact h.awake i
  queues := by
    intro i hi q' hq'
    rw [hs.valid] at hi
    by_cases hne : q' = q
    · rw [hne] at hq'
      rw [hfree i hq'] at hi
      cases hi
    · rw [hs.other hne]
      exact h.queues i hi q' hq'

theorem Settled.deinit (h : Settled s) (hfree : ∀ i, q.owner = some i → (s.ps i).valid = false) :
    Settled (txqDeinit s q) := by
  have hoff : (s.txq q).deinited.active = false := by
    unfold Txq.deinited
    split
    · rfl
    · next hna => simpa using hna
  apply h.reuse (sets_txqDeinit s q) _ _ hfree
  · intro ha
    rw [hoff] at ha
    cases ha
  · intro hl
    unfold Txq.deinited at hl ⊢
    split at hl
    · cases hl
    · next hna => exact absurd (h.inUse q hl) hna

theorem Settled.init (h : Settled s) (stop : List StopReason) (hown : q.owner = none)
    (hactive : (s.txq q).active = false) : Settled (s.setTxq q (txqInit stop .legacy)) := by
  apply h.reuse (sets_setTxq s (h.flag hactive).symm)
  · intro _
    rw [TxState.sleeps, hown]
    exact ok_init stop _ _
  · nofun
  · intro i hi
    rw [hown] at hi
    cases hi

theorem Settled.xmit (h : Settled s) {skb : Skb} (hskb : skb ∉ (s.txq q).skList) :
    Settled (xmitSection s q skb) := by
  obtain ⟨hfst, hset⟩ := sets_txqQueueSkb s q skb false
  obtain ⟨hactive, -, hflag, -⟩ := Txq.enqueue_keeps (s.txq q) skb false
  have hok : (s.txq q).active = true →
      ((s.txq q).queuedUp q.hasNdev skb false).Ok q.hasNdev (s.sleeps q) := by
    intro ha
    exact (h.queue q ha).queuedUp hskb false (s.txq q).credits (by simp) nofun
  unfold xmitSection
  generalize txqQueueSkb s q skb false = r at hfst hset
  obtain ⟨b, s₁⟩ := r
  dsimp only at hfst hset ⊢
  have hact : ((s.txq q).queuedUp q.hasNdev skb false).active = (s.txq q).active := hactive
  cases b with
  | false =>
    apply h.sets hset (fun ha => hok (hact ▸ ha)) hact
    intro hl
    rw [hact]
    apply h.inUse q
    rw [Txq.queuedUp] at hl
    dsimp only at hl
    rw [← hfst, Bool.or_false] at hl
    exact hl
  | true =>
    apply settled_hwqProcess (h.toInv.sets hset fun ha => hok (hact ▸ ha))
    · intro q' hq' hl
      have hne : q' ≠ q := by
        rintro rfl
        exact hq' rfl
      rw [hset.other hne] at hl ⊢
      exact h.inUse q' hl
    · intro i
      rw [hset.active, hset.valid]
      exact h.awake i
    · intro i hi q' hq'
      rw [hset.valid] at hi
      have hold := h.queues i hi q' hq'
      by_cases hne : q' = q
      · rw [hne] at hold ⊢
        rw [hset.same, hact]
        exact hold
      · rw [hset.other hne]
        exact hold

theorem Txq.started_credits (t : Txq) (reason : StopReason) (credits : ℤ) :
    Txq.started { t with credits } reason = { t.started reason with credits } := by
  unfold Txq.started
  split <;> rfl

theorem Txq.started_same (t : Txq) (reason : StopReason) :
    (t.started reason).skList = t.skList ∧ (t.started reason).requeued = t.requeued ∧
      (t.started reason).credits = t.credits := by
  unfold Txq.started
  split <;> exact ⟨rfl, rfl, rfl⟩

/-- A frame that comes back is queued before the others, and its queue gets a credit. -/
theorem Settled.retry (h : Settled s) {skb : Skb} (hactive : (s.txq q).active = true)
    (hskb : skb ∉ (s.txq q).skList) (hfew : (s.txq q).requeued.length < 63) :
    Settled (txRetry s q skb) := by
  have hok := h.queue q hactive
  have hcredit := hok.credits
  have hbmod : Int.bmod ((s.txq q).credits + 1) 256 = (s.txq q).credits + 1 := by
    rw [hcredit, nxTxqInitialCredits]
    apply Int.bmod_eq_of_le <;> omega
  have hpos : 0 < (s.txq q).credits + 1 := by
    have hge := hok.credits_pos
    omega
  have hset := (Sets.refl s q).modify (fun t => { t with credits := (s.txq q).credits + 1 }) rfl
  have hstart := hset.trans (sets_txqStart _ q .full)
  rw [hset.same, Txq.started_credits] at hstart
  have hqueue := hstart.trans (sets_txqQueueSkb _ q skb true).2
  rw [hstart.same] at hqueue
  obtain ⟨hlist, hreq, hcr⟩ := Txq.started_same (s.txq q) .full
  have hskb' : skb ∉ ((s.txq q).started .full).skList := by
    rw [hlist]
    exact hskb
  have hfew' : ((s.txq q).started .full).requeued.length < 63 := by
    rw [hreq]
    exact hfew
  have hdone := (hok.started .full fun _ => by decide).queuedUp hskb' true
    ((s.txq q).credits + 1) (by rw [hcr]; rfl) fun _ => hfew'
  have hact : (Txq.queuedUp { (s.txq q).started .full with credits := (s.txq q).credits + 1 }
      q.hasNdev skb true).active = true := by
    rw [Txq.queuedUp]
    dsimp only
    rw [(Txq.enqueue_keeps _ skb true).1]
    exact (Txq.active_started _ _).trans hactive
  unfold txRetry
  rw [hbmod]
  dsimp only
  rw [if_pos hpos]
  exact h.sets hqueue (fun _ => hdone) (hact.trans hactive.symm) fun _ => hact

theorem Settled.confirm (h : Settled s) (q : TxqId) (skb : Skb) (retry : Bool)
    (hretry : retry = true → skb ∉ (s.txq q).skList ∧ (s.txq q).requeued.length < 63) :
    Settled (txdatacfm s q skb retry) := by
  have hset := (Sets.refl s q).modify
    (fun t => { t with pktPushed := (s.txq q).pktPushed - 1 }) rfl
  have hpushed : Settled (s.setTxq q { s.txq q with pktPushed := (s.txq q).pktPushed - 1 }) :=
    h.sets hset (fun ha => (h.queue q ha).pushed _) rfl (h.inUse q)
  generalize hs₁ : s.setTxq q { s.txq q with pktPushed := (s.txq q).pktPushed - 1 } = s₁
    at hset hpushed
  have hneed : Settled { s₁ with
      needProcessing := Function.update s₁.needProcessing q.hwq true } :=
    ⟨hpushed.toInv.unneeded _, hpushed.inUse, hpushed.awake, hpushed.queues⟩
  have hsame := hset.same
  unfold txdatacfm txqConfirmAny settleSkb
  dsimp only
  rw [hs₁]
  split
  · next hc =>
    obtain ⟨hskb, hfew⟩ := hretry hc.2.2
    apply hneed.retry hc.2.1
    · dsimp only
      rw [hsame]
      exact hskb
    · dsimp only
      rw [hsame]
      exact hfew
  · split
    · next hc =>
      have hok := hneed.queue q hc.1
      have hne : (s₁.txq q).skList ≠ [] := by
        intro hnil
        have hlim := hok.limit.1
        dsimp only at hlim
        rw [hnil, List.length_nil] at hlim
        exact hc.2.1 (Nat.le_zero.mp hlim)
      exact hneed.sets (sets_addToHwList _ q) (fun _ => hok.listed hne) rfl fun _ => hc.1
    · exact hneed

end NervesSystem.TxSched
