import NervesSystem.RxPool

namespace NervesSystem.RxReorder

open Trace Reorder

/-- What becomes of buffers by an event of one control. -/
def handed (mac : Bytes) (tid : Fin 8) (s : RxPriv) (e : RxEvent) : List Fate :=
  if e.concerns mac tid then (rxStep s e).fates.drop s.fates.length else []

/-- What `reord_single_frame_ind` makes of a frame. -/
def indFate (f : RecvMsdu) : Fate := if f.forward then .netif f else .kfree f.pkt

theorem fates_ind (s : RxPriv) (f : RecvMsdu) :
    (reordSingleFrameInd s f).fates = s.fates ++ [indFate f] := by
  unfold reordSingleFrameInd indFate
  split_ifs <;> rfl

theorem fates_foldl_ind (s : RxPriv) (fs : List RecvMsdu) :
    (fs.foldl reordSingleFrameInd s).fates = s.fates ++ fs.map indFate := by
  induction fs generalizing s with
  | nil => simp
  | cons f fs ih => rw [List.foldl_cons, ih, fates_ind, List.append_assoc, List.map_cons,
      List.singleton_append]

theorem handed_eq {mac : Bytes} {tid : Fin 8} {s : RxPriv} {e : RxEvent} {out : List Fate}
    (he : e.concerns mac tid = true) (h : (rxStep s e).fates = s.fates ++ out) :
    handed mac tid s e = out := by
  rw [handed, if_pos he, h, List.drop_left]

theorem handed_other {mac : Bytes} {tid : Fin 8} {e : RxEvent} (he : ¬e.concerns mac tid = true)
    (s : RxPriv) : handed mac tid s e = [] :=
  if_neg he

theorem ctrl_of_stas {s s' : RxPriv} (h : s'.stasReordList = s.stasReordList) (mac : Bytes)
    (tid : Fin 8) : s'.ctrl mac tid = s.ctrl mac tid := by
  rw [RxPriv.ctrl, h, RxPriv.ctrl]

theorem findSta_setSta {mac mac' : Bytes} {i i' : ReordCtrlInfo} {l : List ReordCtrlInfo}
    (h : findSta mac' l = some i) (hi : i'.macAddr = mac') :
    findSta mac (setSta mac' i' l) = if mac = mac' then some i' else findSta mac l := by
  induction l with
  | nil => simp [findSta] at h
  | cons k l ih =>
    rw [setSta]
    by_cases hk : k.macAddr = mac'
    · rw [if_pos hk]
      by_cases hm : mac = mac'
      · simp [findSta, hi, hm]
      · have hne : ¬mac' = mac := fun h => hm h.symm
        simp [findSta, hi, hk, hm, hne]
    · rw [if_neg hk]
      have hl : findSta mac' l = some i := by simpa [findSta, hk] using h
      have ih := ih hl
      unfold findSta at ih ⊢
      rw [List.find?_cons, ih, List.find?_cons]
      by_cases hm : mac = mac'
      · simp [hm, hk]
      · simp [hm]

theorem findSta_eraseSta {mac mac' : Bytes} (hne : ¬mac = mac') (l : List ReordCtrlInfo) :
    findSta mac (l.eraseP fun i => i.macAddr = mac') = findSta mac l := by
  induction l with
  | nil => rfl
  | cons k l ih =>
    unfold findSta at ih ⊢
    by_cases hk : k.macAddr = mac'
    · have hkm : ¬k.macAddr = mac := fun h => hne (h.symm.trans hk)
      rw [List.eraseP_cons_of_pos (by simpa using hk), List.find?_cons_of_neg (by simpa using hkm)]
    · rw [List.eraseP_cons_of_neg (by simpa using hk), List.find?_cons, ih, List.find?_cons]

/-- One control is set, the others stay as they are. -/
def Sets (s s' : RxPriv) (mac : Bytes) (tid : Fin 8) (c : ReordCtrl) : Prop :=
  ∀ m t, s'.ctrl m t = if m = mac ∧ t = tid then c else s.ctrl m t

section Sets

variable {s s' : RxPriv} {mac : Bytes} {tid : Fin 8} {c : ReordCtrl}

theorem Sets.own (h : Sets s s' mac tid c) : s'.ctrl mac tid = c :=
  (h mac tid).trans (if_pos ⟨rfl, rfl⟩)

theorem Sets.other (h : Sets s s' mac tid c) {m : Bytes} {t : Fin 8}
    (hne : ¬(m = mac ∧ t = tid)) : s'.ctrl m t = s.ctrl m t :=
  (h m t).trans (if_neg hne)

theorem Sets.refl (s : RxPriv) (mac : Bytes) (tid : Fin 8) : Sets s s mac tid (s.ctrl mac tid) := by
  intro m t
  split_ifs with h
  · rw [h.1, h.2]
  · rfl

theorem sets_setCtrl {i : ReordCtrlInfo} (hi : findSta mac s.stasReordList = some i)
    (hs : s'.stasReordList = setSta mac (i.set tid c) s.stasReordList) : Sets s s' mac tid c := by
  intro m t
  have hmac : (i.set tid c).macAddr = mac := (findSta_mem hi).2
  rw [RxPriv.ctrl, hs, findSta_setSta hi hmac]
  by_cases hm : m = mac
  · subst hm
    simp only [RxPriv.ctrl, hi, ↓reduceIte, Option.getD_some, ReordCtrlInfo.set, true_and]
  · simp only [RxPriv.ctrl, hm, false_and, ↓reduceIte]

theorem sets_new (hnew : findSta mac s.stasReordList = none)
    (hs : s'.stasReordList = s.stasReordList ++ [(reordInitSta mac).set tid c]) :
    Sets s s' mac tid c := by
  intro m t
  have hfind : findSta m s'.stasReordList = (findSta m s.stasReordList).or
      (if mac = m then some ((reordInitSta mac).set tid c) else none) := by
    rw [hs]
    simp [findSta, List.find?_append, ReordCtrlInfo.set, reordInitSta]
  rw [RxPriv.ctrl, hfind]
  by_cases hm : m = mac
  · subst hm
    simp only [RxPriv.ctrl, hnew, Option.none_or, ↓reduceIte, Option.getD_some, Option.getD_none,
      ReordCtrlInfo.set, true_and]
  · have hne : ¬mac = m := fun h => hm h.symm
    simp only [RxPriv.ctrl, hne, Option.or_none, hm, false_and, ↓reduceIte]

theorem SetCtrl.sets {stas : List ReordCtrlInfo} (h : SetCtrl s.stasReordList mac tid c stas)
    (hs : s'.stasReordList = stas) : Sets s s' mac tid c := by
  cases h with
  | new hsta => exact sets_new hsta hs
  | known hsta => exact sets_setCtrl hsta hs

theorem sets_onCtrl (s : RxPriv) (mac : Bytes) (tid : Fin 8) {due : ReordCtrl → Bool}
    (next : ReordCtrl → ReordCtrl) (hinit : due .init = false) :
    Sets s (onCtrl s mac tid due next) mac tid
      (if due (s.ctrl mac tid) then next (s.ctrl mac tid) else s.ctrl mac tid) := by
  have hrefl := Sets.refl s mac tid
  unfold onCtrl
  cases hsta : findSta mac s.stasReordList with
  | none =>
    rw [ctrl_none hsta, hinit] at *
    exact hrefl
  | some i =>
    rw [ctrl_some hsta] at *
    dsimp only
    split_ifs with hd
    · exact sets_setCtrl hsta rfl
    · exact hrefl

theorem sets_workRuns (s : RxPriv) (mac : Bytes) (tid : Fin 8) :
    Sets s (workRuns s mac tid) mac tid (if (s.ctrl mac tid).workPending then
      (reordTimeoutWorker (s.ctrl mac tid)).2 else s.ctrl mac tid) ∧
    (workRuns s mac tid).fates = s.fates ++ (if (s.ctrl mac tid).workPending then
      (reordTimeoutWorker (s.ctrl mac tid)).1.map indFate else []) := by
  have hrefl := Sets.refl s mac tid
  unfold workRuns
  cases hsta : findSta mac s.stasReordList with
  | none =>
    rw [ctrl_none hsta] at *
    exact ⟨hrefl, (List.append_nil _).symm⟩
  | some i =>
    rw [ctrl_some hsta] at *
    dsimp only
    split_ifs with hp
    · exact ⟨sets_setCtrl hsta (done_foldl done_ind _ _).stas, fates_foldl_ind _ _⟩
    · exact ⟨hrefl, (List.append_nil _).symm⟩

end Sets

theorem reordProcessUnit_other {mac : Bytes} {tid : Fin 8} (s : RxPriv) (vif : Option Iftype)
    (noMem : Bool) (skb : SkBuff) (seqNum : SeqNum) (t : Fin 8) (forward isAmsdu : Bool)
    (he : ¬(RxEvent.unit vif noMem skb seqNum t forward isAmsdu).concerns mac tid = true) :
    (reordProcessUnit s vif noMem skb seqNum t forward isAmsdu).ctrl mac tid = s.ctrl mac tid := by
  have h := reordProcessUnit_processed s vif noMem skb seqNum t forward isAmsdu
  generalize reordProcessUnit s vif noMem skb seqNum t forward isAmsdu = s' at h
  cases h with
  | freed => exact ctrl_of_stas rfl _ _
  | ind => exact ctrl_of_stas (done_ind _ _).stas _ _
  | lost => exact ctrl_of_stas rfl _ _
  | ctrl _ h hset =>
    rw [ctrl_of_stas (settleUnit_stas _ _ _ _)]
    exact (hset.sets rfl).other fun hm => he ((h mac tid).mpr hm)

/-- Controls that an event is not about stay as they are. -/
theorem rxStep_other {mac : Bytes} {tid : Fin 8} {e : RxEvent} (he : ¬e.concerns mac tid = true)
    (s : RxPriv) : (rxStep s e).ctrl mac tid = s.ctrl mac tid := by
  cases e with
  | unit vif noMem skb seqNum t forward isAmsdu =>
    exact reordProcessUnit_other s vif noMem skb seqNum t forward isAmsdu he
  | flush iftype skb t =>
    simp only [rxStep, reordFlushTid]
    cases hmac : macOf iftype skb with
    | none => exact ctrl_of_stas rfl _ _
    | some m =>
      have hne : ¬(mac = m ∧ tid = t) := by
        rintro ⟨rfl, rfl⟩
        exact he (by simp [RxEvent.concerns, hmac])
      dsimp only
      cases hsta : findSta m s.stasReordList with
      | none => rfl
      | some i =>
        dsimp only
        split_ifs
        · rw [(done_foldl done_ind s _).stas]
          exact (sets_setCtrl hsta rfl).other hne
        · rfl
  | deinit m =>
    have hne : ¬m = mac := by simpa [RxEvent.concerns] using he
    simp only [rxStep, reordDeinitSta]
    cases hsta : findSta m s.stasReordList with
    | none => rfl
    | some i =>
      dsimp only
      rw [(done_foldl done_drop s _).stas, RxPriv.ctrl, RxPriv.ctrl]
      rw [findSta_eraseSta fun h => hne h.symm]
  | timer m t =>
    refine (sets_onCtrl s m t expireTimer rfl).other ?_
    rintro ⟨rfl, rfl⟩
    exact he (by simp [RxEvent.concerns])
  | handler m t =>
    refine (sets_onCtrl s m t reordTimeoutHandler rfl).other ?_
    rintro ⟨rfl, rfl⟩
    exact he (by simp [RxEvent.concerns])
  | work m t =>
    refine (sets_workRuns s m t).1.other ?_
    rintro ⟨rfl, rfl⟩
    exact he (by simp [RxEvent.concerns])

theorem onCtrl_fates (s : RxPriv) (mac : Bytes) (tid : Fin 8) (due : ReordCtrl → Bool)
    (next : ReordCtrl → ReordCtrl) : (onCtrl s mac tid due next).fates = s.fates := by
  unfold onCtrl
  cases findSta mac s.stasReordList with
  | none => rfl
  | some i =>
    dsimp only
    split_ifs <;> rfl

/-- The control meets no frame, flush or removal. -/
def Quiet (mac : Bytes) (tid : Fin 8) (e : RxEvent) : Prop :=
  e.concerns mac tid = true → e = .timer mac tid ∨ e = .handler mac tid ∨ e = .work mac tid

theorem timer_own (s : RxPriv) (mac : Bytes) (tid : Fin 8) :
    (rxStep s (.timer mac tid)).ctrl mac tid =
      (if timerDue (s.ctrl mac tid) then expireTimer (s.ctrl mac tid) else s.ctrl mac tid) ∧
    handed mac tid s (.timer mac tid) = [] :=
  ⟨(sets_onCtrl s mac tid expireTimer rfl).own, handed_eq (by simp [RxEvent.concerns])
    (by simp [rxStep, timerEnds, onCtrl_fates])⟩

theorem handler_own (s : RxPriv) (mac : Bytes) (tid : Fin 8) :
    (rxStep s (.handler mac tid)).ctrl mac tid =
      (if (s.ctrl mac tid).timerExpired then reordTimeoutHandler (s.ctrl mac tid)
        else s.ctrl mac tid) ∧
    handed mac tid s (.handler mac tid) = [] :=
  ⟨(sets_onCtrl s mac tid reordTimeoutHandler rfl).own, handed_eq (by simp [RxEvent.concerns])
    (by simp [rxStep, handlerRuns, onCtrl_fates])⟩

theorem work_own (s : RxPriv) (mac : Bytes) (tid : Fin 8) :
    (rxStep s (.work mac tid)).ctrl mac tid = (if (s.ctrl mac tid).workPending then
      (reordTimeoutWorker (s.ctrl mac tid)).2 else s.ctrl mac tid) ∧
    handed mac tid s (.work mac tid) = if (s.ctrl mac tid).workPending then
      (reordTimeoutWorker (s.ctrl mac tid)).1.map indFate else [] :=
  ⟨(sets_workRuns s mac tid).1.own, handed_eq (by simp [RxEvent.concerns])
    (sets_workRuns s mac tid).2⟩

theorem reordTimeoutWorker_length {c : ReordCtrl} {b : Option (Buffer RecvMsdu)}
    (h : InStep c b) : (reordTimeoutWorker c).2.reordList.length ≤ c.reordList.length - 1 := by
  have hlen := congrArg List.length (reordTimeoutWorker_append c)
  rw [List.length_append] at hlen
  by_cases hc : c.reordList = []
  · rw [hc, List.length_nil] at hlen
    omega
  · have := List.length_pos_of_ne_nil (h.work_ne_nil hc)
    omega

/-- What a quiet event hands on is what leaves the list, at its front. -/
theorem quiet_append {mac : Bytes} {tid : Fin 8} {e : RxEvent} (he : Quiet mac tid e)
    (s : RxPriv) : handed mac tid s e ++ ((rxStep s e).ctrl mac tid).reordList.map indFate =
      (s.ctrl mac tid).reordList.map indFate := by
  by_cases hc : e.concerns mac tid = true
  · rcases he hc with rfl | rfl | rfl
    · obtain ⟨hctrl, hout⟩ := timer_own s mac tid
      rw [hctrl, hout]
      split_ifs <;> rfl
    · obtain ⟨hctrl, hout⟩ := handler_own s mac tid
      rw [hctrl, hout]
      split_ifs <;> rfl
    · obtain ⟨hctrl, hout⟩ := work_own s mac tid
      rw [hctrl, hout]
      split_ifs
      · rw [← List.map_append, reordTimeoutWorker_append]
      · rfl
  · rw [handed_other hc, rxStep_other hc, List.nil_append]

/-- The control holds at most one frame more than `n`, and where it does, more is known of it. -/
structure Nearing (mac : Bytes) (tid : Fin 8) (n : ℕ) (due : ReordCtrl → Prop) (s : RxPriv) :
    Prop where
  sound : AllSound False s
  length_le : (s.ctrl mac tid).reordList.length ≤ n + 1
  due : n < (s.ctrl mac tid).reordList.length → due (s.ctrl mac tid)

def HandlerDue (c : ReordCtrl) : Prop := c.timerExpired = true ∨ c.workPending = true

def WorkDue (c : ReordCtrl) : Prop := c.workPending = true

theorem handlerDue_kept (c : ReordCtrl) (_ : HandlerDue c) :
    HandlerDue (expireTimer c) ∧ HandlerDue (reordTimeoutHandler c) :=
  ⟨.inl rfl, .inr rfl⟩

theorem workDue_kept (c : ReordCtrl) (h : WorkDue c) :
    WorkDue (expireTimer c) ∧ WorkDue (reordTimeoutHandler c) :=
  ⟨h, rfl⟩

section Nearing

variable {mac : Bytes} {tid : Fin 8} {n : ℕ} {due : ReordCtrl → Prop} {s : RxPriv}

theorem Nearing.quiet {e : RxEvent} (he : Quiet mac tid e)
    (hkeep : ∀ c, due c → due (expireTimer c) ∧ due (reordTimeoutHandler c))
    (h : Nearing mac tid n due s) : Nearing mac tid n due (rxStep s e) := by
  have hsound := allSound_rxStep h.sound e False.elim
  have hlen := congrArg List.length (quiet_append he s)
  rw [List.length_append, List.length_map, List.length_map] at hlen
  have hle := h.length_le
  refine ⟨hsound, by omega, fun hn => ?_⟩
  have hdue := h.due (by omega)
  by_cases hc : e.concerns mac tid = true
  · rcases he hc with rfl | rfl | rfl
    · rw [(timer_own s mac tid).1]
      split_ifs
      · exact (hkeep _ hdue).1
      · exact hdue
    · rw [(handler_own s mac tid).1]
      split_ifs
      · exact (hkeep _ hdue).2
      · exact hdue
    · rw [(work_own s mac tid).1] at hn ⊢
      split_ifs at hn ⊢
      · obtain ⟨b, hb⟩ := (h.sound.ctrl mac tid).inStep
        have := reordTimeoutWorker_length hb
        omega
      · exact hdue
  · rw [rxStep_other hc]
    exact hdue

theorem Nearing.timer (h : Nearing mac tid n (fun _ => True) s) :
    Nearing mac tid n HandlerDue (rxStep s (.timer mac tid)) := by
  have hq := h.quiet (e := .timer mac tid) (fun _ => .inl rfl) fun _ _ => ⟨trivial, trivial⟩
  refine ⟨hq.sound, hq.length_le, fun hn => ?_⟩
  rw [(timer_own s mac tid).1] at hn ⊢
  split_ifs at hn ⊢ with hd
  · exact .inl rfl
  -- The timer does not end here, and a frame is held, so handler or work is on the way.
  · have hne : (s.ctrl mac tid).reordList ≠ [] := List.ne_nil_of_length_pos (by omega)
    rcases (h.sound.ctrl mac tid).armed hne with hp | hx | hw
    · have hx : (s.ctrl mac tid).timerExpired = true := by simpa [timerDue, hp] using hd
      exact .inl hx
    · exact .inl hx
    · exact .inr hw

theorem Nearing.handler (h : Nearing mac tid n HandlerDue s) :
    Nearing mac tid n WorkDue (rxStep s (.handler mac tid)) := by
  have hq := h.quiet (e := .handler mac tid) (fun _ => .inr (.inl rfl)) handlerDue_kept
  refine ⟨hq.sound, hq.length_le, fun hn => ?_⟩
  rw [(handler_own s mac tid).1] at hn ⊢
  split_ifs at hn ⊢ with hx
  · rfl
  · exact (h.due hn).resolve_left hx

theorem Nearing.work (h : Nearing mac tid n WorkDue s) :
    Nearing mac tid n (fun _ => False) (rxStep s (.work mac tid)) := by
  have hq := h.quiet (e := .work mac tid) (fun _ => .inr (.inr rfl)) workDue_kept
  refine ⟨hq.sound, hq.length_le, fun hn => ?_⟩
  have hp := hq.due hn
  rw [(work_own s mac tid).1] at hn
  obtain ⟨b, hb⟩ := (h.sound.ctrl mac tid).inStep
  have hlen := reordTimeoutWorker_length hb
  have hle := h.length_le
  have hdue := h.due
  split_ifs at hn with hw
  · omega
  · exact hw (hdue hn)

end Nearing

end NervesSystem.RxReorder
