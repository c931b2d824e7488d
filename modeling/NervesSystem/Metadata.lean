import NervesSystem.Recovery
import NervesSystem.TrialBoot

namespace NervesSystem
open Crash

/-- The variables that say which firmware a slot holds, with what an archive puts there. -/
def metadata : List (String × (Archive → String)) :=
  [("nerves_fw_version", Archive.version),
   ("nerves_fw_platform", Archive.platform),
   ("nerves_fw_architecture", Archive.architecture),
   ("nerves_fw_uuid", Archive.uuid)]

/-- The two of them that `fwup` goes by, and that `prevent-revert` unsets. -/
def deviceVars : List String := ["nerves_fw_platform", "nerves_fw_architecture"]

def metadataVars : List String := metadata.map Prod.fst

/-- Power is lost before anything is done of operation number `n`. -/
def LostBefore (loss : Option PowerLoss) (n : ℕ) : Prop :=
  ∃ l, loss = some l ∧ (l.operations < n ∨ l.operations = n ∧ l.bytes = 0)

section Metadata
variable (names : List String) (B : Archive) (H : List Archive) (z : Slot) (m : Media)

def Present : Prop := ∃ v ∈ names, m.env (z.var v) ≠ none

/-- None of the variables says anything but what the archive says. -/
def Describes : Prop := ∀ p ∈ metadata, ∀ v, m.env (z.var p.1) = some v → v = p.2 B

/-- The slot holds the files of one archive, and its variables are that archive's. -/
def Truthful : Prop := ∃ B ∈ H, Written B z m ∧ Describes B z m

/-- Where one of the variables `names` is set, the slot is what its variables say. -/
def Tells : Prop := Present names z m → Truthful H z m

end Metadata

/-- Whether slot `z` has been wiped by a `prevent-revert` that reached its trim, with no
upgrade since that got past the four variables. -/
def revoked (z : Slot) (s : State) (r : Prop) : Event → Prop
  | .fwup (.preventRevert _) loss =>
    r ∨ s.media.env "nerves_fw_active" = some z.other.name ∧ ¬ LostBefore loss 3
  | .fwup (.upgrade A) loss => r ∧ ¬ (Gate A z.other s.media.env ∧ ¬ LostBy loss 4)
  | _ => r

section Slots
variable {names : List String} {A B : Archive} {H : List Archive} {x y z : Slot} {m m' : Media}
  {o : Operation} {ops : List Operation} {host : Host} {env : Env} {c : Command}

theorem Present.mono {names' : List String} (hn : names ⊆ names') (h : Present names z m) :
    Present names' z m := by
  obtain ⟨v, hv, he⟩ := h
  exact ⟨v, hn hv, he⟩

theorem Describes.carried (h : Describes B z m)
    (hv : ∀ v, Carried (m.env (z.var v)) (m'.env (z.var v))) : Describes B z m' :=
  fun p hp v he => h p hp v ((hv p.1).eq_some he)

theorem Truthful.carried (h : Truthful H z m) (hs : SlotCarried z m m') : Truthful H z m' := by
  obtain ⟨B, hB, hw, hd⟩ := h
  exact ⟨B, hB, hw.congr hs.image hs.dtb hs.rootfs, hd.carried hs.vars⟩

theorem Tells.carried (h : Tells names H z m) (hs : SlotCarried z m m') : Tells names H z m' := by
  rintro ⟨v, hv, he⟩
  obtain ⟨w, hw⟩ := Option.ne_none_iff_exists'.mp he
  exact (h ⟨v, hv, by simp [(hs.vars v).eq_some hw]⟩).carried hs

theorem Tells.mono {names' : List String} (hn : names ⊆ names') (h : Tells names' H z m) :
    Tells names H z m := fun hp => h (hp.mono hn)

theorem Tells.of_absent (h : ¬ Present names z m) : Tells names H z m := fun hp => absurd hp h

theorem tells_info (text : String) : Preserves machine (Tells names H z) (.info text) where
  torn m k hm := by rwa [torn_info]
  exec m m' hm he := by
    cases he
    exact hm

/-- What is unset makes nothing untrue. -/
theorem tells_unsetenv (v : String) :
    Preserves machine (Tells names H z) (.ubootUnsetenv (z.var v)) where
  torn m k hm := by rwa [torn_unsetenv]
  exec m m' hm he := by
    cases he
    have hv (w : String) (s : String) (h : (m.unsetenv (z.var v)).env (z.var w) = some s) :
        m.env (z.var w) = some s := by
      by_cases hw : z.var w = z.var v
      · simp [Media.unsetenv, hw] at h
      · simpa only [Media.unsetenv, Function.update_of_ne hw] using h
    rintro ⟨w, hw, hp⟩
    obtain ⟨s, hs⟩ := Option.ne_none_iff_exists'.mp hp
    obtain ⟨B, hB, hwr, hd⟩ := hm ⟨w, hw, by simp [hv w s hs]⟩
    exact ⟨B, hB, hwr.congr rfl rfl rfl, fun p hp s h => hd p hp s (hv p.1 s h)⟩

theorem present_frame (ho : ∀ v ∈ names, ¬ o.Sets (z.var v)) :
    Preserves machine (fun m => ¬ Present names z m) o where
  torn m k hm := fun ⟨v, hv, he⟩ => hm ⟨v, hv, (frames_env (ho v hv)).torn m k ▸ he⟩
  exec m m' hm he := fun ⟨v, hv, hp⟩ => hm ⟨v, hv, (frames_env (ho v hv)).exec m m' he ▸ hp⟩

theorem Triple.of_sameSlot {I : Media → Prop} (hI : ∀ m m', I m → SameSlot z m m' → I m')
    (h : ∀ n k m, SameSlot z m (cut machine ops n k m)) : Triple machine I ops I I where
  safe m hm n k := hI _ _ hm (h n k m)
  post m m' hm hp := by
    have hs := h ops.length 0 m
    rw [← perform_fst ops _ 0 (Nat.le_refl _), hp] at hs
    exact hI _ _ hm hs

end Slots

section Operations
variable {names : List String} {A B : Archive} {H : List Archive} {x y z : Slot} {m m' : Media}
  {o : Operation} {ops : List Operation} {host : Host} {env : Env} {c : Command}

theorem clear_tells : Triple machine (Tells names H z) ((clearOperations z).take 5)
    (fun m => ¬ Present metadataVars z m) (Tells names H z) := by
  refine ⟨(Triple.invariant fun o ho => ?_).safe, fun m m' _ h => ?_⟩
  · simp only [clearOperations, List.take_succ_cons, List.take_zero, List.mem_cons,
      List.not_mem_nil, or_false] at ho
    rcases ho with rfl | rfl | rfl | rfl | rfl
    · exact tells_info _
    all_goals exact tells_unsetenv _
  · cases h
    simp [Present, metadataVars, metadata, Media.unsetenv]

theorem fill_absent : Triple machine (fun m => ¬ Present metadataVars z m)
    (.trim (.rootfs z) :: writeOperations B z) (fun m => Written B z m ∧ Describes B z m)
    (Tells metadataVars H z) := by
  have h : Triple machine (fun m => ¬ Present metadataVars z m)
      (.trim (.rootfs z) :: writeOperations B z) (fun m => ¬ Present metadataVars z m)
      (fun m => ¬ Present metadataVars z m) := by
    refine Triple.invariant fun o ho => present_frame fun v _ => ?_
    rcases List.mem_cons.mp ho with rfl | ho
    · exact id
    · exact write_sets ho
  refine ⟨fun m hm n k => .of_absent (h.safe m hm n k), fun m m' hm hp => ?_⟩
  have hm' := h.post m m' hm hp
  obtain ⟨u, -, hu⟩ := perform_cons_none.mp hp
  obtain ⟨-, rfl⟩ := perform_write.mp hu
  refine ⟨written_written, fun p hp v hv => absurd ?_ hm'⟩
  exact ⟨p.1, List.mem_map_of_mem hp, by simp [hv]⟩

theorem describe_metadata (ho : o ∈ describeOperations B z) :
    ∃ v s, o = .ubootSetenv (z.var v) s ∧ ∀ p ∈ metadata, p.1 = v → p.2 B = s := by
  simp only [describeOperations, List.mem_cons, List.not_mem_nil, or_false] at ho
  rcases ho with rfl | rfl | rfl | rfl | rfl | rfl | rfl | rfl | rfl | rfl | rfl | rfl <;>
    exact ⟨_, _, rfl, by simp [metadata]⟩

theorem describe_truthful (hB : B ∈ H) : Triple machine
    (fun m => Written B z m ∧ Describes B z m) (describeOperations B z) (Truthful H z)
    (Tells metadataVars H z) := by
  refine Triple.imp (Triple.invariant (I := fun m => Written B z m ∧ Describes B z m)
    fun o ho => ?_) (fun _ h => h) (fun m h => ⟨B, hB, h⟩) fun m h _ => ⟨B, hB, h⟩
  obtain ⟨v, s, rfl, hs⟩ := describe_metadata ho
  refine ⟨fun m k hm => by rwa [torn_setenv], fun m m' hm he => ?_⟩
  cases he
  refine ⟨hm.1.congr rfl rfl rfl, fun p hp w hw => ?_⟩
  by_cases hv : p.1 = v
  · simpa [Media.setenv, hv, hs p hp hv, eq_comm] using hw
  · exact hm.2 p hp w (by simpa [Media.setenv, hv] using hw)

theorem switch_sameSlot (n k : ℕ) (m : Media) :
    SameSlot z m (cut machine (switchOperations x) n k m) := by
  refine cut_sameSlot (fun o ho v => switch_sets (by simp) (by simp) (by simp) ho) ?_ ?_ ?_ n k m
  all_goals simp [switchOperations, Operation.Puts, Operation.Writes]

/-- From the trim on: nothing is said of the slot until it is whole. -/
theorem fill_tells (hB : B ∈ H) : Triple machine (fun m => ¬ Present metadataVars z m)
    (.trim (.rootfs z) :: writeOperations B z ++ describeOperations B z ++ switchOperations z)
    (Truthful H z) (Tells metadataVars H z) :=
  (fill_absent.append (describe_truthful hB)).append
    ((Triple.of_sameSlot (fun _ _ h hs => h.carried hs.carried) switch_sameSlot).imp (fun _ h => h)
      (fun _ h => h) fun _ h _ => h)

theorem upgrade_tells (hB : B ∈ H) (hn : names ⊆ metadataVars) : Triple machine
    (Tells names H z) (upgradeOperations B z) (Truthful H z) (Tells names H z) :=
  clear_tells.append ((fill_tells hB).imp (fun _ h => h) (fun _ h => h) fun _ h => h.mono hn)

/-- The part of a `prevent-revert` that only unsets variables. -/
theorem forget_tells : Triple machine (Tells names H z) ((preventRevertOperations z).take 3)
    (fun m => Tells names H z m ∧ ¬ Present deviceVars z m) (Tells names H z) := by
  have h : Triple machine (Tells names H z) ((preventRevertOperations z).take 3)
      (Tells names H z) (Tells names H z) := by
    refine Triple.invariant fun o ho => ?_
    simp only [preventRevertOperations, List.take_succ_cons, List.take_zero, List.mem_cons,
      List.not_mem_nil, or_false] at ho
    rcases ho with rfl | rfl | rfl
    · exact tells_info _
    all_goals exact tells_unsetenv _
  refine ⟨h.safe, fun m m' hm hp => ⟨h.post m m' hm hp, ?_⟩⟩
  cases hp
  simp [Present, deviceVars, Media.unsetenv]

theorem preventRevert_tells : Triple machine (Tells deviceVars H z) (preventRevertOperations z)
    (fun m => ¬ Present deviceVars z m) (Tells deviceVars H z) := by
  have h : Triple machine (fun m => ¬ Present deviceVars z m) ((preventRevertOperations z).drop 3)
      (fun m => ¬ Present deviceVars z m) (fun m => ¬ Present deviceVars z m) := by
    refine Triple.invariant fun o ho => present_frame fun v _ => ?_
    revert o
    simp [preventRevertOperations, Operation.Sets]
  exact forget_tells.append (h.imp (fun _ h => h.2) (fun _ h => h) fun _ h => .of_absent h)

theorem preventRevert_sameSlot (hz : z ≠ x) (n k : ℕ) (m : Media) :
    SameSlot z m (cut machine (preventRevertOperations x) n k m) := by
  refine cut_sameSlot ?_ ?_ ?_ ?_ n k m <;>
    simp [preventRevertOperations, Operation.Sets, Operation.Puts, Operation.Writes, hz.symm]

theorem revert_sameSlot (n k : ℕ) (m : Media) :
    SameSlot z m (cut machine (revertOperations x) n k m) := by
  refine cut_sameSlot ?_ ?_ ?_ ?_ n k m <;>
    simp [revertOperations, Operation.Sets, Operation.Puts, Operation.Writes,
      Ne.symm image_ne_extlinuxPath, Ne.symm dtb_ne_extlinuxPath]

/-- Two tasks alone touch what a slot holds and what is said of it. -/
theorem operations_sameSlot (host : Host) (hc : ∀ B, c ≠ .complete B)
    (hu : ∀ B, c = .upgrade B → ¬ Gate B z.other env)
    (hv : ∀ O, c = .preventRevert O → env "nerves_fw_active" ≠ some z.other.name) (n k : ℕ)
    (m : Media) : SameSlot z m (cut machine (c.operations host env) n k m) := by
  have hp := performs host env c
  generalize c.operations host env = ops at hp
  have hkeeps (hs : ∀ o ∈ ops, ∀ n, Slot.owner n = some z → ¬ o.Sets n)
      (hf : ∀ o ∈ ops, KeepsFiles o) : SameSlot z m (cut machine ops n k m) :=
    cut_sameSlot (fun o ho v => hs o ho _ (Slot.owner_var z v)) (fun o ho => (hf o ho).puts _)
      (fun o ho => (hf o ho).puts _) (fun o ho => (hf o ho).writes z) n k m
  cases hp with
  | refused text => rw [cut_error]; exact .refl z m
  | status O text => rw [cut_info]; exact .refl z m
  | mounted B => exact absurd rfl (hc B)
  | complete B => exact absurd rfl (hc B)
  | upgrade B y hg =>
    refine upgrade_sameSlot (fun hz => hu B rfl ?_) n k m
    simpa [hz] using hg
  | preventRevert O y hy =>
    refine preventRevert_sameSlot (fun hz => hv O rfl ?_) n k m
    simpa [hz] using hy
  | revert O x hg => exact revert_sameSlot n k m
  | provision B =>
    refine hkeeps (fun o ho n hn h => ?_) fun o ho => keepsFiles_provision ho
    obtain rfl := List.mem_singleton.mp ho
    exact absurd (congrArg Slot.owner h) (by rw [hn]; cases z <;> decide)
  | factoryReset O =>
    refine hkeeps ?_ fun o ho => keepsFiles_factoryReset ho
    simp [factoryResetOperations, Operation.Sets]
  | validate O =>
    refine hkeeps (fun o ho n hn h => ?_) fun o ho => keepsFiles_validate ho
    simp only [validateOperations, List.mem_cons, List.not_mem_nil, or_false] at ho
    rcases ho with rfl | rfl | rfl | rfl
    · exact h
    all_goals exact absurd (congrArg Slot.owner h) (by rw [hn]; cases z <;> decide)

end Operations

section Runs
variable {hush : Hush} {A : Archive} {H : List Archive} {z : Slot} {s : State} {e : Event}
  {es : List Event} {r : Prop}

/-- The point of `LostBy` and `LostBefore` at which a task is cut. -/
theorem exists_run_eq_point (c : Command) (host : Host) (loss : Option PowerLoss) (m : Media) :
    ∃ n k, c.run host loss m = cut machine (c.operations host m.env) n k m ∧
      ∀ j < (c.operations host m.env).length, (LostBy loss j ↔ n ≤ j) ∧
        (LostBefore loss j ↔ n < j ∨ n = j ∧ k = 0) := by
  cases loss with
  | none =>
    refine ⟨_, 0, (c.run_none host m).trans (perform_fst _ _ 0 (Nat.le_refl _) m),
      fun j hj => ⟨?_, ?_⟩⟩
    · exact iff_of_false (by simp [LostBy]) (Nat.not_le.mpr hj)
    · exact iff_of_false (by simp [LostBefore]) (by omega)
  | some l =>
    refine ⟨l.operations, l.bytes, c.run_some host l m, fun j _ => ⟨?_, ?_⟩⟩
    · simp [LostBy]
    · simp [LostBefore]

/-- What is said of slot `z` is true, but for the version and the uuid of a slot that a
`prevent-revert` has wiped. -/
structure Told (H : List Archive) (z : Slot) (m : Media) (r : Prop) : Prop where
  device : Tells deviceVars H z m
  firmware : ¬ r → Tells metadataVars H z m

theorem Told.of_tells (h : Tells metadataVars H z m) : Told H z m r :=
  ⟨h.mono (by decide), fun _ => h⟩

theorem Told.carried {m' : Media} {r' : Prop} (h : Told H z m r) (hs : SlotCarried z m m')
    (hr : r → r') : Told H z m' r' :=
  ⟨h.device.carried hs, fun hn => (h.firmware (mt hr hn)).carried hs⟩

theorem told_upgrade {B : Archive} (loss : Option PowerLoss) (h : Told H z s.media r)
    (hB : B ∈ H) (hg : Gate B z.other s.media.env) :
    Told H z ((Command.upgrade B).run s.host loss s.media) (r ∧ LostBy loss 4) := by
  have ho := operations_upgrade s.host hg
  obtain ⟨n, k, hrun, hpoint⟩ := exists_run_eq_point (.upgrade B) s.host loss s.media
  rw [Slot.other_other] at ho
  rw [ho] at hrun hpoint
  have hlen : (upgradeOperations B z).length = 26 := rfl
  rw [hrun, (hpoint 4 (by omega)).1]
  refine ⟨(upgrade_tells hB (by decide)).safe _ h.device n k, fun hn => ?_⟩
  by_cases hr : r
  · have h5 : ¬ n < ((clearOperations z).take 5).length := fun hlt => hn ⟨hr, Nat.le_of_lt_succ hlt⟩
    have hsplit : upgradeOperations B z = (clearOperations z).take 5 ++
      (.trim (.rootfs z) :: writeOperations B z ++ describeOperations B z ++
        switchOperations z) := rfl
    rw [hsplit, cut_append, if_neg h5]
    exact (fill_tells hB).safe _ (clear_tells.post s.media _ h.device rfl) _ k
  · exact (upgrade_tells hB (fun _ hv => hv)).safe _ (h.firmware hr) n k

theorem told_preventRevert (O : OpsArchive) (loss : Option PowerLoss) (h : Told H z s.media r)
    (ha : s.media.env "nerves_fw_active" = some z.other.name) :
    Told H z ((Command.preventRevert O).run s.host loss s.media) (r ∨ ¬ LostBefore loss 3) := by
  have ho := operations_preventRevert O s.host ha
  obtain ⟨n, k, hrun, hpoint⟩ := exists_run_eq_point (.preventRevert O) s.host loss s.media
  rw [Slot.other_other] at ho
  rw [ho] at hrun hpoint
  have hlen : (preventRevertOperations z).length = 6 := rfl
  rw [hrun, (hpoint 3 (by omega)).2]
  refine ⟨preventRevert_tells.safe _ h.device n k, fun hn => ?_⟩
  obtain ⟨hr, hn⟩ := not_or.mp hn
  replace hn := not_not.mp hn
  -- Until its trim begins, the task has only unset two of the variables.
  rcases hn with hn | ⟨rfl, rfl⟩
  · have hsplit : preventRevertOperations z =
        (preventRevertOperations z).take 3 ++ (preventRevertOperations z).drop 3 := rfl
    rw [hsplit, cut_append, if_pos (show n < ((preventRevertOperations z).take 3).length from hn)]
    exact forget_tells.safe _ (h.firmware hr) n k
  · exact (forget_tells.post s.media _ (h.firmware hr) rfl).1

theorem Told.step (h : Told H z s.media r)
    (hy : ∃ y : Slot, s.media.env "nerves_fw_active" = some y.name)
    (hc : ∀ B loss, e ≠ .fwup (.complete B) loss) (he : ∀ B, e.archive = some B → B ∈ H) :
    Told H z (step hush s e).media (revoked z s r e) := by
  cases e with
  | boot => exact h.carried (boot_carried hush hy z) id
  | fwup c loss =>
    have hkeeps (hu : ∀ B, c = .upgrade B → ¬ Gate B z.other s.media.env)
        (hv : ∀ O, c = .preventRevert O → s.media.env "nerves_fw_active" ≠ some z.other.name) :
        SlotCarried z s.media (c.run s.host loss s.media) := by
      obtain ⟨n, k, hr⟩ := c.exists_run_eq_cut s.host loss s.media
      rw [hr]
      exact (operations_sameSlot s.host (fun B hB => hc B loss (hB ▸ rfl)) hu hv n k
        s.media).carried
    simp only [NervesSystem.step]
    by_cases hu : ∃ B, c = .upgrade B
    · obtain ⟨B, rfl⟩ := hu
      by_cases hg : Gate B z.other s.media.env
      · simpa [revoked, hg] using told_upgrade loss h (he B rfl) hg
      · refine h.carried (hkeeps (fun B' hB => ?_) fun _ h => ?_) fun hr => ⟨hr, fun hn => hg hn.1⟩
        · cases hB
          exact hg
        · cases h
    by_cases hv : ∃ O, c = .preventRevert O
    · obtain ⟨O, rfl⟩ := hv
      by_cases ha : s.media.env "nerves_fw_active" = some z.other.name
      · simpa [revoked, ha] using told_preventRevert O loss h ha
      · exact h.carried (hkeeps (fun _ h => by cases h) fun _ _ => ha) Or.inl
    have hr : revoked z s r (.fwup c loss) = r := by
      cases c with
      | upgrade B => exact absurd ⟨B, rfl⟩ hu
      | preventRevert O => exact absurd ⟨O, rfl⟩ hv
      | _ => rfl
    rw [hr]
    exact h.carried (hkeeps (fun B hB => absurd ⟨B, hB⟩ hu) fun O hO => absurd ⟨O, hO⟩ hv) id

theorem Installed.metadata (h : Installed A s) {p : String × (Archive → String)}
    (hp : p ∈ metadata) : s.media.env (Slot.a.var p.1) = some (p.2 A) := by
  obtain ⟨m, hm⟩ := h.performed
  obtain ⟨u, t, -, henv⟩ := complete_env hm
  rw [henv]
  revert p
  simp [NervesSystem.metadata, perform, factoryEnvOperations, describeOperations, Media.setenv,
    exec, machine]

theorem Installed.told (h : Installed A s) (hA : A ∈ H) (z : Slot) :
    Told H z s.media False := by
  cases z with
  | a =>
    refine .of_tells fun _ => ⟨A, hA, h.factory.written, fun p hp v hv => ?_⟩
    simpa [h.metadata hp, eq_comm] using hv
  | b => exact .of_tells (.of_absent fun ⟨v, _, hv⟩ => hv (h.factory.other v))

/-- Where the variables of a slot say which firmware it holds, it holds that firmware. A
`prevent-revert` leaves the version and the uuid of the slot that it wipes. -/
theorem metadata_true (hush : Hush) (es : List Event) (z : Slot) (h : Installed A s)
    (hes : ∀ e ∈ es, ∀ B loss, e ≠ .fwup (.complete B) loss) :
    Told (A :: archives es) z (run hush s es).media
      (Trace.ghost (step hush) (revoked z) s False es) := by
  have hok : Trace.Guarded (step hush) (fun _ e => ∀ B loss, e ≠ .fwup (.complete B) loss) s es :=
    Trace.Guarded.of_forall fun e he _ => hes e he
  refine (hok.ghost_invariant (J := fun s r => Told (A :: archives es) z s.media r ∧
    ∃ y : Slot, s.media.env "nerves_fw_active" = some y.name) ?_
    ⟨h.told (List.mem_cons_self ..) z, .a, h.factory.active⟩).1
  rintro s r e he ⟨hs, hy⟩ hc
  refine ⟨hs.step hy hc fun B hB => ?_, step_active hush hc hy⟩
  exact List.mem_cons_of_mem _ (List.mem_filterMap.mpr ⟨e, he, hB⟩)

theorem metadata_true_sample :
    let es : List Event := [.boot, .fwup (.upgrade sampleArchive) none, .boot,
      .fwup (.preventRevert sampleOps) (some ⟨3, 0⟩)]
    Told (sampleArchive :: archives es) .a (run plainHush sampleState es).media
      (Trace.ghost (step plainHush) (revoked .a) sampleState False es) :=
  metadata_true plainHush _ .a installed_sample (by simp)

/-- The version of a slot is still there after its kernel is gone. -/
theorem metadata_stale :
    let es : List Event := [.boot, .fwup (.upgrade sampleArchive) none, .boot,
      .fwup (.validate sampleOps) none, .fwup (.preventRevert sampleOps) none]
    Installed sampleArchive sampleState ∧
      ¬ Tells metadataVars (sampleArchive :: archives es) .a
        (run plainHush sampleState es).media := by
  intro es
  refine ⟨installed_sample, fun h => ?_⟩
  have hv : (run plainHush sampleState es).media.env (Slot.a.var "nerves_fw_version") =
      some "1.0.0" := by decide +kernel
  have hi : (run plainHush sampleState es).media.fat Slot.a.image = none := by decide +kernel
  obtain ⟨B, -, hw, -⟩ := h ⟨"nerves_fw_version", by decide, by simp [hv]⟩
  exact absurd (hi.symm.trans hw.image) (by simp)

end Runs

end NervesSystem
