import NervesSystem.TrialBoot

namespace NervesSystem
open Crash Trial

/-- The selection that the next boot saves. -/
def savedTriple (hush : Hush) (m : Media) : Option String × Option String × Option String :=
  Media.triple { m with env := savedEnv hush m.env }

section Cut
variable {A : Archive} {x y : Slot} {m : Media}

theorem cut_switch (n k : ℕ) : (cut machine (switchOperations x) n k m).triple =
    match n with
    | 0 => m.triple
    | 1 => (some x.name, m.env "nerves_fw_validated", m.env "nerves_fw_booted")
    | 2 => (some x.name, some "0", m.env "nerves_fw_booted")
    | _ => (some x.name, some "0", some "0") := by
  match n with
  | 0 => simp only [switchOperations, cut_zero, torn_setenv]
  | 1 =>
    rw [switchOperations, cut_succ_ok (exec_setenv _ _ _), cut_zero, torn_setenv]
    simp [Media.triple, Media.setenv]
  | 2 =>
    rw [switchOperations, cut_succ_ok (exec_setenv _ _ _), cut_succ_ok (exec_setenv _ _ _),
      cut_zero, torn_setenv]
    simp [Media.triple, Media.setenv]
  | n + 3 =>
    rw [switchOperations, cut_succ_ok (exec_setenv _ _ _), cut_succ_ok (exec_setenv _ _ _),
      cut_succ_ok (exec_setenv _ _ _), cut_nil]
    simp [Media.triple, Media.setenv]

/-- The selection while an upgrade switches over, after its 23 other operations. -/
theorem upgrade_cut_triple (h : A.Applies x m) (n k : ℕ) :
    (cut machine (upgradeOperations A x) n k m).triple =
      if n < 24 then m.triple
      else if n = 24 then (some x.name, m.env "nerves_fw_validated", m.env "nerves_fw_booted")
      else if n = 25 then (some x.name, some "0", m.env "nerves_fw_booted")
      else (some x.name, some "0", some "0") := by
  have hlen : (bodyOperations A x).length = 23 := rfl
  have hbody := perform_body.mpr ⟨h, rfl⟩
  have ht := perform_frame (fun _ ho => body_frames_triple (A := A) (x := x) ho) m
  rw [hbody] at ht
  rw [upgradeOperations_eq, cut_append, hlen, hbody]
  by_cases h23 : n < 23
  · rw [if_pos h23, if_pos (by omega)]
    exact cut_frame (fun _ ho => body_frames_triple ho) n k m
  · rw [if_neg h23]
    obtain ⟨j, rfl⟩ := Nat.exists_eq_add_of_le (Nat.le_of_not_lt h23)
    simp only [Nat.add_sub_cancel_left, cut_switch]
    have hv : (described A x (written A x (cleared x m))).env "nerves_fw_validated" = _ :=
      congrArg (·.2.1) ht
    have hb : (described A x (written A x (cleared x m))).env "nerves_fw_booted" = _ :=
      congrArg (·.2.2) ht
    match j with
    | 0 => exact ht
    | 1 => simp [hv, hb, Media.triple]
    | 2 => simp [hb, Media.triple]
    | j + 3 =>
      rw [if_neg (by omega), if_neg (by omega), if_neg (by omega)]
      rfl

/-- An upgrade whose deltas do not apply never comes to its switch. -/
theorem upgrade_cut_failed (h : ¬ A.Applies x m) (n k : ℕ) :
    (cut machine (upgradeOperations A x) n k m).triple = m.triple := by
  have hf : ∀ n k, (cut machine (bodyOperations A x) n k m).triple = m.triple :=
    cut_frame (fun _ ho => body_frames_triple ho) (s := m)
  rw [upgradeOperations_eq, cut_append]
  split_ifs with hn
  · exact hf n k
  · rcases hp : perform machine (bodyOperations A x) m with ⟨u, _ | e⟩
    · exact absurd (perform_body.mp hp).1 h
    · have hu := hf (bodyOperations A x).length 0
      rwa [← perform_fst _ _ 0 (Nat.le_refl _), hp] at hu

theorem revert_cut_triple (n k : ℕ) : (cut machine (revertOperations x) n k m).triple =
    if n < 2 then m.triple
    else if n = 2 then (some x.name, m.env "nerves_fw_validated", m.env "nerves_fw_booted")
    else (some x.name, some "1", m.env "nerves_fw_booted") := by
  match n with
  | 0 => rw [revertOperations, cut_zero, torn_info, if_pos (by omega)]
  | 1 =>
    rw [revertOperations, cut_succ_ok (exec_info _ _), cut_zero, torn_setenv, if_pos (by omega)]
  | 2 =>
    rw [revertOperations, cut_succ_ok (exec_info _ _), cut_succ_ok (exec_setenv _ _ _), cut_zero,
      torn_setenv]
    simp [Media.triple, Media.setenv]
  | n + 3 =>
    rw [if_neg (by omega), if_neg (by omega), revertOperations, cut_succ_ok (exec_info _ _),
      cut_succ_ok (exec_setenv _ _ _), cut_succ_ok (exec_setenv _ _ _)]
    refine (cut_frame (fun o ho => frames_triple fun v _ => ?_) n k _).trans ?_
    · obtain rfl := List.mem_singleton.mp ho
      exact id
    · simp [Media.triple, Media.setenv]

end Cut

section Atomic
variable {hush : Hush} {p : Phase Slot} {s : State} {m : Media} {x y : Slot}

/-- What a boot makes of each phase. -/
def bootTriple : Phase Slot → Option String × Option String × Option String
  | .settled y => (some y.name, some "1", some "1")
  | .fresh x => (some x.name, some "0", some "1")
  | .tried x => (some x.other.name, some "1", some "1")

theorem Tracks.savedTriple (h : Tracks p m) : savedTriple hush m = bootTriple p := by
  have hb := Tracks.boot hush (s := ⟨m, ⟨none⟩⟩) h
  have hs := hb.shows
  rw [boot_media] at hs
  have hboot : savedEnv hush m.env "nerves_fw_booted" = some "1" := by
    rw [savedEnv_booted h.shows.active (by rcases h.booted with hb | hb <;> simp [hb])]
    rcases h.booted with hb | hb <;> simp [hb, import_of_ne]
  cases p with
  | settled y => exact Prod.ext hs.1 (Prod.ext hs.2 hboot)
  | fresh x => exact hs
  | tried x => exact Prod.ext hs.1 (Prod.ext hs.2 hboot)

/-- If power is lost at `l`, the next boot saves what it would have saved without the task, or
what it would have saved after the whole of it. -/
def SwitchesAtomically (hush : Hush) (c : Command) (s : State) (l : PowerLoss) : Prop :=
  savedTriple hush (c.run s.host (some l) s.media) = savedTriple hush s.media ∨
    savedTriple hush (c.run s.host (some l) s.media) =
      savedTriple hush (c.run s.host none s.media)

theorem upgrade_atomic_iff {A : Archive} (h : Tracks p s.media) (hg : Gate A y s.media.env)
    (l : PowerLoss) : SwitchesAtomically hush (.upgrade A) s l ↔
      ¬ (l.operations = 24 ∧ A.Applies y.other s.media) := by
  obtain rfl := hg.settled h.shows
  have ha : ∀ loss, ((Command.upgrade A).run s.host loss s.media).env "nerves_fw_autovalidate" =
      some "0" := fun loss => (run_autovalidate _ _ (fun _ h => by cases h) loss s.media).trans
    h.autovalidate
  unfold SwitchesAtomically
  by_cases hap : A.Applies y.other s.media
  · have hdone := run_upgrade s.host hg hap
    have ht := upgrade_cut_triple hap l.operations l.bytes
    rw [← operations_upgrade s.host hg, ← Command.run_some] at ht
    have hfin : Tracks (.fresh y.other) ((Command.upgrade A).run s.host none s.media) :=
      .of_fresh (hdone ▸ upgraded_triple) (ha none)
    rw [h.savedTriple, hfin.savedTriple]
    have hv := hg.validated
    by_cases h24 : l.operations = 24
    · rw [if_neg (by omega), if_pos h24, hv] at ht
      rw [(Tracks.of_settled ht h.booted (ha _)).savedTriple]
      simp [bootTriple, h24, hap]
    · simp only [h24, false_and, not_false_eq_true, iff_true]
      by_cases hlt : l.operations < 24
      · rw [if_pos hlt] at ht
        rw [(h.congr ht ((ha _).trans h.autovalidate.symm)).savedTriple]
        exact .inl rfl
      · rw [if_neg hlt, if_neg h24] at ht
        -- Between the last two setenvs the phase depends on whether the old slot was booted.
        by_cases h25 : l.operations = 25
        · rw [if_pos h25] at ht
          rcases h.booted with hb | hb
          · rw [hb] at ht
            rw [(Tracks.of_fresh ht (ha _)).savedTriple]
            exact .inr rfl
          · rw [hb] at ht
            have htr : Tracks (.tried y.other) ((Command.upgrade A).run s.host (some l) s.media) :=
              ⟨ht, .inr (congrArg (·.2.2) ht), ha _⟩
            rw [htr.savedTriple]
            exact .inl (by simp [bootTriple])
        · rw [if_neg h25] at ht
          rw [(Tracks.of_fresh ht (ha _)).savedTriple]
          exact .inr rfl
  · have ht := upgrade_cut_failed hap l.operations l.bytes
    rw [← operations_upgrade s.host hg, ← Command.run_some] at ht
    rw [(h.congr ht ((ha _).trans h.autovalidate.symm)).savedTriple, h.savedTriple]
    simp [hap]

theorem revert_atomic_iff {O : OpsArchive} (h : Tracks p s.media) (hg : RevertGate O x s.media.env)
    (l : PowerLoss) : SwitchesAtomically hush (.revert O) s l ↔
      ¬ (l.operations = 2 ∧ s.media.env "nerves_fw_validated" = some "0") := by
  have hp : p.active = x.other := hg.back h.shows
  have ha : ∀ loss, ((Command.revert O).run s.host loss s.media).env "nerves_fw_autovalidate" =
      some "0" := fun loss => (run_autovalidate _ _ (fun _ h => by cases h) loss s.media).trans
    h.autovalidate
  unfold SwitchesAtomically
  have ht := revert_cut_triple (x := x) (m := s.media) l.operations l.bytes
  rw [← operations_revert s.host hg, ← Command.run_some] at ht
  have hfin : Tracks (.settled x) ((Command.revert O).run s.host none s.media) := by
    refine .of_settled ?_ h.booted (ha none)
    rw [run_revert hg]
    exact reverted_triple
  rw [h.savedTriple, hfin.savedTriple]
  by_cases hlt : l.operations < 2
  · rw [if_pos hlt] at ht
    rw [(h.congr ht ((ha _).trans h.autovalidate.symm)).savedTriple]
    simp [Nat.ne_of_lt hlt]
  · rw [if_neg hlt] at ht
    by_cases h2 : l.operations = 2
    · rw [if_pos h2] at ht
      simp only [h2, true_and]
      -- Here the new slot is active under the flags of the old one.
      cases p with
      | settled y =>
        rw [h.shows.2] at ht
        rw [(Tracks.of_settled ht h.booted (ha _)).savedTriple, h.shows.2]
        simp [bootTriple]
      | fresh y =>
        have hv : s.media.env "nerves_fw_validated" = some "0" := congrArg (·.2.1) h.shows
        have hb : s.media.env "nerves_fw_booted" = some "0" := congrArg (·.2.2) h.shows
        rw [hv, hb] at ht
        obtain rfl : y = x.other := hp
        rw [(Tracks.of_fresh ht (ha _)).savedTriple]
        simp [bootTriple, hv]
      | tried y =>
        have hv : s.media.env "nerves_fw_validated" = some "0" := congrArg (·.2.1) h.shows
        have hb : s.media.env "nerves_fw_booted" = some "1" := congrArg (·.2.2) h.shows
        rw [hv, hb] at ht
        obtain rfl : y = x.other := hp
        have htr : Tracks (.tried x) ((Command.revert O).run s.host (some l) s.media) :=
          ⟨ht, .inr (congrArg (·.2.2) ht), ha _⟩
        rw [htr.savedTriple]
        simp [bootTriple, hv]
    · rw [if_neg h2] at ht
      rw [(Tracks.of_settled ht h.booted (ha _)).savedTriple]
      simp [bootTriple, h2]

/-- The switch is atomic but for one instant: after `nerves_fw_active` has been set and before
`nerves_fw_validated` is. A revert from validated firmware does not have it. -/
theorem switch_atomic_iff (hush : Hush) {A : Archive} (es : List Event) (h : Installed A s)
    (hes : Trace.Guarded (step hush) Uninterrupted s es) (l : PowerLoss) :
    let t := run hush s es
    (∀ B y, Gate B y t.media.env → (SwitchesAtomically hush (.upgrade B) t l ↔
      ¬ (l.operations = 24 ∧ B.Applies y.other t.media))) ∧
    ∀ O x, RevertGate O x t.media.env → (SwitchesAtomically hush (.revert O) t l ↔
      ¬ (l.operations = 2 ∧ t.media.env "nerves_fw_validated" = some "0")) := by
  obtain ⟨p, hp⟩ := exists_tracks h hes
  exact ⟨fun B y hg => upgrade_atomic_iff hp hg l, fun O x hg => revert_atomic_iff hp hg l⟩

theorem switch_atomic_sample : SwitchesAtomically plainHush (.upgrade sampleArchive)
    (run plainHush sampleState [.boot]) ⟨25, 0⟩ :=
  ((switch_atomic_iff plainHush [.boot] installed_sample ⟨trivial, trivial⟩
    ⟨25, 0⟩).1 sampleArchive .a (by decide +kernel)).mpr fun h => absurd h.1 (by decide)

example (A : Archive) (x : Slot) :
    (upgradeOperations A x)[23]? = some (.ubootSetenv "nerves_fw_active" x.name) ∧
      (revertOperations x)[1]? = some (.ubootSetenv "nerves_fw_active" x.name) := ⟨rfl, rfl⟩

/-- New firmware that counts as validated, and a revert that the next boot takes back. -/
theorem switch_not_atomic :
    (¬ SwitchesAtomically plainHush (.upgrade sampleArchive)
      (run plainHush sampleState [.boot]) ⟨24, 0⟩) ∧
    ¬ SwitchesAtomically plainHush (.revert sampleOps) (run plainHush sampleState
      [.boot, .fwup (.upgrade sampleArchive) none, .boot]) ⟨2, 0⟩ := by
  unfold SwitchesAtomically
  decide +kernel

end Atomic

end NervesSystem
