import NervesSystem.Recovery
import NervesSystem.TrialBoot

namespace NervesSystem
open Crash Trial

/-- Every task runs to its end: the power stays on, and the deltas of an upgrade apply. -/
def Completed (s : State) (e : Event) : Prop :=
  Uninterrupted s e ∧ ∀ A loss, e = .fwup (.upgrade A) loss →
    ∀ y, Gate A y s.media.env → A.Applies y.other s.media

/-- Whether `nerves_init` has fallen back since a task last chose a slot. -/
def fellBack (hush : Hush) (s : State) (b : Prop) : Event → Prop
  | .boot => b ∨ FallsBack hush s.media.env
  | .fwup (.complete _) _ => b ∧ s.host.root ≠ none
  | .fwup (.upgrade A) _ => b ∧ (Command.upgrade A).failure s.host s.media ≠ none
  | .fwup (.revert O) _ => b ∧ (Command.revert O).failure s.host s.media ≠ none
  | _ => b

/-- What extlinux.conf names, in a phase of the trial. After a fallback it names the slot that
was given up, and no trial is under way. -/
structure Points (p : Phase Slot) (b : Prop) (m : Media) : Prop where
  tracks : Tracks p m
  settled : b → ∃ y, p = .settled y
  pointer : ∃ c, m.fat extlinuxPath = some (.conf c) ∧ (¬ b → c.Names p.active) ∧
    (b → c.Names p.active.other)

section Points
variable {hush : Hush} {A : Archive} {p q : Phase Slot} {b b' : Prop} {s : State} {e : Event}
  {m m' : Media} {x y : Slot} {es : List Event}

theorem Points.of_extlinux (ht : Tracks p m)
    (hf : m.fat extlinuxPath = some (.conf (extlinux p.active))) (hb : ¬ b) : Points p b m :=
  ⟨ht, fun h => absurd h hb, _, hf, fun _ => names_extlinux _, fun h => absurd h hb⟩

theorem Points.congr (h : Points p b m) (ht : Tracks q m') (hq : q.active = p.active)
    (hs : ∀ y, p = .settled y → q = .settled y)
    (hf : m'.fat extlinuxPath = m.fat extlinuxPath) : Points q b m' := by
  obtain ⟨c, hc, hn, ho⟩ := h.pointer
  refine ⟨ht, fun hb => ?_, c, hf.trans hc, ?_, ?_⟩
  · exact (h.settled hb).imp hs
  · rwa [hq]
  · rwa [hq]

theorem Factory.points (h : Factory A m) : Points (.settled .a) False m :=
  .of_extlinux h.tracks h.extlinux id

theorem Points.boot (hush : Hush) (h : Points p b s.media) :
    Points (p.boot Slot.other) (b ∨ FallsBack hush s.media.env) (boot hush s).media := by
  have ht := h.tracks.boot hush
  have hf : (NervesSystem.boot hush s).media.fat extlinuxPath = s.media.fat extlinuxPath := by
    rw [boot_fat]
  have hback : FallsBack hush s.media.env ↔ _ := fallsBack_iff h.tracks.shows
  cases p with
  | settled y =>
    have hb : (b ∨ FallsBack hush s.media.env) = b := by simp [hback]
    rw [hb]
    exact h.congr ht rfl (fun _ hy => hy) hf
  | fresh x =>
    have hb : (b ∨ FallsBack hush s.media.env) = b := by simp [hback]
    rw [hb]
    exact h.congr ht rfl (fun _ hy => by cases hy) hf
  | tried x =>
    -- The trial is over, and extlinux.conf is left on the slot that was tried.
    have hb : ¬ b := fun hb => by
      obtain ⟨y, hy⟩ := h.settled hb
      cases hy
    obtain ⟨c, hc, hn, -⟩ := h.pointer
    have hfb : FallsBack hush s.media.env := hback.mpr ⟨x, rfl⟩
    refine ⟨ht, fun _ => ⟨x.other, rfl⟩, c, hf.trans hc, fun hnb => absurd (.inr hfb) hnb,
      fun _ => ?_⟩
    simpa [Phase.boot, Phase.active] using hn hb

theorem Points.bystander {c : Command} {loss : Option PowerLoss}
    (h : Points p b s.media) (hb : Bystander s (.fwup c loss)) :
    Points p b (step hush s (.fwup c loss)).media := by
  refine h.congr (hb.tracks h.tracks) rfl (fun _ hy => hy) ?_
  obtain ⟨n, k, hr⟩ := c.exists_run_eq_cut s.host loss s.media
  simp only [step, hr]
  exact cut_frame (f := fun m : Media => m.fat extlinuxPath)
    (fun _ ho => frames_fat ((hb.frames ho).2.1 _)) n k s.media

/-- Each task that chooses a slot points extlinux.conf there; a boot that does leaves it. -/
theorem Points.step (h : Points p b s.media) (hc : Completed s e) :
    ∃ q, Points q (fellBack hush s b e) (step hush s e).media := by
  have ha := h.tracks.shows.active
  obtain ⟨hu, hd⟩ := hc
  cases e with
  | boot => exact ⟨_, h.boot hush⟩
  | fwup c loss =>
    cases c with
    | provision B => exact ⟨p, h.bystander (c := .provision B) trivial⟩
    | factoryReset O => exact ⟨p, h.bystander (c := .factoryReset O) trivial⟩
    | status O => exact ⟨p, h.bystander (c := .status O) trivial⟩
    | complete B =>
      by_cases hr : s.host.root = none
      · obtain ⟨rfl, hf⟩ := hu
        have hi : Installed B (NervesSystem.step hush s (.fwup (.complete B) none)) :=
          ⟨hr, s.media, hf hr, rfl⟩
        exact ⟨_, .of_extlinux hi.factory.tracks hi.factory.extlinux fun hb => hb.2 hr⟩
      · have hb : fellBack hush s b (.fwup (.complete B) loss) = b := by simp [fellBack, hr]
        rw [hb]
        exact ⟨p, h.bystander (c := .complete B) hr⟩
    | upgrade B =>
      obtain rfl : loss = none := hu
      by_cases hf : (Command.upgrade B).failure s.host s.media = none
      · obtain ⟨y, hg, hy⟩ := upgrade_failure.mp hf
        refine ⟨_, .of_extlinux (tracks_upgraded hush hg hy h.tracks.autovalidate) ?_
          fun hb => hb.2 hf⟩
        simp only [NervesSystem.step]
        rw [run_upgrade s.host hg hy]
        simp [upgraded, switched, described, describeOperations, perform, machine, exec, written,
          Media.setenv, Media.write, Media.fatPut, Phase.active]
      · have hg : ∀ y, ¬ Gate B y s.media.env :=
          fun y hg => hf (upgrade_failure.mpr ⟨y, hg, hd B none rfl y hg⟩)
        have hb : fellBack hush s b (.fwup (.upgrade B) none) = b := by simp [fellBack, hf]
        rw [hb]
        exact ⟨p, h.bystander (c := .upgrade B) hg⟩
    | revert O =>
      obtain rfl : loss = none := hu
      have ht : Tracks _ (NervesSystem.step hush s (.fwup (.revert O) none)).media :=
        h.tracks.step rfl fun _ _ h => by cases h
      by_cases hf : (Command.revert O).failure s.host s.media = none
      · obtain ⟨x, hg⟩ := revert_failure.mp hf
        simp only [acts, if_pos hf, Phase.acts, Phase.act, List.foldl, hg.back h.tracks.shows] at ht
        refine ⟨_, .of_extlinux ht ?_ fun hb => hb.2 hf⟩
        simp [NervesSystem.step, run_revert hg, reverted, Media.fatPut, Phase.active]
      · have hg : ∀ x, ¬ RevertGate O x s.media.env := fun x hg => hf (revert_failure.mpr ⟨x, hg⟩)
        have hb : fellBack hush s b (.fwup (.revert O) none) = b := by simp [fellBack, hf]
        rw [hb, NervesSystem.step, run_revert_refused hg]
        exact ⟨p, h⟩
    | validate O =>
      obtain rfl : loss = none := hu
      have ht : Tracks _ (NervesSystem.step hush s (.fwup (.validate O) none)).media :=
        h.tracks.step rfl fun _ _ h => by cases h
      refine ⟨_, h.congr ht rfl (fun y hy => ?_) ?_⟩
      · simp [acts, Phase.acts, Phase.act, hy, Phase.active]
      · simp [NervesSystem.step, run_validate, validated, Media.setenv, Media.unsetenv]
    | preventRevert O =>
      obtain rfl : loss = none := hu
      have ht : Tracks _ (NervesSystem.step hush s (.fwup (.preventRevert O) none)).media :=
        h.tracks.step rfl fun _ _ h => by cases h
      refine ⟨_, h.congr ht rfl (fun _ hy => hy) ?_⟩
      simp [NervesSystem.step, run_preventRevert ha, preventReverted, Media.fatPut,
        Media.unsetenv, Ne.symm image_ne_extlinuxPath, Ne.symm dtb_ne_extlinuxPath]

theorem recovery_pointer (hush : Hush) (es : List Event) (h : Installed A s)
    (hes : Trace.Guarded (step hush) Completed s es) :
    ∃ (c : Extlinux) (y : Slot), (run hush s es).media.fat extlinuxPath = some (.conf c) ∧
      (run hush s es).media.env "nerves_fw_active" = some y.name ∧
      (c.Names y ↔ ¬ Trace.ghost (step hush) (fellBack hush) s False es) ∧
      (c.Names y.other ↔ Trace.ghost (step hush) (fellBack hush) s False es) := by
  obtain ⟨p, hp⟩ : ∃ p, Points p (Trace.ghost (step hush) (fellBack hush) s False es)
      (run hush s es).media :=
    hes.ghost_invariant (J := fun s b => ∃ p, Points p b s.media)
      (fun _ _ _ _ ⟨_, hp⟩ hc => hp.step hc) ⟨_, h.factory.points⟩
  obtain ⟨c, hc, hn, ho⟩ := hp.pointer
  refine ⟨c, p.active, hc, hp.tracks.shows.active, ⟨fun hy hb => ?_, hn⟩, ⟨fun hy => ?_, ho⟩⟩
  · exact absurd (hy.eq (ho hb)) (Slot.ne_other _)
  · by_contra hb
    exact absurd (hy.eq (hn hb)) (Slot.other_ne _)

theorem recovery_pointer_sample :
    let es : List Event := [.boot, .fwup (.upgrade sampleArchive) none, .boot,
      .fwup (.validate sampleOps) none, .boot]
    ∃ (c : Extlinux) (y : Slot),
      (run plainHush sampleState es).media.fat extlinuxPath = some (.conf c) ∧
      (run plainHush sampleState es).media.env "nerves_fw_active" = some y.name ∧
      (c.Names y ↔ ¬ Trace.ghost (step plainHush) (fellBack plainHush) sampleState False es) ∧
      (c.Names y.other ↔
        Trace.ghost (step plainHush) (fellBack plainHush) sampleState False es) := by
  refine recovery_pointer plainHush _ installed_sample ⟨⟨trivial, ?_⟩, ⟨rfl, ?_⟩, ⟨trivial, ?_⟩,
    ⟨rfl, ?_⟩, ⟨trivial, ?_⟩, trivial⟩
  · exact fun _ _ h => by cases h
  · rintro A loss h y hy
    cases h
    exact ⟨trivial, trivial, trivial, trivial⟩
  all_goals exact fun _ _ h => by cases h

/-- After a fallback extlinux.conf is left on the slot that failed. -/
theorem recovery_pointer_left :
    let es : List Event := [.boot, .fwup (.upgrade sampleArchive) none, .boot, .boot]
    Installed sampleArchive sampleState ∧ ¬ NamesActive (run plainHush sampleState es).media := by
  intro es
  refine ⟨installed_sample, ?_⟩
  rintro ⟨c, y, hc, hn, hy⟩
  have hb : (run plainHush sampleState es).media.fat extlinuxPath =
      some (.conf (extlinux .b)) := by decide +kernel
  have ha : (run plainHush sampleState es).media.env "nerves_fw_active" = some "a" := by
    decide +kernel
  have hcb : extlinux .b = c := by
    simpa only [Option.some.injEq, File.conf.injEq] using hb.symm.trans hc
  obtain rfl := (hcb ▸ hn).eq (names_extlinux .b)
  exact absurd (ha.symm.trans hy) (by decide)

end Points

end NervesSystem
