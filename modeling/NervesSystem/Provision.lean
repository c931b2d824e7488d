import NervesSystem.Recovery

namespace NervesSystem
open Crash

/-- The variables of slot `z` name the platform and the architecture of the archive. -/
def Matches (B : Archive) (z : Slot) (env : Env) : Prop :=
  env (z.var "nerves_fw_platform") = some B.platform ∧
    env (z.var "nerves_fw_architecture") = some B.architecture

/-- Platform and architecture of the slot are known. -/
def Known (z : Slot) (env : Env) : Prop :=
  env (z.var "nerves_fw_platform") ≠ none ∧ env (z.var "nerves_fw_architecture") ≠ none

/-- `provision` goes by the slot `y`: it runs the provisioning include if the archive matches
the slot, and reports an error and changes nothing otherwise. -/
structure ProvisionsFor (B : Archive) (y : Slot) (s : State) : Prop where
  accepted : Matches B y s.media.env →
    (Command.provision B).operations s.host s.media.env = provisioning B ∧
    (Command.provision B).failure s.host s.media = none
  refused : ¬ Matches B y s.media.env →
    (∃ text, (Command.provision B).failure s.host s.media = some (.error text)) ∧
    ∀ loss, (Command.provision B).run s.host loss s.media = s.media

section Provision
variable {hush : Hush} {A B : Archive} {H : List Archive} {s : State} {es : List Event} {y z : Slot}
  {m : Media}

theorem provisionsFor_a : ProvisionsFor B .a s := by
  have ho : (Command.provision B).operations s.host s.media.env = _ := operations_provision
  refine ⟨fun hm => ?_, fun hm => ?_⟩ <;> unfold Matches at hm
  · rw [if_pos hm] at ho
    refine ⟨ho, ?_⟩
    rw [Command.failure_eq (by simp [ho, provisioning]), ho]
    rfl
  · rw [if_neg hm] at ho
    refine ⟨⟨wrongplatformText B.platform B.architecture, ?_⟩, fun loss => ?_⟩
    · rw [Command.failure_eq (by simp [ho]), ho, perform_error]
    · obtain ⟨n, k, hr⟩ := (Command.provision B).exists_run_eq_cut s.host loss s.media
      rw [hr, ho, cut_error]

/-- The task asks for the variables of slot a and for no others. -/
theorem provisionsFor_iff :
    ProvisionsFor B y s ↔ (Matches B .a s.media.env ↔ Matches B y s.media.env) := by
  have ha := provisionsFor_a (B := B) (s := s)
  constructor
  · intro h
    constructor
    · intro hm
      by_contra hn
      obtain ⟨text, ht⟩ := (h.refused hn).1
      exact absurd (ht.symm.trans (ha.accepted hm).2) (by simp)
    · intro hm
      by_contra hn
      obtain ⟨text, ht⟩ := (ha.refused hn).1
      exact absurd (ht.symm.trans (h.accepted hm).2) (by simp)
  · intro h
    exact ⟨fun hm => ha.accepted (h.mpr hm), fun hm => ha.refused fun hn => hm (h.mp hn)⟩

theorem Honest.matches_iff (h : Honest A H z m) : Matches B z m.env ↔
    (B.platform = A.platform ∧ B.architecture = A.architecture) ∧ Known z m.env := by
  constructor
  · rintro ⟨hp, ha⟩
    exact ⟨⟨h.platform _ hp, h.architecture _ ha⟩, by simp [hp], by simp [ha]⟩
  · rintro ⟨⟨hp, ha⟩, hkp, hka⟩
    obtain ⟨p, hp'⟩ := Option.ne_none_iff_exists'.mp hkp
    obtain ⟨a, ha'⟩ := Option.ne_none_iff_exists'.mp hka
    exact ⟨by rw [hp', h.platform p hp', hp], by rw [ha', h.architecture a ha', ha]⟩

/-- Whatever is run, interrupted or not, the environment is honest and has a slot active. -/
theorem run_described (hush : Hush) (es : List Event) (h : Installed A s)
    (hes : ∀ e ∈ es, ∀ B loss, e ≠ .fwup (.complete B) loss) :
    (∀ z, Honest A (A :: archives es) z (run hush s es).media) ∧
      ∃ y : Slot, (run hush s es).media.env "nerves_fw_active" = some y.name := by
  have hok : Trace.Guarded (step hush) (fun _ e => ∀ B loss, e ≠ .fwup (.complete B) loss) s es :=
    Trace.Guarded.of_forall fun e he _ => hes e he
  refine hok.invariant (I := fun s => (∀ z, Honest A (A :: archives es) z s.media) ∧
    ∃ y : Slot, s.media.env "nerves_fw_active" = some y.name) ?_
    ⟨(h.factory.sound (List.mem_cons_self ..)).honest, .a, h.factory.active⟩
  rintro s e he ⟨hs, hy⟩ hc
  refine ⟨fun z => ?_, step_active hush hc hy⟩
  cases e with
  | boot =>
    obtain ⟨y, hy⟩ := hy
    exact (hs z).agree (boot_agree hush hy (hs z))
  | fwup c loss =>
    refine run_honest (fun B hB => hc B loss (hB ▸ rfl)) (fun B hB => ?_) loss hs z
    exact List.mem_cons_of_mem _ (List.mem_filterMap.mpr ⟨_, he, hB⟩)

/-- `provision` is right about the active slot unless slot b is active and the two slots differ
in whether the environment knows their platform. -/
theorem provision_iff (hush : Hush) (es : List Event) (B : Archive) (h : Installed A s)
    (hes : ∀ e ∈ es, ∀ B loss, e ≠ .fwup (.complete B) loss) :
    (∃ y : Slot, (run hush s es).media.env "nerves_fw_active" = some y.name ∧
      ProvisionsFor B y (run hush s es)) ↔
    (run hush s es).media.env "nerves_fw_active" = some "a" ∨
      ¬ (B.platform = A.platform ∧ B.architecture = A.architecture) ∨
      (Known .a (run hush s es).media.env ↔ Known .b (run hush s es).media.env) := by
  obtain ⟨hh, y, hy⟩ := run_described hush es h hes
  have hex : (∃ y : Slot, (run hush s es).media.env "nerves_fw_active" = some y.name ∧
      ProvisionsFor B y (run hush s es)) ↔ ProvisionsFor B y (run hush s es) := by
    refine ⟨fun ⟨z, hz, hp⟩ => ?_, fun hp => ⟨y, hy, hp⟩⟩
    obtain rfl : y = z := by simpa [hy] using hz
    exact hp
  rw [hex, provisionsFor_iff, (hh .a).matches_iff, (hh y).matches_iff, hy]
  cases y with
  | a => simp [Slot.name]
  | b =>
    have hb : (some Slot.b.name : Option String) ≠ some "a" := by decide
    by_cases hd : B.platform = A.platform ∧ B.architecture = A.architecture
    · simp only [hd, hb, true_and, not_true, false_or]
    · simp only [hd, hb, false_and, not_false_eq_true, true_or, or_true]

theorem provision_sample : ∃ y : Slot,
    (run plainHush sampleState [.boot, .fwup (.upgrade sampleArchive) none, .boot]).media.env
      "nerves_fw_active" = some y.name ∧
    ProvisionsFor sampleArchive y
      (run plainHush sampleState [.boot, .fwup (.upgrade sampleArchive) none, .boot]) := by
  refine (provision_iff plainHush _ sampleArchive installed_sample (by simp)).mpr (.inr (.inr ?_))
  unfold Known
  decide +kernel

/-- Slot b is active and slot a has been given up: `provision` refuses the platform it runs on. -/
theorem provision_refused :
    let es : List Event := [.boot, .fwup (.upgrade sampleArchive) none, .boot,
      .fwup (.validate sampleOps) none, .fwup (.preventRevert sampleOps) none]
    (run plainHush sampleState es).media.env "nerves_fw_active" = some Slot.b.name ∧
      Matches sampleArchive .b (run plainHush sampleState es).media.env ∧
      ¬ ProvisionsFor sampleArchive .b (run plainHush sampleState es) := by
  intro es
  have hb : Matches sampleArchive .b (run plainHush sampleState es).media.env := by
    unfold Matches
    decide +kernel
  have ha : ¬ Matches sampleArchive .a (run plainHush sampleState es).media.env := by
    unfold Matches
    decide +kernel
  exact ⟨by decide +kernel, hb, fun h => ha (provisionsFor_iff.mp h |>.mpr hb)⟩

end Provision

end NervesSystem
