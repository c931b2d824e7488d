import NervesSystem.Outcome
import NervesSystem.Installed
import NervesSystem.Library.Trace
import NervesSystem.Library.Trial

namespace NervesSystem
open Crash Trial

/-- The phase of the trial that the environment records. -/
def Shows (m : Media) : Phase Slot → Prop
  | .settled y => m.env "nerves_fw_active" = some y.name ∧ m.env "nerves_fw_validated" = some "1"
  | .fresh x => m.triple = (some x.name, some "0", some "0")
  | .tried x => m.triple = (some x.name, some "0", some "1")

/-- The phase, on a device that does not validate by itself. -/
structure Tracks (p : Phase Slot) (m : Media) : Prop where
  shows : Shows m p
  booted : m.env "nerves_fw_booted" = some "0" ∨ m.env "nerves_fw_booted" = some "1"
  autovalidate : m.env "nerves_fw_autovalidate" = some "0"

/-- The acts of the trial that an event amounts to when power stays on. -/
def acts (s : State) : Event → List Act
  | .boot => [.boot]
  | .fwup (.upgrade A) _ =>
    if (Command.upgrade A).failure s.host s.media = none then [.install] else []
  | .fwup (.revert O) _ =>
    if (Command.revert O).failure s.host s.media = none then [.back] else []
  | .fwup (.validate _) _ => [.commit]
  | _ => []

/-- The slots that the boots of a run select, in order. -/
def starts (hush : Hush) : State → List Event → List Slot
  | _, [] => []
  | s, .boot :: es => (nextSlot hush s.media.env).toList ++ starts hush (boot hush s) es
  | s, e :: es => starts hush (step hush s e) es

def boots (es : List Event) : ℕ := es.countP fun e => e matches .boot

section Boot
variable {hush : Hush} {p : Phase Slot} {s : State} {m m' : Media} {x y : Slot}

theorem Shows.active (h : Shows m p) : m.env "nerves_fw_active" = some p.active.name := by
  cases p with
  | settled y => exact h.1
  | fresh x => exact congrArg Prod.fst h
  | tried x => exact congrArg Prod.fst h

theorem Shows.congr (h : Shows m p) (ht : m'.triple = m.triple) : Shows m' p := by
  cases p with
  | settled y =>
    exact ⟨(congrArg Prod.fst ht).trans h.1, (congrArg (·.2.1) ht).trans h.2⟩
  | fresh x => exact ht.trans h
  | tried x => exact ht.trans h

theorem Shows.of_triple {b : Option String} (h : m.triple = (some y.name, some "1", b)) :
    Shows m (.settled y) := ⟨congrArg Prod.fst h, congrArg (·.2.1) h⟩

theorem Gate.settled {A : Archive} (hg : Gate A y m.env) (h : Shows m p) : p = .settled y := by
  cases p with
  | settled z =>
    have hz := h.1.symm.trans hg.active
    simp only [Option.some.injEq, Slot.name_inj] at hz
    rw [hz]
  | fresh x => exact absurd ((congrArg (·.2.1) h).symm.trans hg.validated) (by simp)
  | tried x => exact absurd ((congrArg (·.2.1) h).symm.trans hg.validated) (by simp)

/-- A revert that is accepted goes back from the slot that the phase has active. -/
theorem RevertGate.back {O : OpsArchive} (hg : RevertGate O x m.env) (h : Shows m p) :
    p.active = x.other := by
  simpa only [hg.active, Option.some.injEq, Slot.name_inj, eq_comm] using h.active

theorem Tracks.of_settled {b : Option String} (ht : m.triple = (some y.name, some "1", b))
    (hb : b = some "0" ∨ b = some "1") (ha : m.env "nerves_fw_autovalidate" = some "0") :
    Tracks (.settled y) m := by
  refine ⟨.of_triple ht, ?_, ha⟩
  have hm : m.env "nerves_fw_booted" = b := congrArg (·.2.2) ht
  rwa [hm]

theorem Tracks.of_fresh (ht : m.triple = (some x.name, some "0", some "0"))
    (ha : m.env "nerves_fw_autovalidate" = some "0") : Tracks (.fresh x) m :=
  ⟨ht, .inl (congrArg (·.2.2) ht), ha⟩

theorem Tracks.congr (h : Tracks p m) (ht : m'.triple = m.triple)
    (ha : m'.env "nerves_fw_autovalidate" = m.env "nerves_fw_autovalidate") : Tracks p m' where
  shows := h.shows.congr ht
  booted := by rw [show m'.env "nerves_fw_booted" = _ from congrArg (·.2.2) ht]; exact h.booted
  autovalidate := ha.trans h.autovalidate

theorem fallsBack_iff (h : Shows m p) : FallsBack hush m.env ↔ ∃ x, p = .tried x := by
  cases p with
  | settled y => simp [not_fallsBack h.2]
  | fresh x =>
    have hb : m.env "nerves_fw_booted" = some "0" := congrArg (·.2.2) h
    simp [FallsBack, import_eq hb]
  | tried x =>
    have hv : m.env "nerves_fw_validated" = some "0" := congrArg (·.2.1) h
    have hb : m.env "nerves_fw_booted" = some "1" := congrArg (·.2.2) h
    simp [FallsBack, import_eq hv, import_eq hb]

/-- The boot script selects what the trial starts next. -/
theorem Shows.nextSlot (h : Shows m p) (hush : Hush) :
    nextSlot hush m.env = some (p.next Slot.other) := by
  rw [nextSlot_eq h.active]
  by_cases hf : FallsBack hush m.env
  · obtain ⟨x, rfl⟩ := (fallsBack_iff h).mp hf
    rw [if_pos hf]
    rfl
  · rw [if_neg hf]
    cases p with
    | settled y => rfl
    | fresh x => rfl
    | tried x => exact absurd ((fallsBack_iff h).mpr ⟨x, rfl⟩) hf

/-- `nerves_init` makes the step of the trial. -/
theorem Tracks.boot (hush : Hush) (h : Tracks p s.media) :
    Tracks (p.boot Slot.other) (boot hush s).media := by
  have ha := h.shows.active
  have hauto := h.autovalidate
  have hne : s.media.env "nerves_fw_booted" ≠ some "" := by
    rcases h.booted with hb | hb <;> simp [hb]
  refine ⟨?_, ?_, by rw [boot_env, (savedEnv_frame (by decide) ha).eq (by simp [hauto]), hauto]⟩
  swap
  · rw [boot_env, savedEnv_booted ha hne]
    rcases h.booted with hb | hb <;> simp [hb, import_of_ne]
  cases p with
  | settled y =>
    have hf : ¬ FallsBack hush s.media.env := not_fallsBack h.shows.2
    refine ⟨?_, ?_⟩
    · rw [boot_env, savedEnv_active ha, if_neg hf]
      rfl
    · rw [boot_env, savedEnv_validated ha (by simp [h.shows.2]), h.shows.2, ite_self]
  | fresh x =>
    have hv : s.media.env "nerves_fw_validated" = some "0" := congrArg (·.2.1) h.shows
    have hb : s.media.env "nerves_fw_booted" = some "0" := congrArg (·.2.2) h.shows
    have hib := import_eq hb (by decide)
    have hia := import_eq hauto (by decide)
    have hf : ¬ FallsBack hush s.media.env := by simp [FallsBack, hib]
    simp only [Phase.boot, Shows, Media.triple, boot_env, savedEnv_active ha,
      savedEnv_validated ha (by simp [hv]), savedEnv_booted ha hne, hf, hv, hib, hia,
      test_zero_one]
    rfl
  | tried x =>
    have hv : s.media.env "nerves_fw_validated" = some "0" := congrArg (·.2.1) h.shows
    have hb : s.media.env "nerves_fw_booted" = some "1" := congrArg (·.2.2) h.shows
    have hf : FallsBack hush s.media.env := by
      simp [FallsBack, import_eq hv (by decide), import_eq hb (by decide)]
    refine ⟨?_, ?_⟩
    · rw [boot_env, savedEnv_active ha, if_pos hf]
      rfl
    · rw [boot_env, savedEnv_validated ha (by simp [hv]), if_pos (.inl hf)]

end Boot

section Carried
variable {hush : Hush} {s : State} {y : Slot} {m m' m'' : Media}

/-- `m'` has everything of slot `y` as `m` has it, but for variables without a value that are
gone. -/
structure SlotCarried (y : Slot) (m m' : Media) : Prop where
  image : m'.fat y.image = m.fat y.image
  dtb : m'.fat y.dtb = m.fat y.dtb
  rootfs : m'.raw (.rootfs y) = m.raw (.rootfs y)
  vars : ∀ v, Carried (m.env (y.var v)) (m'.env (y.var v))

theorem SameSlot.carried (h : SameSlot y m m') : SlotCarried y m m' :=
  ⟨h.image, h.dtb, h.rootfs, fun v => .inl (h.vars v)⟩

theorem SlotCarried.trans (h : SlotCarried y m m') (h' : SlotCarried y m' m'') :
    SlotCarried y m m'' :=
  ⟨h'.image.trans h.image, h'.dtb.trans h.dtb, h'.rootfs.trans h.rootfs,
    fun v => (h.vars v).trans (h'.vars v)⟩

/-- Nothing is lost of a slot whose variables all have values. -/
theorem SlotCarried.sameSlot (h : SlotCarried y m m') (hv : ∀ v, m.env (y.var v) ≠ some "") :
    SameSlot y m m' := ⟨h.image, h.dtb, h.rootfs, fun v => (h.vars v).eq (hv v)⟩

theorem boot_carried (hush : Hush) (ha : ∃ x : Slot,
    s.media.env "nerves_fw_active" = some x.name) (z : Slot) :
    SlotCarried z s.media (boot hush s).media := by
  obtain ⟨x, hx⟩ := ha
  refine ⟨by rw [boot_fat], by rw [boot_fat], by rw [boot_raw], fun v => ?_⟩
  rw [boot_env]
  exact savedEnv_frame (Slot.var_not_mem (by decide)) hx

end Carried

section Bystander
variable {hush : Hush} {p : Phase Slot} {s : State} {e : Event}

/-- Boots, and tasks that neither install nor decide about what is installed. A disk that a
system runs from is no destination for `complete`. -/
def Bystander (s : State) : Event → Prop
  | .boot => True
  | .fwup (.complete _) _ => s.host.root ≠ none
  | .fwup (.upgrade A) _ => ∀ y, ¬ Gate A y s.media.env
  | .fwup (.provision _) _ => True
  | .fwup (.factoryReset _) _ => True
  | .fwup (.status _) _ => True
  | .fwup (.preventRevert _) _ => False
  | .fwup (.revert _) _ => False
  | .fwup (.validate _) _ => False

/-- The serial number and the application partition are all that such tasks change. -/
theorem Bystander.frames {c : Command} {loss : Option PowerLoss} {o : Operation}
    (h : Bystander s (.fwup c loss)) (ho : o ∈ c.operations s.host s.media.env) :
    (∀ n, n ≠ "nerves_serial_number" → ¬ o.Sets n) ∧ (∀ path, ¬ o.Puts path) ∧
      ∀ r, r ≠ .app → ¬ o.Writes r := by
  have hp := performs s.host s.media.env c
  generalize c.operations s.host s.media.env = ops at ho hp
  cases hp with
  | refused text => exact List.mem_singleton.mp ho ▸ ⟨fun _ _ => id, fun _ => id, fun _ _ => id⟩
  | status O text =>
    exact List.mem_singleton.mp ho ▸ ⟨fun _ _ => id, fun _ => id, fun _ _ => id⟩
  | mounted A => exact absurd ho List.not_mem_nil
  | complete A hr => exact absurd hr h
  | upgrade A y hy => exact absurd hy (h y)
  | provision A =>
    exact List.mem_singleton.mp ho ▸ ⟨fun _ hn => Ne.symm hn, fun _ => id, fun _ _ => id⟩
  | factoryReset O =>
    simp only [factoryResetOperations, List.mem_cons, List.not_mem_nil, or_false] at ho
    rcases ho with rfl | rfl | rfl
    · exact ⟨fun _ _ => id, fun _ => id, fun _ _ => id⟩
    · exact ⟨fun _ _ => id, fun _ => id, fun _ hr => Ne.symm hr⟩
    · exact ⟨fun _ _ => id, fun _ => id, fun _ hr => Ne.symm hr⟩
  | preventRevert O y hy => exact h.elim
  | revert O x hx => exact h.elim
  | validate O => exact h.elim

theorem Bystander.sameSlot {c : Command} {loss : Option PowerLoss} (hush : Hush)
    (h : Bystander s (.fwup c loss)) (z : Slot) :
    SameSlot z s.media (step hush s (.fwup c loss)).media := by
  obtain ⟨n, k, hr⟩ := c.exists_run_eq_cut s.host loss s.media
  simp only [step, hr]
  have hserial : Slot.owner "nerves_serial_number" = none := by decide
  exact cut_sameSlot (fun o ho v => (h.frames ho).1 _ (Slot.var_ne_of_owner (by simp [hserial])))
    (fun o ho => (h.frames ho).2.1 _) (fun o ho => (h.frames ho).2.1 _)
    (fun o ho => (h.frames ho).2.2 _ (by simp)) n k s.media

theorem Bystander.tracks {c : Command} {loss : Option PowerLoss}
    (h : Bystander s (.fwup c loss)) (ht : Tracks p s.media) :
    Tracks p (step hush s (.fwup c loss)).media := by
  obtain ⟨n, k, hr⟩ := c.exists_run_eq_cut s.host loss s.media
  simp only [step, hr]
  have hv : ∀ v, v ≠ "nerves_serial_number" →
      (cut machine (c.operations s.host s.media.env) n k s.media).env v = s.media.env v :=
    fun v hv => cut_frame (f := fun m : Media => m.env v)
      (fun _ ho => frames_env ((h.frames ho).1 v hv)) n k s.media
  refine ht.congr ?_ (hv _ (by decide))
  simp only [Media.triple, hv _ (show "nerves_fw_active" ≠ _ by decide),
    hv _ (show "nerves_fw_validated" ≠ _ by decide), hv _ (show "nerves_fw_booted" ≠ _ by decide)]

end Bystander

section Once
variable {hush : Hush} {p : Phase Slot} {s : State} {x : Slot} {e : Event} {es : List Event}

theorem tracks_upgraded (hush : Hush) {A : Archive} {y : Slot} (hg : Gate A y s.media.env)
    (h : A.Applies y.other s.media) (ha : s.media.env "nerves_fw_autovalidate" = some "0") :
    Tracks (.fresh y.other) (step hush s (.fwup (.upgrade A) none)).media := by
  have hauto := run_autovalidate (.upgrade A) s.host (fun _ h => by cases h) none s.media
  simp only [step]
  rw [run_upgrade s.host hg h] at hauto ⊢
  exact .of_fresh upgraded_triple (hauto.trans ha)

/-- A task that is left to run makes the acts of the trial that it stands for. -/
theorem Tracks.step (h : Tracks p s.media) (hu : Uninterrupted s e)
    (hc : ∀ A loss, e = .fwup (.complete A) loss → s.host.root ≠ none) :
    Tracks (p.acts Slot.other (acts s e)) (step hush s e).media := by
  have hs := h.shows
  cases e with
  | boot => exact h.boot hush
  | fwup c loss =>
    cases c with
    | complete A => exact Bystander.tracks (c := .complete A) (hc A loss rfl) h
    | provision A => exact Bystander.tracks (c := .provision A) trivial h
    | factoryReset O => exact Bystander.tracks (c := .factoryReset O) trivial h
    | status O => exact Bystander.tracks (c := .status O) trivial h
    | upgrade A =>
      obtain rfl : loss = none := hu
      have hauto := run_autovalidate (.upgrade A) s.host (fun _ h => by cases h) none s.media
      by_cases hf : (Command.upgrade A).failure s.host s.media = none
      · obtain ⟨y, hg, ha⟩ := upgrade_failure.mp hf
        obtain rfl := hg.settled hs
        simp only [acts, if_pos hf]
        exact tracks_upgraded hush hg ha h.autovalidate
      · simp only [NervesSystem.step, acts, if_neg hf]
        exact h.congr (run_upgrade_failed hf) hauto
    | revert O =>
      obtain rfl : loss = none := hu
      have hauto := run_autovalidate (.revert O) s.host (fun _ h => by cases h) none s.media
      by_cases hf : (Command.revert O).failure s.host s.media = none
      · obtain ⟨z, hg⟩ := revert_failure.mp hf
        have hb : p.acts Slot.other [.back] = .settled z := by
          simp [Phase.acts, Phase.act, hg.back hs]
        simp only [NervesSystem.step, acts, if_pos hf, hb]
        rw [run_revert hg] at hauto ⊢
        exact .of_settled reverted_triple h.booted (hauto.trans h.autovalidate)
      · simp only [NervesSystem.step, acts, if_neg hf]
        rwa [run_revert_refused fun z hz => hf (revert_failure.mpr ⟨z, hz⟩)]
    | validate O =>
      obtain rfl : loss = none := hu
      have hauto := run_autovalidate (.validate O) s.host (fun _ h => by cases h) none s.media
      simp only [NervesSystem.step, acts]
      rw [run_validate] at hauto ⊢
      exact .of_settled (validated_triple.trans (by rw [hs.active])) h.booted
        (hauto.trans h.autovalidate)
    | preventRevert O =>
      obtain rfl : loss = none := hu
      have hauto := run_autovalidate (.preventRevert O) s.host (fun _ h => by cases h) none s.media
      simp only [NervesSystem.step, acts]
      rw [run_preventRevert hs.active] at hauto ⊢
      exact h.congr preventReverted_triple hauto

/-- Nothing makes the firmware in slot `x` permanent, and nothing replaces it. -/
def Unconfirmed (x : Slot) (s : State) : Event → Prop
  | .fwup (.upgrade A) loss => loss = none ∧ ¬ Gate A x.other s.media.env
  | .fwup (.validate _) loss => loss = none ∧ s.media.env "nerves_fw_active" ≠ some x.name
  | .fwup (.revert O) loss => loss = none ∧ ¬ RevertGate O x s.media.env
  | .fwup (.preventRevert _) loss => loss = none
  | .boot => True
  | _ => False

theorem Unconfirmed.uninterrupted (h : Unconfirmed x s e) : Uninterrupted s e ∧
    ∀ A loss, e = .fwup (.complete A) loss → s.host.root ≠ none := by
  cases e with
  | boot => exact ⟨trivial, fun _ _ h => by cases h⟩
  | fwup c loss =>
    cases c with
    | complete A => exact h.elim
    | provision A => exact h.elim
    | factoryReset O => exact h.elim
    | status O => exact h.elim
    | upgrade A => exact ⟨h.1, fun _ _ h => by cases h⟩
    | revert O => exact ⟨h.1, fun _ _ h => by cases h⟩
    | validate O => exact ⟨h.1, fun _ _ h => by cases h⟩
    | preventRevert O => exact ⟨h, fun _ _ h => by cases h⟩

theorem Unconfirmed.spared (h : Tracks p s.media) (hu : Unconfirmed x s e) :
    p.Spared Slot.other x (acts s e) := by
  have hs := h.shows
  cases e with
  | boot => exact ⟨trivial, trivial⟩
  | fwup c loss =>
    cases c with
    | complete A => exact hu.elim
    | provision A => exact hu.elim
    | factoryReset O => exact hu.elim
    | status O => exact hu.elim
    | preventRevert O => trivial
    | validate O =>
      refine ⟨fun hx => hu.2 ?_, trivial⟩
      rw [hs.active, hx]
    | upgrade A =>
      simp only [acts]
      split_ifs with hf
      · obtain ⟨y, hg, -⟩ := upgrade_failure.mp hf
        obtain rfl := hg.settled hs
        refine ⟨fun z hz hx => hu.2 ?_, trivial⟩
        obtain rfl : y = z := by simpa using hz
        rwa [← hx, Slot.other_other]
      · trivial
    | revert O =>
      simp only [acts]
      split_ifs with hf
      · obtain ⟨z, hg⟩ := revert_failure.mp hf
        refine ⟨fun hx => hu.2 ?_, trivial⟩
        rw [hg.back hs, Slot.other_other] at hx
        exact hx ▸ hg
      · trivial

/-- The acts of a run. -/
def runActs (hush : Hush) : State → List Event → List Act
  | _, [] => []
  | s, e :: es => acts s e ++ runActs hush (step hush s e) es

/-- Along a run that leaves slot `x` unconfirmed the device refines the trial. -/
theorem starts_eq (h : Tracks p s.media)
    (hes : Trace.Guarded (step hush) (Unconfirmed x) s es) :
    starts hush s es = p.starts Slot.other (runActs hush s es) ∧
      p.Spared Slot.other x (runActs hush s es) := by
  -- On the run, for all phases: each event is a list of acts, and the acts add up.
  induction es generalizing s p with
  | nil => exact ⟨rfl, trivial⟩
  | cons e es ih =>
    obtain ⟨he, hes⟩ := hes
    have ⟨hst, hsp⟩ := ih (h.step he.uninterrupted.1 he.uninterrupted.2) hes
    rw [runActs, Phase.starts_append, Phase.spared_append, ← hst]
    refine ⟨?_, he.spared h, hsp⟩
    cases e with
    | boot => simp only [starts, acts, Phase.starts, h.shows.nextSlot]; rfl
    | fwup c loss =>
      have hnil : p.starts Slot.other (acts s (.fwup c loss)) = [] := by
        unfold acts
        split <;> first | rfl | (split_ifs <;> rfl) | simp_all
      rw [hnil]
      rfl

/-- New firmware that nobody confirms is started at most once. A confirmation is a validation
while its slot is active, whatever runs, or a revert that makes its slot active. -/
theorem unconfirmed_once (hush : Hush) {B : Archive} {y : Slot} (fs : List Event)
    (ha : s.media.env "nerves_fw_autovalidate" = some "0") (hg : Gate B y s.media.env)
    (hf : (Command.upgrade B).failure s.host s.media = none)
    (hfs : Trace.Guarded (step hush) (Unconfirmed y.other)
      (step hush s (.fwup (.upgrade B) none)) fs) :
    (starts hush (step hush s (.fwup (.upgrade B) none)) fs).count y.other ≤ 1 := by
  obtain ⟨y', hg', hap⟩ := upgrade_failure.mp hf
  obtain rfl := hg.eq hg'
  have ht := tracks_upgraded hush hg hap ha
  obtain ⟨hst, hsp⟩ := starts_eq ht hfs
  rw [hst]
  exact Phase.count_starts_fresh (fun z hz => (Slot.eq_other_of_ne hz.symm).symm)
    (Slot.other_ne _) hsp

theorem unconfirmed_once_sample :
    (starts plainHush (run plainHush sampleState [.boot, .fwup (.upgrade sampleArchive) none])
      [.boot, .fwup (.upgrade sampleArchive) none, .boot, .boot]).count .b ≤ 1 :=
  unconfirmed_once plainHush (s := run plainHush sampleState [.boot]) (y := .a)
    [.boot, .fwup (.upgrade sampleArchive) none, .boot, .boot] (by decide +kernel)
    (by decide +kernel) (by decide +kernel)
    ⟨trivial, ⟨rfl, by decide +kernel⟩, trivial, trivial, trivial⟩

/-- No validation while slot `x` runs, and no further upgrade of it. -/
def Unvalidated (x : Slot) (s : State) : Event → Prop
  | .fwup (.upgrade A) loss => loss = none ∧ ¬ Gate A x.other s.media.env
  | .fwup (.validate _) loss => loss = none ∧ ¬ s.Running x
  | .fwup (.revert _) loss | .fwup (.preventRevert _) loss => loss = none
  | .boot => True
  | _ => False

/-- Started twice without a validation of its own: after a validation that came before the first
start, and after a revert that followed the automatic one. -/
theorem unvalidated_twice :
    let s := run plainHush sampleState [.boot, .fwup (.upgrade sampleArchive) none]
    let es := [.fwup (.validate sampleOps) none, .boot, .boot]
    let fs := [.boot, .boot, .fwup (.revert sampleOps) none, .boot]
    (Trace.Guarded (step plainHush) (Unvalidated .b) s es ∧
      (starts plainHush s es).count .b = 2) ∧
    Trace.Guarded (step plainHush) (Unvalidated .b) s fs ∧
      (starts plainHush s fs).count .b = 2 := by
  refine ⟨⟨⟨⟨rfl, ?_⟩, trivial, trivial, trivial⟩, ?_⟩,
    ⟨trivial, trivial, rfl, trivial, trivial⟩, ?_⟩
  · decide +kernel
  · decide +kernel
  · decide +kernel

end Once

section Fallback
variable {hush : Hush} {p : Phase Slot} {s : State} {x y z : Slot} {e : Event} {es : List Event}

/-- With nothing but bystanders around, the boots alone drive the trial. -/
theorem run_bystander (ht : Tracks p s.media)
    (hes : Trace.Guarded (step hush) Bystander s es) :
    Tracks ((Phase.boot Slot.other)^[boots es] p) (run hush s es).media ∧
      (∀ z, SlotCarried z s.media (run hush s es).media) ∧
      (boots es = 0 → (run hush s es).host = s.host) ∧
      (boots es ≠ 0 →
        (run hush s es).Running ((Phase.boot Slot.other)^[boots es] p).active) := by
  induction es generalizing s p with
  | nil => exact ⟨ht, fun z => (SameSlot.refl z _).carried, fun _ => rfl, fun h => absurd rfl h⟩
  | cons e es ih =>
    obtain ⟨he, hes⟩ := hes
    cases e with
    | boot =>
      have hsame := boot_carried hush ⟨_, ht.shows.active⟩
      obtain ⟨h1, h2, h3, h4⟩ := ih (ht.boot hush) hes
      have hb : boots (.boot :: es) = boots es + 1 := by simp [boots]
      rw [hb, Function.iterate_succ_apply, run_cons]
      refine ⟨h1, fun z => (hsame z).trans (h2 z), fun h => absurd h (Nat.succ_ne_zero _), ?_⟩
      intro _
      -- The system of this boot runs on unless there is a later boot.
      by_cases h0 : boots es = 0
      · have hrun := boot_running (ht.shows.nextSlot hush)
        rw [h0, Function.iterate_zero, id_eq]
        exact (congrArg Host.root (h3 h0)).trans hrun
      · exact h4 h0
    | fwup c loss =>
      obtain ⟨h1, h2, h3, h4⟩ := ih (he.tracks ht) hes
      have hb : boots (.fwup c loss :: es) = boots es := by simp [boots]
      rw [hb]
      exact ⟨h1, fun z => (he.sameSlot hush z).carried.trans (h2 z), h3, h4⟩

theorem run_bystander_sameSlot (hes : Trace.Guarded (step hush) Bystander s es)
    (hb : boots es = 0) (z : Slot) : SameSlot z s.media (run hush s es).media := by
  induction es generalizing s with
  | nil => exact .refl z _
  | cons e es ih =>
    obtain ⟨he, hes⟩ := hes
    cases e with
    | boot => simp [boots] at hb
    | fwup c loss => exact (he.sameSlot hush z).trans (ih hes (by simpa [boots] using hb))

/-- The first start of new firmware drops the variables without a value, and nothing brings
them back. -/
theorem run_bystander_import (ht : Tracks (.fresh x) s.media)
    (hes : Trace.Guarded (step hush) Bystander s es) (hb : boots es ≠ 0) (z : Slot) (v : String) :
    (run hush s es).media.env (z.var v) = envImport s.media.env (z.var v) := by
  induction es generalizing s with
  | nil => exact absurd rfl hb
  | cons e es ih =>
    obtain ⟨he, hes⟩ := hes
    cases e with
    | boot =>
      have hbooted : s.media.env "nerves_fw_booted" = some "0" := congrArg (·.2.2) ht.shows
      have himport : (boot hush s).media.env (z.var v) = envImport s.media.env (z.var v) := by
        rw [boot_env]
        exact savedEnv_import (Slot.var_not_mem (by decide))
          (by simp [import_eq hbooted])
      have hrest := ((run_bystander (ht.boot hush) hes).2.1 z).vars v
      rw [run_cons, ← himport]
      exact hrest.eq (himport ▸ import_ne _ _)
    | fwup c loss =>
      have hsame : (step hush s (.fwup c loss)).media.env (z.var v) = s.media.env (z.var v) :=
        (he.sameSlot hush z).vars v
      rw [run_cons, ih (he.tracks ht) hes (by simpa [boots] using hb)]
      simp only [envImport, hsame]

/-- An upgrade that is never validated: the first boot starts the new slot, every later one the
old slot, which is selected and validated again. The old slot is what it was. Of its variables,
those without a value are lost with the first boot. -/
theorem automatic_revert (hush : Hush) {A : Archive} (es : List Event) (hg : Gate A y s.media.env)
    (ha : s.media.env "nerves_fw_autovalidate" = some "0")
    (hf : (Command.upgrade A).failure s.host s.media = none)
    (hes : Trace.Guarded (step hush) Bystander (step hush s (.fwup (.upgrade A) none)) es) :
    let t := run hush (step hush s (.fwup (.upgrade A) none)) es
    SlotCarried y s.media t.media ∧
      ((boots es = 0 ∨ ∀ v, s.media.env (y.var v) ≠ some "") → SameSlot y s.media t.media) ∧
      (boots es ≠ 0 → ∀ v, t.media.env (y.var v) = envImport s.media.env (y.var v)) ∧
      (boots es = 1 → t.Running y.other) ∧
      (2 ≤ boots es → t.Running y ∧ t.media.env "nerves_fw_active" = some y.name ∧
        t.media.env "nerves_fw_validated" = some "1") := by
  obtain ⟨y', hg', hap⟩ := upgrade_failure.mp hf
  obtain rfl := hg.eq hg'
  have ht := tracks_upgraded hush hg hap ha
  have hsame : SameSlot y s.media (step hush s (.fwup (.upgrade A) none)).media :=
    hg.run_sameSlot s.host none
  obtain ⟨h1, h2, -, h4⟩ := run_bystander ht hes
  have hcarried := hsame.carried.trans (h2 y)
  refine ⟨hcarried, ?_, fun hb v => ?_, fun hb => ?_, fun hb => ?_⟩
  · rintro (hb | hv)
    · exact hsame.trans (run_bystander_sameSlot hes hb y)
    · exact hcarried.sameSlot hv
  · simp only [run_bystander_import ht hes hb, envImport, hsame.vars v]
  · rw [hb] at h4
    exact h4 Nat.one_ne_zero
  · obtain ⟨n, hn⟩ := Nat.exists_eq_add_of_le' hb
    have hp : (Phase.boot Slot.other)^[boots es] (.fresh y.other) = .settled y := by
      rw [hn]
      exact Phase.boot_iterate_install Slot.other_involutive y n
    rw [hp] at h1 h4
    exact ⟨h4 (by omega), h1.shows⟩

theorem automatic_revert_sample : (run plainHush (step plainHush (run plainHush sampleState [.boot])
    (.fwup (.upgrade sampleArchive) none))
      [.boot, .fwup (.upgrade sampleArchive) none, .boot]).Running .a := by
  have h := automatic_revert plainHush (s := run plainHush sampleState [.boot]) (y := .a)
    (A := sampleArchive) [.boot, .fwup (.upgrade sampleArchive) none, .boot]
    (by decide +kernel) (by decide +kernel) (by decide +kernel)
    ⟨trivial, fun y h => absurd h.validated (by decide +kernel), trivial, trivial⟩
  exact (h.2.2.2.2 (by decide)).1

/-- An upgrade before the first boot, with a slot a whose description is empty. -/
theorem automatic_revert_drops :
    let s := sampleState
    let t := step plainHush s (.fwup (.upgrade sampleArchive) none)
    Installed sampleArchive s ∧ Gate sampleArchive .a s.media.env ∧
      s.media.env "nerves_fw_autovalidate" = some "0" ∧
      (Command.upgrade sampleArchive).failure s.host s.media = none ∧
      Trace.Guarded (step plainHush) Bystander t [.boot, .boot] ∧
      ¬ SameSlot .a s.media (run plainHush t [.boot, .boot]).media := by
  refine ⟨installed_sample, by decide +kernel, by decide +kernel, by decide +kernel,
    ⟨trivial, trivial, trivial⟩, fun h => ?_⟩
  have hd := h.vars "nerves_fw_description"
  revert hd
  decide +kernel

end Fallback

section Reach
variable {hush : Hush} {p : Phase Slot} {s : State} {e : Event} {es : List Event} {A : Archive}

theorem Factory.tracks {m : Media} (h : Factory A m) : Tracks (.settled .a) m := by
  refine .of_settled (b := some "0") ?_ (.inl rfl) h.autovalidate
  simp only [Media.triple, h.active, h.validated, h.booted]
  rfl

theorem Uninterrupted.tracks (hu : Uninterrupted s e) (h : Tracks p s.media) :
    ∃ q, Tracks q (step hush s e).media := by
  by_cases hc : ∃ B loss, e = .fwup (.complete B) loss ∧ s.host.root = none
  · obtain ⟨B, loss, rfl, hr⟩ := hc
    obtain ⟨rfl, hf⟩ := hu
    have hi : Installed B (step hush s (.fwup (.complete B) none)) := ⟨hr, s.media, hf hr, rfl⟩
    exact ⟨_, hi.factory.tracks⟩
  · exact ⟨_, h.step hu fun B loss he hr => hc ⟨B, loss, he, hr⟩⟩

/-- Whatever is run, uninterrupted, the device is in some phase of the trial. -/
theorem exists_tracks (h : Installed A s) (hes : Trace.Guarded (step hush) Uninterrupted s es) :
    ∃ p, Tracks p (run hush s es).media :=
  hes.invariant (I := fun s => ∃ p, Tracks p s.media)
    (fun _ _ _ ⟨_, hp⟩ hu => hu.tracks hp) ⟨_, h.factory.tracks⟩

end Reach

end NervesSystem
