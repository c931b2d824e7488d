import NervesSystem.Library.Trace
import Mathlib.Algebra.Order.Ring.Int
import Mathlib.Data.List.Pairwise
import Mathlib.Tactic.Common

namespace NervesSystem.Reorder

open Trace
open scoped List

variable {α : Type*} {w : ℤ}

/-- The number wanted next, and what is held for later with its numbers. -/
structure Buffer (α : Type*) where
  next : ℤ
  held : List (ℤ × α)

def Ascending (l : List (ℤ × α)) : Prop :=
  l.Pairwise (·.1 < ·.1)

structure Buffer.Valid (w : ℤ) (b : Buffer α) : Prop where
  ascending : Ascending b.held
  ahead : ∀ p ∈ b.held, b.next < p.1
  within : ∀ p ∈ b.held, p.1 < b.next + w

/-- The list with the item at its place, none where the number is taken. -/
def place (n : ℤ) (a : α) : List (ℤ × α) → Option (List (ℤ × α))
  | [] => some [(n, a)]
  | p :: l =>
    if p.1 < n then (place n a l).map (p :: ·)
    else if p.1 = n then none
    else some ((n, a) :: p :: l)

/-- What is due from the number on, and the buffer that is left. -/
def settle (next : ℤ) : List (ℤ × α) → List (ℤ × α) × Buffer α
  | [] => ([], ⟨next, []⟩)
  | p :: l =>
    if p.1 ≤ next then
      let r := settle (if p.1 = next then next + 1 else next) l
      (p :: r.1, r.2)
    else ([], ⟨next, p :: l⟩)

/-- Where the window of `w` numbers starts once it has to hold `n`. -/
def slide (w next n : ℤ) : ℤ :=
  if n = next then next + 1 else if next + w ≤ n then n - w + 1 else next

inductive Verdict (α : Type*)
  | late
  | duplicate
  | queued (due : List (ℤ × α))

def Buffer.accept (w : ℤ) (b : Buffer α) (n : ℤ) (a : α) : Verdict α × Buffer α :=
  if n < b.next then (.late, b) else
    match place n a b.held with
    | none => (.duplicate, { b with next := slide w b.next n })
    | some l => let r := settle (slide w b.next n) l; (.queued r.1, r.2)

/-- The wait for what is missing before the first item held is given up. -/
def Buffer.expire (b : Buffer α) : List (ℤ × α) × Buffer α :=
  match b.held with
  | [] => ([], b)
  | p :: _ => settle p.1 b.held

inductive Event (α : Type*)
  | arrive (n : ℤ) (a : α)
  | expire

/-- The first number to arrive is the first one wanted. -/
def verdict (w : ℤ) (b : Option (Buffer α)) (n : ℤ) (a : α) : Verdict α × Buffer α :=
  (b.getD ⟨n, []⟩).accept w n a

def step (w : ℤ) (b : Option (Buffer α)) : Event α → Option (Buffer α)
  | .arrive n a => some (verdict w b n a).2
  | .expire => b.map fun b => b.expire.2

/-- The items that an event lets go in order. -/
def released (w : ℤ) (b : Option (Buffer α)) : Event α → List (ℤ × α)
  | .arrive n a =>
    match (verdict w b n a).1 with
    | .queued due => due
    | _ => []
  | .expire => (b.map fun b => b.expire.1).getD []

theorem place_perm {n : ℤ} {a : α} {l l' : List (ℤ × α)} (h : place n a l = some l') :
    l'.Perm ((n, a) :: l) := by
  induction l generalizing l' with
  | nil =>
    simp only [place, Option.some.injEq] at h
    rw [← h]
  | cons p l ih =>
    simp only [place] at h
    split_ifs at h with hlt heq
    · obtain ⟨k, hk, rfl⟩ := Option.map_eq_some_iff.mp h
      exact ((ih hk).cons p).trans (.swap _ _ _)
    · rw [Option.some.injEq] at h
      rw [← h]

theorem place_ascending {n : ℤ} {a : α} {l l' : List (ℤ × α)} (hl : Ascending l)
    (h : place n a l = some l') : Ascending l' := by
  induction l generalizing l' with
  | nil =>
    simp only [place, Option.some.injEq] at h
    subst h
    exact List.pairwise_singleton _ _
  | cons p l ih =>
    obtain ⟨hp, hl⟩ := List.pairwise_cons.mp hl
    simp only [place] at h
    split_ifs at h with hlt heq
    · obtain ⟨k, hk, rfl⟩ := Option.map_eq_some_iff.mp h
      refine List.pairwise_cons.mpr ⟨fun q hq => ?_, ih hl hk⟩
      rcases List.mem_cons.mp ((place_perm hk).mem_iff.mp hq) with rfl | hq
      · exact hlt
      · exact hp q hq
    · rw [Option.some.injEq] at h
      subst h
      refine List.pairwise_cons.mpr ⟨fun q hq => ?_, List.pairwise_cons.mpr ⟨hp, hl⟩⟩
      have hn : n < p.1 := by omega
      rcases List.mem_cons.mp hq with rfl | hq
      · exact hn
      · exact Int.lt_trans hn (hp q hq)

theorem place_eq_none {n : ℤ} {a : α} {l : List (ℤ × α)} (h : place n a l = none) :
    ∃ p ∈ l, p.1 = n := by
  induction l with
  | nil => simp [place] at h
  | cons p l ih =>
    simp only [place] at h
    split_ifs at h with hlt heq
    · obtain ⟨q, hq, hn⟩ := ih (Option.map_eq_none_iff.mp h)
      exact ⟨q, by simp [hq], hn⟩
    · exact ⟨p, by simp, heq⟩

/-- Nothing is lost or moved where the list is cut. -/
theorem settle_append (next : ℤ) (l : List (ℤ × α)) :
    (settle next l).1 ++ (settle next l).2.held = l := by
  induction l generalizing next with
  | nil => rfl
  | cons p l ih =>
    simp only [settle]
    split_ifs with h <;> simp [ih]

theorem le_settle (next : ℤ) (l : List (ℤ × α)) : next ≤ (settle next l).2.next := by
  induction l generalizing next with
  | nil => exact Int.le_refl _
  | cons p l ih =>
    simp only [settle]
    split_ifs with h heq
    · have := ih (next + 1)
      show next ≤ (settle (next + 1) l).2.next
      omega
    · exact ih next
    · exact Int.le_refl _

/-- Everything let go lies before the number wanted next. -/
theorem settle_due (next : ℤ) (l : List (ℤ × α)) :
    ∀ p ∈ (settle next l).1, p.1 < (settle next l).2.next := by
  induction l generalizing next with
  | nil => simp [settle]
  | cons p l ih =>
    intro q hq
    simp only [settle] at hq ⊢
    split_ifs at hq ⊢ with h heq
    · rcases List.mem_cons.mp hq with rfl | hq
      · have := le_settle (next + 1) l
        show q.1 < (settle (next + 1) l).2.next
        omega
      · exact ih _ q hq
    · rcases List.mem_cons.mp hq with rfl | hq
      · have := le_settle next l
        show q.1 < (settle next l).2.next
        omega
      · exact ih _ q hq
    · simp at hq

/-- Everything kept lies behind it. -/
theorem settle_held {next : ℤ} {l : List (ℤ × α)} (hl : Ascending l) :
    ∀ p ∈ (settle next l).2.held, (settle next l).2.next < p.1 := by
  induction l generalizing next with
  | nil => simp [settle]
  | cons p l ih =>
    obtain ⟨hp, hl⟩ := List.pairwise_cons.mp hl
    intro q hq
    simp only [settle] at hq ⊢
    split_ifs at hq ⊢ with h heq
    · exact ih hl q hq
    · exact ih hl q hq
    · rcases List.mem_cons.mp hq with rfl | hq
      · show next < q.1
        omega
      · have := hp q hq
        show next < q.1
        omega

/-- The numbers passed on the way are all let go. -/
theorem settle_fill {next m : ℤ} {l : List (ℤ × α)} (hm : next ≤ m)
    (hlt : m < (settle next l).2.next) : ∃ p ∈ (settle next l).1, p.1 = m := by
  induction l generalizing next with
  | nil =>
    simp only [settle] at hlt
    omega
  | cons p l ih =>
    simp only [settle] at hlt ⊢
    split_ifs at hlt ⊢ with h heq
    · by_cases hmn : m = next
      · exact ⟨p, by simp, by omega⟩
      · obtain ⟨q, hq, hqm⟩ := ih (by omega) hlt
        exact ⟨q, List.mem_cons_of_mem _ hq, hqm⟩
    · obtain ⟨q, hq, hqm⟩ := ih hm hlt
      exact ⟨q, List.mem_cons_of_mem _ hq, hqm⟩
    · have hlt : m < next := hlt
      omega

theorem settle_le {next top : ℤ} {l : List (ℤ × α)} (hn : next ≤ top + 1)
    (hl : ∀ p ∈ l, p.1 ≤ top) : (settle next l).2.next ≤ top + 1 := by
  induction l generalizing next with
  | nil => exact hn
  | cons p l ih =>
    have hp := hl p (by simp)
    have hl : ∀ q ∈ l, q.1 ≤ top := fun q hq => hl q (by simp [hq])
    simp only [settle]
    split_ifs with h heq
    · exact ih (by omega) hl
    · exact ih hn hl
    · exact hn

theorem mem_of_mem_due {next : ℤ} {l : List (ℤ × α)} {p : ℤ × α} (h : p ∈ (settle next l).1) :
    p ∈ l := by
  rw [← settle_append next l]
  exact List.mem_append_left _ h

theorem mem_of_mem_held {next : ℤ} {l : List (ℤ × α)} {p : ℤ × α}
    (h : p ∈ (settle next l).2.held) : p ∈ l := by
  rw [← settle_append next l]
  exact List.mem_append_right _ h

theorem settle_valid {next : ℤ} {l : List (ℤ × α)} (hl : Ascending l)
    (hw : ∀ p ∈ l, p.1 < next + w) : (settle next l).2.Valid w where
  ascending := by
    have h : Ascending ((settle next l).1 ++ (settle next l).2.held) := by rwa [settle_append]
    exact (List.pairwise_append.mp h).2.1
  ahead := settle_held hl
  within := fun p hp => by
    have h1 := hw p (mem_of_mem_held hp)
    have h2 := le_settle next l
    omega

theorem settle_due_ascending {next : ℤ} {l : List (ℤ × α)} (hl : Ascending l) :
    Ascending (settle next l).1 := by
  have h : Ascending ((settle next l).1 ++ (settle next l).2.held) := by rwa [settle_append]
  exact (List.pairwise_append.mp h).1

theorem le_slide (w next n : ℤ) : next ≤ slide w next n := by
  unfold slide
  split_ifs <;> omega

theorem slide_le {next n : ℤ} (hw : 0 < w) (hn : next ≤ n) : slide w next n ≤ n + 1 := by
  unfold slide
  split_ifs <;> omega

theorem lt_slide (hw : 0 < w) (next n : ℤ) : n < slide w next n + w := by
  unfold slide
  split_ifs <;> omega

/-- Where the number is taken, the window holds it and stays. -/
theorem slide_of_held {b : Buffer α} {n : ℤ} (hb : b.Valid w) (h : ∃ p ∈ b.held, p.1 = n) :
    slide w b.next n = b.next := by
  obtain ⟨p, hp, rfl⟩ := h
  have h1 := hb.ahead p hp
  have h2 := hb.within p hp
  unfold slide
  split_ifs <;> omega

/-- The three ends of an arrival. -/
theorem accept_cases (w : ℤ) (b : Buffer α) (n : ℤ) (a : α) :
    (n < b.next ∧ b.accept w n a = (.late, b)) ∨
    (b.next ≤ n ∧ place n a b.held = none ∧
      b.accept w n a = (.duplicate, { b with next := slide w b.next n })) ∨
    (b.next ≤ n ∧ ∃ l, place n a b.held = some l ∧
      b.accept w n a = (.queued (settle (slide w b.next n) l).1,
        (settle (slide w b.next n) l).2)) := by
  unfold Buffer.accept
  by_cases h : n < b.next
  · left
    exact ⟨h, if_pos h⟩
  · right
    rw [if_neg h]
    cases hp : place n a b.held with
    | none => exact .inl ⟨by omega, rfl, rfl⟩
    | some l => exact .inr ⟨by omega, l, rfl, rfl⟩

/-- The buffer fits its window, and what it let go so far lies in order before what it wants. -/
structure Ordered (w : ℤ) (b : Buffer α) (os : List (ℤ × α)) : Prop where
  valid : b.Valid w
  ascending : Ascending os
  before : ∀ p ∈ os, p.1 < b.next

theorem Ordered.settle {b : Buffer α} {os l : List (ℤ × α)} {next : ℤ} (h : Ordered w b os)
    (hl : Ascending l) (hw : ∀ p ∈ l, p.1 < next + w) (hle : b.next ≤ next)
    (hb : ∀ p ∈ l, b.next ≤ p.1) :
    Ordered w (settle next l).2 (os ++ (settle next l).1) where
  valid := settle_valid hl hw
  ascending := by
    refine List.pairwise_append.mpr ⟨h.ascending, settle_due_ascending hl, fun p hp q hq => ?_⟩
    have h1 := h.before p hp
    have h2 := hb q (mem_of_mem_due hq)
    omega
  before := by
    intro p hp
    rcases List.mem_append.mp hp with hp | hp
    · have h1 := h.before p hp
      have h2 := le_settle next l
      omega
    · exact settle_due next l p hp

theorem Ordered.accept (hw : 0 < w) {b : Buffer α} {os : List (ℤ × α)} (h : Ordered w b os)
    (n : ℤ) (a : α) : Ordered w (b.accept w n a).2
      (os ++ match (b.accept w n a).1 with | .queued due => due | _ => []) := by
  rcases accept_cases w b n a with ⟨-, he⟩ | ⟨-, hp, he⟩ | ⟨hn, l, hp, he⟩
  · simpa [he] using h
  · have hs := slide_of_held h.valid (place_eq_none hp)
    simpa [he, hs] using h
  · have hmem := fun p => (place_perm hp).mem_iff (a := p)
    rw [he]
    apply h.settle (place_ascending h.valid.ascending hp) _ (le_slide w _ _)
    · intro p hpl
      rcases List.mem_cons.mp ((hmem p).mp hpl) with rfl | hpb
      · exact hn
      · have := h.valid.ahead p hpb
        omega
    · intro p hpl
      rcases List.mem_cons.mp ((hmem p).mp hpl) with rfl | hpb
      · exact lt_slide hw _ _
      · have h1 := h.valid.within p hpb
        have h2 := le_slide w b.next n
        omega

theorem Ordered.expire {b : Buffer α} {os : List (ℤ × α)} (h : Ordered w b os) :
    Ordered w b.expire.2 (os ++ b.expire.1) := by
  unfold Buffer.expire
  cases hl : b.held with
  | nil => simpa using h
  | cons p l =>
    have hp := h.valid.ahead p (by simp [hl])
    apply h.settle (hl ▸ h.valid.ascending) _ (by omega)
    · intro q hq
      have := h.valid.ahead q (hl ▸ hq)
      omega
    · intro q hq
      have := h.valid.within q (hl ▸ hq)
      omega

theorem Buffer.fresh_valid (w n : ℤ) : (⟨n, []⟩ : Buffer α).Valid w :=
  ⟨.nil, by simp, by simp⟩

theorem Ordered.fresh (w n : ℤ) : Ordered w (⟨n, []⟩ : Buffer α) [] where
  valid := Buffer.fresh_valid w n
  ascending := .nil
  before := by simp

/-- Before the first arrival there is no buffer and nothing has gone. -/
def Orderly (w : ℤ) (b : Option (Buffer α)) (os : List (ℤ × α)) : Prop :=
  (b = none ∧ os = []) ∨ ∃ b', b = some b' ∧ Ordered w b' os

theorem Orderly.step (hw : 0 < w) {b : Option (Buffer α)} {os : List (ℤ × α)}
    (h : Orderly w b os) (e : Event α) : Orderly w (step w b e) (os ++ released w b e) := by
  cases e with
  | arrive n a =>
    right
    refine ⟨_, rfl, ?_⟩
    rcases h with ⟨rfl, rfl⟩ | ⟨b', rfl, h⟩
    · exact (Ordered.fresh w n).accept hw n a
    · exact h.accept hw n a
  | expire =>
    rcases h with ⟨rfl, rfl⟩ | ⟨b', rfl, h⟩
    · exact .inl ⟨rfl, rfl⟩
    · exact .inr ⟨_, rfl, h.expire⟩

/-- Over any run the items go in the order of their numbers, and none goes twice. -/
theorem emitted_ascending (hw : 0 < w) (es : List (Event α)) :
    Ascending (emitted (step w) (released w) none es) := by
  have h : Orderly w _ ([] ++ emitted (step w) (released w) none es) :=
    emitted_invariant (fun b os e _ hk => hk.step hw e) (.inl ⟨rfl, rfl⟩)
  rcases h with ⟨-, h⟩ | ⟨b', -, h⟩
  · rw [List.nil_append] at h
    rw [h]
    exact .nil
  · simpa using h.ascending

/-- The highest number that has arrived. -/
def highest (t : Option ℤ) : Event α → Option ℤ
  | .arrive n _ => some (max (t.getD n) n)
  | .expire => t

/-- An arrival is at most `behind` before the highest one so far and at most `ahead` after it. -/
def Near (behind ahead : ℤ) (t : Option ℤ) : Event α → Prop
  | .arrive n _ => ∀ top, t = some top → top - behind ≤ n ∧ n ≤ top + ahead
  | .expire => True

/-- The window reaches up to the highest number that has arrived. -/
structure Tracks (w : ℤ) (b : Buffer α) (top : ℤ) : Prop where
  le : b.next ≤ top + 1
  lt : top < b.next + w
  held : ∀ p ∈ b.held, p.1 ≤ top

theorem tracks_settle {l : List (ℤ × α)} {next top : ℤ} (hn : next ≤ top + 1)
    (hlt : top < next + w) (hl : ∀ p ∈ l, p.1 ≤ top) : Tracks w (settle next l).2 top where
  le := settle_le hn hl
  lt := by
    have := le_settle next l
    omega
  held := fun p hp => hl p (mem_of_mem_held hp)

theorem Tracks.accept (hw : 0 < w) {b : Buffer α} {top : ℤ} (hb : b.Valid w) (h : Tracks w b top)
    (n : ℤ) (a : α) : Tracks w (b.accept w n a).2 (max top n) := by
  have hle := h.le
  have hlt := h.lt
  rcases accept_cases w b n a with ⟨hn, he⟩ | ⟨hn, hp, he⟩ | ⟨hn, l, hp, he⟩ <;> rw [he]
  · rw [max_eq_left (by omega)]
    exact h
  · obtain ⟨p, hpb, hpn⟩ := place_eq_none hp
    have := h.held p hpb
    rw [max_eq_left (by omega), slide_of_held hb ⟨p, hpb, hpn⟩]
    exact h
  · have h1 := lt_slide hw b.next n
    have h2 := le_slide w b.next n
    apply tracks_settle
    · have := slide_le hw hn
      omega
    · omega
    · intro p hpl
      rcases List.mem_cons.mp ((place_perm hp).mem_iff.mp hpl) with rfl | hpb
      · exact le_max_right _ _
      · exact Int.le_trans (h.held p hpb) (le_max_left _ _)

theorem Tracks.expire {b : Buffer α} {top : ℤ} (hb : b.Valid w)
    (h : Tracks w b top) : Tracks w b.expire.2 top := by
  unfold Buffer.expire
  cases hl : b.held with
  | nil => exact h
  | cons p l =>
    have h1 := hb.ahead p (by simp [hl])
    have h2 := h.held p (by simp [hl])
    have h3 := h.lt
    exact tracks_settle (by omega) (by omega) (hl ▸ h.held)

/-- An arrival is at most `behind` before what is wanted next and less than `ahead` after it. -/
def Close (behind ahead : ℤ) (b : Option (Buffer α)) : Event α → Prop
  | .arrive n _ => ∀ b', b = some b' → b'.next - behind ≤ n ∧ n < b'.next + ahead
  | .expire => True

theorem Buffer.Valid.accept (hw : 0 < w) {b : Buffer α} (hb : b.Valid w) (n : ℤ) (a : α) :
    (b.accept w n a).2.Valid w :=
  ((⟨hb, .nil, by simp⟩ : Ordered w b []).accept hw n a).valid

theorem Buffer.Valid.expire {b : Buffer α} (hb : b.Valid w) : b.expire.2.Valid w :=
  ((⟨hb, .nil, by simp⟩ : Ordered w b []).expire).valid

/-- Arrivals near to one another are near to what the buffer wants. -/
theorem close_of_near (hw : 0 < w) {behind ahead : ℤ} {es : List (Event α)}
    {b : Option (Buffer α)} {t : Option ℤ}
    (h : (b = none ∧ t = none) ∨
      ∃ b' top, b = some b' ∧ t = some top ∧ b'.Valid w ∧ Tracks w b' top)
    (hes : Guarded highest (Near behind ahead) t es) :
    Guarded (step w) (Close (behind + 1) (ahead + w)) b es := by
  induction es generalizing b t with
  | nil => trivial
  | cons e es ih =>
    obtain ⟨he, hes⟩ := hes
    cases e with
    | arrive n a =>
      rcases h with ⟨rfl, rfl⟩ | ⟨b', top, rfl, rfl, hb, ht⟩
      · have hb : (⟨n, []⟩ : Buffer α).Valid w := Buffer.fresh_valid w n
        have ht : Tracks w (⟨n, []⟩ : Buffer α) n :=
          ⟨by dsimp only; omega, by dsimp only; omega, by simp⟩
        exact ⟨by simp [Close],
          ih (.inr ⟨_, _, rfl, rfl, hb.accept hw n a, ht.accept hw hb n a⟩) hes⟩
      · refine ⟨?_, ih (.inr ⟨_, _, rfl, rfl, hb.accept hw n a, ht.accept hw hb n a⟩) hes⟩
        intro b hbb
        obtain rfl := Option.some.inj hbb
        obtain ⟨h1, h2⟩ := he top rfl
        have hle := ht.le
        have hlt := ht.lt
        constructor <;> omega
    | expire =>
      refine ⟨trivial, ih ?_ hes⟩
      rcases h with ⟨rfl, rfl⟩ | ⟨b', top, rfl, rfl, hb, ht⟩
      · exact .inl ⟨rfl, rfl⟩
      · exact .inr ⟨_, _, rfl, rfl, hb.expire, ht.expire hb⟩

/-- The items with consecutive numbers from the first on. -/
def numbered (n : ℤ) : List α → List (ℤ × α)
  | [] => []
  | a :: l => (n, a) :: numbered (n + 1) l

theorem numbered_bounds {n : ℤ} {l : List α} {p : ℤ × α} (h : p ∈ numbered n l) :
    n ≤ p.1 ∧ p.1 < n + l.length := by
  induction l generalizing n with
  | nil => simp [numbered] at h
  | cons a l ih =>
    rw [List.length_cons]
    rcases List.mem_cons.mp h with rfl | h
    · dsimp only
      omega
    · have := ih h
      omega

theorem exists_numbered {n m : ℤ} {l : List α} (h1 : n ≤ m) (h2 : m < n + l.length) :
    ∃ p ∈ numbered n l, p.1 = m := by
  induction l generalizing n with
  | nil =>
    rw [List.length_nil] at h2
    omega
  | cons a l ih =>
    rw [List.length_cons] at h2
    by_cases h : m = n
    · exact ⟨(n, a), by simp [numbered], h.symm⟩
    · obtain ⟨p, hp, hpm⟩ := ih (n := n + 1) (by omega) (by omega)
      exact ⟨p, List.mem_cons_of_mem _ hp, hpm⟩

theorem numbered_ascending (n : ℤ) (l : List α) : Ascending (numbered n l) := by
  induction l generalizing n with
  | nil => exact .nil
  | cons a l ih =>
    refine List.pairwise_cons.mpr ⟨fun p hp => ?_, ih _⟩
    have := (numbered_bounds hp).1
    dsimp only
    omega

theorem Ascending.eq_of_fst {l : List (ℤ × α)} (h : Ascending l) {p q : ℤ × α} (hp : p ∈ l)
    (hq : q ∈ l) (he : p.1 = q.1) : p = q := by
  induction l with
  | nil => simp at hp
  | cons r l ih =>
    obtain ⟨hr, hl⟩ := List.pairwise_cons.mp h
    rcases List.mem_cons.mp hp with hp | hp <;> rcases List.mem_cons.mp hq with hq | hq
    · rw [hp, hq]
    · have := hr q hq
      rw [← hp] at this
      omega
    · have := hr p hp
      rw [← hq] at this
      omega
    · exact ih hl hp hq

/-- What has arrived, against what has gone and what is held. -/
structure Whole (w first : ℤ) (b : Buffer α) (os as : List (ℤ × α)) : Prop where
  ordered : Ordered w b os
  first_le : first ≤ b.next
  perm : (os ++ b.held).Perm as
  full : ∀ m, first ≤ m → m < b.next → ∃ p ∈ os, p.1 = m

theorem Whole.next_le {b : Buffer α} {first : ℤ} {os as : List (ℤ × α)} (h : Whole w first b os as)
    {p : ℤ × α} (hp : p ∈ as) (hn : ∀ q ∈ os, q.1 ≠ p.1) : b.next < p.1 := by
  rcases List.mem_append.mp (h.perm.mem_iff.mpr hp) with ho | hh
  · exact absurd rfl (hn p ho)
  · exact h.ordered.valid.ahead p hh

/-- An arrival of a new number, all those a window before it being there, goes in line. -/
theorem Whole.accept (hw : 0 < w) {b : Buffer α} {first n : ℤ} {os as : List (ℤ × α)}
    (h : Whole w first b os as) (a : α) (hfirst : first ≤ n) (hnew : ∀ p ∈ as, p.1 ≠ n)
    (hpast : ∀ m, first ≤ m → m + w ≤ n → ∃ p ∈ as, p.1 = m) :
    (b.next ≤ n ∧ n < b.next + w) ∧ ∃ due, (b.accept w n a).1 = .queued due ∧
      Whole w first (b.accept w n a).2 (os ++ due) (as ++ [(n, a)]) := by
  have hos := fun p (hp : p ∈ os) => hnew p (h.perm.mem_iff.mp (List.mem_append_left _ hp))
  have hnext : b.next ≤ n := by
    by_contra hlt
    obtain ⟨p, hp, hpn⟩ := h.full n hfirst (by omega)
    exact hos p hp hpn
  have hwin : n < b.next + w := by
    by_contra hge
    obtain ⟨p, hp, hpn⟩ := hpast b.next h.first_le (by omega)
    rcases List.mem_append.mp (h.perm.mem_iff.mpr hp) with ho | hh
    · have := h.ordered.before p ho
      omega
    · have := h.ordered.valid.ahead p hh
      omega
  have ho := h.ordered.accept hw n a
  rcases accept_cases w b n a with ⟨hn, -⟩ | ⟨-, hp, -⟩ | ⟨-, l, hp, he⟩
  · omega
  · obtain ⟨p, hpb, hpn⟩ := place_eq_none hp
    exact absurd hpn (hnew p (h.perm.mem_iff.mp (List.mem_append_right _ hpb)))
  · rw [he] at ho ⊢
    have hle := le_settle (slide w b.next n) l
    have hle' := le_slide w b.next n
    refine ⟨⟨hnext, hwin⟩, _, rfl, ho, ?_, ?_, fun m hm hlt => ?_⟩
    · have := h.first_le
      dsimp only
      omega
    · calc os ++ (settle (slide w b.next n) l).1 ++ (settle (slide w b.next n) l).2.held
          = os ++ l := by rw [List.append_assoc, settle_append]
        _ ~ os ++ ((n, a) :: b.held) := (place_perm hp).append_left os
        _ ~ (n, a) :: (os ++ b.held) := List.perm_middle
        _ ~ as ++ [(n, a)] := (h.perm.cons _).trans (List.perm_append_singleton _ _).symm
    · by_cases hmb : m < b.next
      · obtain ⟨p, hpo, hpm⟩ := h.full m hm hmb
        exact ⟨p, List.mem_append_left _ hpo, hpm⟩
      by_cases hms : slide w b.next n ≤ m
      · obtain ⟨p, hpd, hpm⟩ := settle_fill hms hlt
        exact ⟨p, List.mem_append_right _ hpd, hpm⟩
      -- The only number that the window steps over is the one that arrives.
      have hmn : m = n := by
        unfold slide at hms
        split_ifs at hms <;> omega
      have hl : (n, a) ∈ l := (place_perm hp).mem_iff.mpr List.mem_cons_self
      rw [← settle_append (slide w b.next n) l] at hl
      rcases List.mem_append.mp hl with hd | hh
      · exact ⟨_, List.mem_append_right _ hd, hmn.symm⟩
      · have := ho.valid.ahead _ hh
        dsimp only at this hlt
        omega

/-- A way for numbered items to arrive: the first one first, and each one after all those a window
before it. -/
structure Displaced (w : ℤ) (items as : List (ℤ × α)) : Prop where
  perm : as ~ items
  head : ∀ p l, as = p :: l → ∀ q ∈ items, p.1 ≤ q.1
  past : ∀ pre p post, as = pre ++ p :: post → ∀ q ∈ items, q.1 + w ≤ p.1 → q ∈ pre

def arrivals (as : List (ℤ × α)) : List (Event α) :=
  as.map fun p => .arrive p.1 p.2

/-- An arrival lies in the window and is put in line. -/
def Queues (w : ℤ) (b : Option (Buffer α)) : Event α → Prop
  | .arrive n a => (∀ b', b = some b' → b'.next ≤ n ∧ n < b'.next + w) ∧
      ∃ due, (verdict w b n a).1 = .queued due
  | .expire => True

theorem Whole.run (hw : 0 < w) {first : ℤ} {sent : List α} {as : List (ℤ × α)}
    (hd : Displaced w (numbered first sent) as) {rest pre os : List (ℤ × α)} {b : Buffer α}
    (hsplit : as = pre ++ rest) (h : Whole w first b os pre) :
    Guarded (step w) (Queues w) (some b) (arrivals rest) ∧
      ∃ b', Whole w first b' (os ++ emitted (step w) (released w) (some b) (arrivals rest)) as := by
  induction rest generalizing pre os b with
  | nil => exact ⟨trivial, b, by simpa [arrivals, emitted, hsplit] using h⟩
  | cons p rest ih =>
    have hasc := numbered_ascending first sent
    have hin : ∀ q ∈ as, q ∈ numbered first sent := fun q hq => hd.perm.mem_iff.mp hq
    have hp : p ∈ numbered first sent := hin p (by simp [hsplit])
    have hnodup : as.Nodup := hd.perm.nodup_iff.mpr (hasc.imp fun h he => by simp [he] at h)
    obtain ⟨hwin, due, hq, hnext⟩ := h.accept hw p.2 (numbered_bounds hp).1
      (fun q hqp hn => by
        have hqp' := hasc.eq_of_fst (hin q (by simp [hsplit, hqp])) hp hn
        rw [hsplit] at hnodup
        exact (List.nodup_append.mp hnodup).2.2 q hqp p (by simp) hqp')
      (fun m hm hmp => by
        have hb := numbered_bounds hp
        obtain ⟨q, hqn, hqm⟩ := exists_numbered (l := sent) hm (by omega)
        exact ⟨q, hd.past pre p rest hsplit q hqn (by omega), hqm⟩)
    obtain ⟨hguard, hrun⟩ := ih (b := (b.accept w p.1 p.2).2) (by simp [hsplit]) hnext
    have hwin' : ∀ b', some b = some b' → b'.next ≤ p.1 ∧ p.1 < b'.next + w :=
      fun b' hb => Option.some.inj hb ▸ hwin
    refine ⟨⟨⟨hwin', due, hq⟩, hguard⟩, ?_⟩
    simpa only [arrivals, List.map_cons, emitted, step, released, verdict, Option.getD_some, hq,
      List.append_assoc] using hrun

/-- The first number wanted is that of the first arrival. -/
theorem Displaced.first {first : ℤ} {sent : List α} {p : ℤ × α} {l : List (ℤ × α)}
    (hd : Displaced w (numbered first sent) (p :: l)) : p.1 = first := by
  have hb := numbered_bounds (hd.perm.mem_iff.mp List.mem_cons_self)
  obtain ⟨q, hq, hqf⟩ := exists_numbered (l := sent) (Int.le_refl first) (by omega)
  have hle := hd.head p l rfl q hq
  omega

/-- Only what has arrived goes out. -/
theorem mem_arrivals_of_emitted {es : List (Event α)} :
    ∀ p ∈ emitted (step w) (released w) none es, Event.arrive p.1 p.2 ∈ es := by
  suffices h : (∀ p ∈ [] ++ emitted (step w) (released w) none es, Event.arrive p.1 p.2 ∈ es) ∧
      ∀ b', es.foldl (step w) none = some b' → ∀ p ∈ b'.held, Event.arrive p.1 p.2 ∈ es from h.1
  refine emitted_invariant
    (K := fun (b : Option (Buffer α)) (os : List (ℤ × α)) =>
      (∀ p ∈ os, Event.arrive p.1 p.2 ∈ es) ∧
        ∀ b', b = some b' → ∀ p ∈ b'.held, Event.arrive p.1 p.2 ∈ es)
    ?_ (by simp)
  intro b os e he ⟨hos, hb⟩
  cases e with
  | arrive n a =>
    have hheld : ∀ p ∈ (b.getD ⟨n, []⟩).held, Event.arrive p.1 p.2 ∈ es := by
      cases b with
      | none => simp
      | some b' => exact hb b' rfl
    rcases accept_cases w (b.getD ⟨n, []⟩) n a with ⟨-, hv⟩ | ⟨-, hp, hv⟩ | ⟨-, l, hp, hv⟩ <;>
      simp only [step, released, verdict, hv, List.append_nil, Option.some.injEq, forall_eq']
    · exact ⟨hos, hheld⟩
    · exact ⟨hos, hheld⟩
    · have hl : ∀ p ∈ l, Event.arrive p.1 p.2 ∈ es := by
        intro p hpl
        rcases List.mem_cons.mp ((place_perm hp).mem_iff.mp hpl) with rfl | hpb
        · exact he
        · exact hheld p hpb
      refine ⟨fun p hp => ?_, fun p hp => hl p (mem_of_mem_held hp)⟩
      rcases List.mem_append.mp hp with hp | hp
      · exact hos p hp
      · exact hl p (mem_of_mem_due hp)
  | expire =>
    cases b with
    | none => simpa [step, released] using hos
    | some b' =>
      have hb := hb b' rfl
      simp only [step, released, Option.map_some, Option.getD_some, Option.some.injEq,
        forall_eq', Buffer.expire]
      cases hl : b'.held with
      | nil => exact ⟨by simpa using hos, hb⟩
      | cons q l =>
        rw [hl] at hb
        refine ⟨fun p hp => ?_, fun p hp => hb p (mem_of_mem_held hp)⟩
        rcases List.mem_append.mp hp with hp | hp
        · exact hos p hp
        · exact hb p (mem_of_mem_due hp)

end NervesSystem.Reorder
