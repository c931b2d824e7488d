import Mathlib.Logic.Function.Basic
import Mathlib.Tactic.SplitIfs

namespace NervesSystem

inductive Slot
  | a
  | b
  deriving DecidableEq, Repr

namespace Slot

def name : Slot → String
  | a => "a"
  | b => "b"

def other : Slot → Slot
  | a => b
  | b => a

def ofName (s : String) : Option Slot :=
  if s = "a" then some a else if s = "b" then some b else none

@[simp] theorem other_other (x : Slot) : x.other.other = x := by cases x <;> rfl

theorem other_involutive : Function.Involutive other := other_other

@[simp] theorem other_ne (x : Slot) : x.other ≠ x := by cases x <;> decide

@[simp] theorem ne_other (x : Slot) : x ≠ x.other := (other_ne x).symm

theorem eq_other_of_ne {x y : Slot} (h : y ≠ x) : y = x.other := by
  cases x <;> cases y <;> first | rfl | exact absurd rfl h

theorem ne_other_iff {x y : Slot} : x ≠ y.other ↔ y = x := by
  cases x <;> cases y <;> decide

@[simp] theorem name_inj {x y : Slot} : x.name = y.name ↔ x = y := by
  cases x <;> cases y <;> simp [name]

@[simp] theorem ofName_name (x : Slot) : ofName x.name = some x := by cases x <;> rfl

theorem ofName_eq_some {s : String} {x : Slot} (h : ofName s = some x) : s = x.name := by
  unfold ofName at h
  split_ifs at h with ha hb
  · cases h; exact ha
  · cases h; exact hb

/-- The variable that describes the firmware in one slot, `a.nerves_fw_version`. -/
def var (x : Slot) (v : String) : String := x.name ++ "." ++ v

def image (x : Slot) : String := "Image." ++ x.name

def dtb (x : Slot) : String := "rk3576-smt1019." ++ x.name ++ ".dtb"

/-- The block device of the slot's rootfs partition. -/
def device : Slot → String
  | a => "/dev/mmcblk0p2"
  | b => "/dev/mmcblk0p3"

/-- The slot that a variable describes, if any. -/
def owner (n : String) : Option Slot :=
  match n.toList with
  | 'a' :: '.' :: _ => some a
  | 'b' :: '.' :: _ => some b
  | _ => none

@[simp] theorem owner_active : owner "nerves_fw_active" = none := by decide

@[simp] theorem owner_validated : owner "nerves_fw_validated" = none := by decide

@[simp] theorem owner_booted : owner "nerves_fw_booted" = none := by decide

@[simp] theorem owner_var (x : Slot) (v : String) : owner (x.var v) = some x := by
  cases x <;> simp [owner, var, name]

/-- A variable of one slot differs from every name that is not the slot's own. -/
theorem var_ne_of_owner {x : Slot} {v n : String} (h : owner n ≠ some x) : x.var v ≠ n := by
  rintro rfl
  exact h (owner_var x v)

@[simp] theorem var_ne_active (x : Slot) (v : String) : x.var v ≠ "nerves_fw_active" :=
  var_ne_of_owner (by simp)

@[simp] theorem var_ne_validated (x : Slot) (v : String) : x.var v ≠ "nerves_fw_validated" :=
  var_ne_of_owner (by simp)

@[simp] theorem var_ne_booted (x : Slot) (v : String) : x.var v ≠ "nerves_fw_booted" :=
  var_ne_of_owner (by simp)

@[simp] theorem active_ne_var (x : Slot) (v : String) : "nerves_fw_active" ≠ x.var v :=
  (var_ne_active x v).symm

@[simp] theorem validated_ne_var (x : Slot) (v : String) : "nerves_fw_validated" ≠ x.var v :=
  (var_ne_validated x v).symm

@[simp] theorem booted_ne_var (x : Slot) (v : String) : "nerves_fw_booted" ≠ x.var v :=
  (var_ne_booted x v).symm

theorem var_not_mem {x : Slot} {v : String} {names : List String}
    (h : ∀ n ∈ names, owner n = none) : x.var v ∉ names := fun hm => by
  simpa using h _ hm

@[simp] theorem var_inj {x y : Slot} {v w : String} : x.var v = y.var w ↔ x = y ∧ v = w := by
  constructor
  · intro h
    have hxy : x = y := by
      simpa only [owner_var, Option.some.injEq] using congrArg owner h
    subst hxy
    refine ⟨rfl, ?_⟩
    cases x <;> simpa [var, name] using h
  · rintro ⟨rfl, rfl⟩
    rfl

@[simp] theorem image_inj {x y : Slot} : x.image = y.image ↔ x = y := by
  cases x <;> cases y <;> simp [image, name]

@[simp] theorem dtb_inj {x y : Slot} : x.dtb = y.dtb ↔ x = y := by
  cases x <;> cases y <;> simp [dtb, name]

@[simp] theorem image_ne_dtb (x y : Slot) : x.image ≠ y.dtb := by
  cases x <;> cases y <;> decide

@[simp] theorem dtb_ne_image (x y : Slot) : x.dtb ≠ y.image := (image_ne_dtb y x).symm

end Slot

end NervesSystem
