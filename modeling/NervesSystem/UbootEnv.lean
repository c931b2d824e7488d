import NervesSystem.Media
import NervesSystem.Library.Words

namespace NervesSystem
open Words

/-- A word that U-Boot's shell takes as it is. -/
def Word (s : String) : Prop := s ≠ "" ∧ ∀ c ∈ s.toList, c.isAlphanum

instance (s : String) : Decidable (Word s) :=
  decidable_of_iff (s ≠ "" ∧ s.toList.all Char.isAlphanum = true) (by simp [Word])

/-- A text in which nothing but blanks has a meaning of its own. -/
def Plain (s : String) : Prop := ∀ c ∈ s.toList, c.isAlphanum ∨ c ∈ "/=.,:_-@%+ ".toList

instance (s : String) : Decidable (Plain s) :=
  decidable_of_iff (s.toList.all fun c => c.isAlphanum || "/=.,:_-@%+ ".toList.contains c)
    (by simp [Plain])

def wordsOf (text : String) : List String := (words ' ' text.toList).map String.ofList

def joinWords (ws : List String) : String := String.ofList (join ' ' (ws.map String.toList))

/-- What `test ${v} = w` answers, given the value of `v`, and the words that the shell makes of a
text once its variables are replaced. The scripts rely on words being compared as strings, and on
blanks standing between words. What `test` makes of an unset variable or of a value with blanks is
left open, and so is what becomes of a text with other characters. -/
structure Hush where
  test : Option String → String → Bool
  test_word : ∀ v w, Word v → test (some v) w = (v == w)
  words : String → List String
  words_plain : ∀ text, Plain text → words text = wordsOf text

/-- The answers on words, and no for everything else. -/
def plainHush : Hush where
  test v w := v == some w
  test_word _ _ _ := rfl
  words := wordsOf
  words_plain _ _ := rfl

/-- The import of an environment block deletes what stands there without a value. -/
def envImport (saved : Env) : Env := fun v => if saved v = some "" then none else saved v

/-- U-Boot at work: its environment, the environment block of the disk, and what
`load` has put at each address. -/
structure UBoot where
  env : Env
  saved : Env
  memory : String → Option File

structure Kernel where
  image : File
  fdt : File
  bootargs : String

namespace UBoot
variable (u : UBoot)

/-- U-Boot reads the environment block when it comes up. -/
def powerOn (saved : Env) (memory : String → Option File) : UBoot :=
  ⟨envImport saved, saved, memory⟩

/-- `${v}`, empty for an unset variable. -/
def value (v : String) : String := (u.env v).getD ""

def setenv (name value : String) : UBoot :=
  { u with env := Function.update u.env name (some value) }

def envDelete (name : String) : UBoot := { u with env := Function.update u.env name none }

def saveenv : UBoot := { u with saved := u.env }

def load (fat : String → Option File) (addr path : String) : UBoot :=
  match fat path with
  | some f => { u with memory := Function.update u.memory addr (some f) }
  | none => u

def booti (kernel fdt : String) : Option Kernel :=
  match u.memory kernel, u.memory fdt with
  | some k, some d => some ⟨k, d, u.value "bootargs"⟩
  | _, _ => none

end UBoot

/-- The variables of uboot.env but for its scripts. -/
def ubootEnv : List (String × String) :=
  [("stdin", "serial"),
   ("stdout", "serial,vidconsole"),
   ("stderr", "serial,vidconsole"),
   ("scriptaddr", "0x40500000"),
   ("pxefile_addr_r", "0x40600000"),
   ("fdt_addr_r", "0x48300000"),
   ("kernel_addr_r", "0x40400000"),
   ("kernel_addr_c", "0x45480000"),
   ("ramdisk_addr_r", "0x4a200000"),
   ("nerves_fw_active", "a"),
   ("nerves_fw_autovalidate", "0"),
   ("nerves_fw_validated", "1"),
   ("nerves_fw_booted", "0"),
   ("console", "ttyFIQ0"),
   ("cmdline", "")]

section Scripts
variable (hush : Hush) (u : UBoot)

def nervesRevert : UBoot :=
  if hush.test (u.env "nerves_fw_active") "a" then u.setenv "nerves_fw_active" "b"
  else u.setenv "nerves_fw_active" "a"

/-- The first half of `nerves_init`: which slot is active, and what is saved. -/
def nervesSelect : UBoot :=
  let u := (u.envDelete "upgrade_available").envDelete "bootcount"
  if hush.test (u.env "nerves_fw_booted") "1" then
    -- Started before: revert unless it was validated in the meantime.
    if hush.test (u.env "nerves_fw_validated") "0" then
      ((nervesRevert hush u).setenv "nerves_fw_validated" "1").saveenv
    else u
  else
    -- The first start since the installation.
    let u := u.setenv "nerves_fw_booted" "1"
    let u := if hush.test (u.env "nerves_fw_autovalidate") "1" then
      u.setenv "nerves_fw_validated" "1" else u
    u.saveenv

/-- The second half: the names that `nerves_boot` goes by. They are not saved. -/
def nervesNames : UBoot :=
  let u := u.setenv "bootfile" ("Image." ++ u.value "nerves_fw_active")
  let u := u.setenv "fdtfile" ("rk3576-smt1019." ++ u.value "nerves_fw_active" ++ ".dtb")
  if hush.test (u.env "nerves_fw_active") "a" then u.setenv "uenv_root" "/dev/mmcblk0p2"
  else u.setenv "uenv_root" "/dev/mmcblk0p3"

def nervesInit : UBoot := nervesNames hush (nervesSelect hush u)

def nervesSetargs : UBoot :=
  u.setenv "bootargs" (joinWords (hush.words ("console=" ++ u.value "console" ++
    " console=tty1 root=" ++ u.value "uenv_root" ++ " rootfstype=squashfs rootwait " ++
    u.value "cmdline")))

def nervesBoot (fat : String → Option File) : UBoot × Option Kernel :=
  let u := u.load fat (u.value "kernel_addr_r") (u.value "bootfile")
  let u := u.load fat (u.value "fdt_addr_r") (u.value "fdtfile")
  let u := nervesSetargs hush u
  (u, u.booti (u.value "kernel_addr_r") (u.value "fdt_addr_r"))

def bootcmd (fat : String → Option File) : UBoot × Option Kernel :=
  nervesBoot hush (nervesInit hush u) fat

end Scripts

section Lemmas
variable {hush : Hush} (u : UBoot)

@[simp] theorem load_env (fat : String → Option File) (addr path : String) :
    (u.load fat addr path).env = u.env := by
  unfold UBoot.load
  split <;> rfl

@[simp] theorem load_saved (fat : String → Option File) (addr path : String) :
    (u.load fat addr path).saved = u.saved := by
  unfold UBoot.load
  split <;> rfl

/-- `nerves_boot` saves nothing. -/
@[simp] theorem bootcmd_saved (fat : String → Option File) :
    (bootcmd hush u fat).1.saved = (nervesSelect hush u).saved := by
  have hn : (nervesNames hush (nervesSelect hush u)).saved = (nervesSelect hush u).saved := by
    unfold nervesNames
    dsimp only
    split <;> rfl
  simp [bootcmd, nervesBoot, nervesSetargs, UBoot.setenv, nervesInit, hn]

theorem test_slot (hush : Hush) (x : Slot) :
    hush.test (some x.name) "a" = decide (x = .a) := by
  rw [hush.test_word _ _ (by cases x <;> decide)]
  cases x <;> decide

/-- The root device that the kernel is given, when the active slot is a slot. -/
theorem bootcmd_root (fat : String → Option File) {x : Slot}
    (h : (nervesSelect hush u).env "nerves_fw_active" = some x.name) :
    (bootcmd hush u fat).1.env "uenv_root" = some x.device := by
  have hn : (nervesNames hush (nervesSelect hush u)).env "uenv_root" = some x.device := by
    cases x <;> simp [nervesNames, UBoot.setenv, h, test_slot, Slot.device]
  simpa [bootcmd, nervesBoot, nervesSetargs, UBoot.setenv, nervesInit] using hn

end Lemmas

end NervesSystem
