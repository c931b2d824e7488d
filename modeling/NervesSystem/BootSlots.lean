import NervesSystem.Boot
import Mathlib.Data.List.TakeWhile

namespace NervesSystem
open Words

def rootValue (w : String) : Option String :=
  if "root=".toList.isPrefixOf w.toList then some (String.ofList (w.toList.drop 5)) else none

/-- The last `root=` counts, and nothing does behind `--`. -/
def lastRoot (ws : List String) : Option String :=
  ((ws.takeWhile (· ≠ "--")).filterMap rootValue).getLast?

/-- The root device that the kernel takes from its command line. What it makes of quotes is left
open. -/
structure Cmdline where
  root : String → Option String
  root_plain : ∀ args, Plain args → root args = lastRoot (wordsOf args)

section CommandLine

theorem toList_mem_wordsOf {text w : String} (hw : w ∈ wordsOf text) :
    w.toList ∈ words ' ' text.toList := by
  obtain ⟨cs, hcs, rfl⟩ := List.mem_map.mp hw
  simpa using hcs

theorem wordsOf_append (s t : String) : wordsOf (s ++ " " ++ t) = wordsOf s ++ wordsOf t := by
  have h : (s ++ " " ++ t).toList = s.toList ++ ' ' :: t.toList := by simp
  rw [wordsOf, h, words_append, List.map_append, wordsOf, wordsOf]

theorem wordsOf_word {w : String} (hw : ' ' ∉ w.toList) (hne : w ≠ "") : wordsOf w = [w] := by
  rw [wordsOf, words_word hw (by simpa using hne)]
  simp

/-- Words that are joined stay the same words. -/
theorem wordsOf_joinWords (text : String) : wordsOf (joinWords (wordsOf text)) = wordsOf text := by
  have h : (wordsOf text).map String.toList = words ' ' text.toList := by
    simp [wordsOf]
  have hj : words ' ' (join ' ' (words ' ' text.toList)) = words ' ' text.toList :=
    words_join fun _ hw => mem_words hw
  rw [wordsOf, joinWords, h, String.toList_ofList, hj, wordsOf]

theorem plain_joinWords {text : String} (h : Plain text) : Plain (joinWords (wordsOf text)) := by
  intro c hc
  rw [joinWords, String.toList_ofList] at hc
  rcases mem_join hc with rfl | ⟨w, hw, hcw⟩
  · exact .inr (by decide)
  · obtain ⟨v, hv, rfl⟩ := List.mem_map.mp hw
    exact h c (mem_of_mem_words (toList_mem_wordsOf hv) hcw)

theorem plain_append {s t : String} (hs : Plain s) (ht : Plain t) : Plain (s ++ t) := by
  intro c hc
  rw [String.toList_append, List.mem_append] at hc
  exact hc.elim (hs c) (ht c)

theorem Word.plain {s : String} (h : Word s) : Plain s := fun c hc => .inl (h.2 c hc)

/-- What comes later wins. -/
theorem lastRoot_append {ws vs : List String} (h : "--" ∉ ws) :
    lastRoot (ws ++ vs) = (lastRoot vs).or (lastRoot ws) := by
  have hws : ws.takeWhile (· ≠ "--") = ws :=
    List.takeWhile_eq_self_iff.mpr fun w hw => by
      simpa using fun he : w = "--" => h (he ▸ hw)
  have happ : (ws ++ vs).takeWhile (· ≠ "--") = ws ++ vs.takeWhile (· ≠ "--") :=
    List.takeWhile_append_of_pos fun w hw => by
      simpa using fun he : w = "--" => h (he ▸ hw)
  rw [lastRoot, happ, List.filterMap_append, List.getLast?_append, lastRoot, lastRoot, hws]

end CommandLine

section Load
variable {hush : Hush} {u v : UBoot} {fat : String → Option File} {n : String} {x : Slot}
  {k : Kernel}

end Load

section Boot
variable {hush : Hush} {env : Env} {memory fat : String → Option File} {x y : Slot} {k : Kernel}

/-- The command line that `nerves_setargs` makes for slot `x`. -/
def commandLine (hush : Hush) (env : Env) (x : Slot) : String :=
  joinWords (hush.words ("console=" ++ (env "console").getD "" ++ " console=tty1 root=" ++
    x.device ++ " rootfstype=squashfs rootwait " ++ (env "cmdline").getD ""))

/-- The root device of the command line is the one that `nerves_setargs` puts in, and not one that
the saved `console` or `cmdline` brings along. -/
def KeepsRoot (c : Cmdline) (hush : Hush) (env : Env) (x : Slot) : Prop :=
  c.root (commandLine hush env x) = some x.device

/-- A `root=` of the saved `cmdline` stands behind the one of `nerves_setargs`, and wins. -/
theorem keepsRoot_iff {c : Cmdline} (hcon : Word ((env "console").getD ""))
    (hcmd : Plain ((env "cmdline").getD "")) :
    KeepsRoot c hush env x ↔
      ∀ d, lastRoot (wordsOf ((env "cmdline").getD "")) = some d → d = x.device := by
  generalize hcon' : (env "console").getD "" = con at hcon
  generalize hcmd' : (env "cmdline").getD "" = cmd at hcmd ⊢
  let own := ["console=" ++ con, "console=tty1", "root=" ++ x.device, "rootfstype=squashfs",
    "rootwait"]
  let text := "console=" ++ con ++ " console=tty1 root=" ++ x.device ++
    " rootfstype=squashfs rootwait " ++ cmd
  have hdev : ' ' ∉ x.device.toList ∧ Plain x.device := by cases x <;> decide
  have hblank : ' ' ∉ con.toList := fun h => absurd (hcon.2 ' ' h) (by decide)
  have htext : Plain text := by
    refine plain_append (plain_append (plain_append (plain_append (plain_append ?_ hcon.plain) ?_)
      hdev.2) ?_) hcmd <;> decide
  have hwords : wordsOf text = own ++ wordsOf cmd := by
    have ht : text = "console=" ++ con ++ " " ++ "console=tty1" ++ " " ++ ("root=" ++ x.device) ++
        " " ++ "rootfstype=squashfs" ++ " " ++ "rootwait" ++ " " ++ cmd := by
      simp only [text, String.append_assoc]
      rfl
    rw [ht, wordsOf_append, wordsOf_append, wordsOf_append, wordsOf_append, wordsOf_append,
      wordsOf_word (w := "console=" ++ con) (by simp [hblank]) (by simp),
      wordsOf_word (by decide) (by decide),
      wordsOf_word (w := "root=" ++ x.device) (by simp [hdev.1]) (by simp),
      wordsOf_word (by decide) (by decide), wordsOf_word (by decide) (by decide)]
    rfl
  have hne : "console=" ++ con ≠ "--" := fun h => by simpa using congrArg String.toList h
  have hown : "--" ∉ own ∧ lastRoot own = some x.device := by
    cases x <;> simp [own, lastRoot, List.takeWhile, hne, hne.symm, rootValue, Slot.device]
  have hargs : commandLine hush env x = joinWords (own ++ wordsOf cmd) := by
    rw [commandLine, hcon', hcmd', hush.words_plain _ htext, hwords]
  rw [KeepsRoot, hargs, ← hwords, c.root_plain _ (plain_joinWords htext), wordsOf_joinWords, hwords,
    lastRoot_append hown.1, hown.2]
  cases lastRoot (wordsOf cmd) <;> simp

section Sample

end Sample

end Boot

end NervesSystem
