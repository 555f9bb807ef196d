/-
**The download script is read back word by word.**

Quoting is the inverse of reading: whatever stands in a word, its quoted text is read as this one
word, because a word without quotes holds only characters that stand for themselves and nothing
between apostrophes has a meaning but the apostrophe, which is written between quotation marks.
A program that is written command by command is therefore read back as it is, and so is the script
of a download: the version and the directory are parts of two of its words and can never become
anything else.

Main definitions:

* `Provision.Shell.Spells` — a text is read as tokens, the last of which is a word;
* `Provision.Shell.Program.Sound` — the programs that can be written;
* `Provision.Toolchain.downloadProgram` — the program that downloads a version.

Main results:

* `Provision.Shell.spells_quoteWord` — **a quoted word is read as the word**;
* `Provision.Shell.Spells.intercalate` — texts with separators between them;
* `Provision.Shell.read_text` — **what is written is read back**;
* `Provision.Toolchain.read_downloadScript` — the script of a download;
* `Provision.Toolchain.install_launches_program` — **what installing a version hands to the shell
  is read as the download of this version into the directory that was made for it**.
-/

import Provision.Proofs.DryRun
import Provision.Proofs.Effects
import Provision.Proofs.Refusals
import Provision.Shell.Reader

set_option relaxedAutoImplicit false
set_option autoImplicit false

namespace Provision

namespace Shell

/-! ### Characters outside quotes -/

/-- A character that needs no quotes stands for itself. -/
theorem standsForItself_of_isPlainChar {c : Char} (h : isPlainChar c = true) :
    standsForItself c = true := by
  have hrange : 0x20 < c.toNat ∧ c.toNat < 0x7f := by
    delta isPlainChar Char.isAlphanum Char.isAlpha Char.isUpper Char.isLower Char.isDigit at h
    simp only [Bool.or_eq_true, Bool.and_eq_true, decide_eq_true_eq, UInt32.le_iff_toNat_le,
      ge_iff_le] at h
    change (((65 ≤ c.toNat ∧ c.toNat ≤ 90) ∨ (97 ≤ c.toNat ∧ c.toNat ≤ 122)) ∨
      (48 ≤ c.toNat ∧ c.toNat ≤ 57)) ∨ c ∈ _ at h
    rcases h with h | h
    · omega
    · exact of_decide_eq_true (List.all_eq_true (p := fun c : Char =>
        decide (0x20 < c.toNat ∧ c.toNat < 0x7f)).1 (by decide) c h)
  have hspecial : c ∉ specialSigns := by
    intro hc
    have hplain : specialSigns.all (fun d => !isPlainChar d) = true := by decide
    have hc' := List.all_eq_true.1 hplain c hc
    simp [h] at hc'
  simp [standsForItself, hrange, hspecial]

/-- A character that stands for itself is added to the word. -/
theorem Scan.step_of_standsForItself {c : Char} (h : standsForItself c = true)
    (ts : List Token) (pending : Option (List Char)) :
    step ⟨ts, .outside pending⟩ c = some ⟨ts, .outside (some (pending.getD [] ++ [c]))⟩ := by
  obtain ⟨⟨hlow, -⟩, hspecial⟩ :
      (0x20 < c.toNat ∧ c.toNat < 0x7f) ∧ c ∉ specialSigns := by
    simpa [standsForItself] using h
  have hnull : c ≠ '\x00' := by rintro rfl; simp at hlow
  have hblank : isBlank c = false := by
    simp only [isBlank, decide_eq_false_iff_not, not_or]
    constructor <;> rintro rfl <;> simp at hlow
  have hne : ∀ d ∈ specialSigns, c ≠ d := fun d hd hcd => hspecial (hcd ▸ hd)
  simp [step, stepOutside, hnull, hblank, h, hne ';' (by decide), hne '|' (by decide),
    hne apostrophe (by decide), hne quotationMark (by decide), hne '\\' (by decide)]

/-- Characters that stand for themselves make one word. -/
theorem Scan.run_of_standsForItself {w : List Char} (h : ∀ c ∈ w, standsForItself c = true)
    (ts : List Token) (before : List Char) :
    w.foldlM step ⟨ts, .outside (some before)⟩ = some ⟨ts, .outside (some (before ++ w))⟩ := by
  induction w generalizing before with
  | nil => simp
  | cons c w ih =>
      rw [List.foldlM_cons, step_of_standsForItself (h c (by simp))]
      simpa using ih (fun d hd => h d (by simp [hd])) (before ++ [c])

/-! ### Between apostrophes -/

/-- A character as it is written between apostrophes is read as itself. -/
theorem Scan.run_quoteChar {c : Char} (h : c ≠ '\x00') (ts : List Token) (before : List Char) :
    (quoteChar c).foldlM step ⟨ts, .single before⟩ = some ⟨ts, .single (before ++ [c])⟩ := by
  by_cases hc : c = apostrophe
  · subst hc
    simp [quoteChar, step, stepOutside, isBlank, apostrophe, quotationMark, isProtectable]
  · simp [quoteChar, step, hc, h]

/-- A word as it is written between apostrophes is read as itself. -/
theorem Scan.run_quoteChars {w : List Char} (h : '\x00' ∉ w) (ts : List Token)
    (before : List Char) :
    (w.flatMap quoteChar).foldlM step ⟨ts, .single before⟩ =
      some ⟨ts, .single (before ++ w)⟩ := by
  induction w generalizing before with
  | nil => simp
  | cons c w ih =>
      obtain ⟨hc, hw⟩ : '\x00' ≠ c ∧ '\x00' ∉ w := by simpa using h
      rw [List.flatMap_cons, List.foldlM_append, run_quoteChar hc.symm]
      simpa using ih hw (before ++ [c])

/-! ### Texts that spell tokens -/

/-- **A text is read as tokens**, the last of which is a word that may still go on. -/
def Spells (text : List Char) (ts : List Token) : Prop :=
  ∃ init w, ts = init ++ [.word w] ∧ ∀ done,
    text.foldlM Scan.step ⟨done, .outside none⟩ = some ⟨done ++ init, .outside (some w)⟩

/-- **A quoted word is read as the word**, whatever it holds. -/
theorem spells_quoteWord {w : List Char} (h : '\x00' ∉ w) : Spells (quoteWord w) [.word w] := by
  refine ⟨[], w, rfl, fun done => ?_⟩
  unfold quoteWord
  split
  · next hplain =>
    obtain ⟨hne, hall⟩ := hplain
    obtain ⟨c, rest, rfl⟩ := List.exists_cons_of_ne_nil hne
    have hself : ∀ d ∈ c :: rest, standsForItself d = true := fun d hd =>
      standsForItself_of_isPlainChar (List.all_eq_true.1 hall d hd)
    rw [List.foldlM_cons, Scan.step_of_standsForItself (hself c (by simp))]
    simpa using Scan.run_of_standsForItself (fun d hd => hself d (by simp [hd])) done [c]
  · have hopen : Scan.step ⟨done, .outside none⟩ apostrophe = some ⟨done, .single []⟩ := by
      simp [Scan.step, Scan.stepOutside, isBlank, apostrophe]
    have hclose : Scan.step ⟨done, .single w⟩ apostrophe = some ⟨done, .outside (some w)⟩ := by
      simp [Scan.step, apostrophe]
    rw [List.foldlM_cons, hopen, Option.bind_eq_bind, Option.bind_some, List.foldlM_append,
      Scan.run_quoteChars h]
    simpa using hclose

/-- A text that separates what is written: it ends the word before it and is read as tokens. -/
def Separates (text : List Char) (ts : List Token) : Prop :=
  ∀ done w, text.foldlM Scan.step ⟨done, .outside (some w)⟩ =
    some ⟨done ++ [.word w] ++ ts, .outside none⟩

theorem separates_blank : Separates [' '] [] := fun done w => by
  simp [Scan.step, Scan.stepOutside, isBlank, Scan.ended]

theorem separates_pipe : Separates [' ', '|', ' '] [.pipe] := fun done w => by
  simp [Scan.step, Scan.stepOutside, isBlank, Scan.ended]

theorem separates_semicolon : Separates [';', ' '] [.semicolon] := fun done w => by
  simp [Scan.step, Scan.stepOutside, isBlank, Scan.ended]

variable {text text' separator : List Char} {ts ts' between : List Token}

/-- Two texts with a separator between them. -/
theorem Spells.append (h : Spells text ts) (hsep : Separates separator between)
    (h' : Spells text' ts') : Spells (text ++ separator ++ text') (ts ++ between ++ ts') := by
  obtain ⟨init, w, rfl, hread⟩ := h
  obtain ⟨init', w', rfl, hread'⟩ := h'
  refine ⟨init ++ [.word w] ++ between ++ init', w', by simp, fun done => ?_⟩
  rw [List.foldlM_append, List.foldlM_append, hread, Option.bind_eq_bind, Option.bind_some, hsep,
    Option.bind_some, hread']
  simp

/-- **Texts with separators between them.** -/
theorem Spells.intercalate {α : Type} {f : α → List Char} {g : α → List Token}
    (hsep : Separates separator between) {l : List α} (hne : l ≠ [])
    (h : ∀ a ∈ l, Spells (f a) (g a)) :
    Spells (separator.intercalate (l.map f)) (between.intercalate (l.map g)) := by
  induction l with
  | nil => exact absurd rfl hne
  | cons a l ih =>
      cases l with
      | nil => simpa [List.intercalate] using h a (by simp)
      | cons b l =>
          simp only [List.map_cons, List.intercalate_cons_cons]
          exact (h a (by simp)).append hsep (ih (by simp) fun c hc => h c (by simp [hc]))

/-- The tokens of a text that spells them. -/
theorem Spells.tokens_eq (h : Spells text ts) : tokens text = some ts := by
  obtain ⟨init, w, rfl, hread⟩ := h
  have hstart : text.foldlM Scan.step {} = some ⟨init, .outside (some w)⟩ := by
    simpa using hread []
  rw [tokens, hstart]
  rfl

/-! ### Programs -/

/-- A command that can be written: its first word names a command, and there is no NUL in it. -/
def SoundCommand (command : List String) : Prop :=
  command.head?.any namesCommand = true ∧ ∀ w ∈ command, '\x00' ∉ w.toList

instance (command : List String) : Decidable (SoundCommand command) :=
  inferInstanceAs (Decidable (_ ∧ _))

theorem SoundCommand.exists_name {command : List String} (h : SoundCommand command) :
    ∃ name arguments, command = name :: arguments ∧ namesCommand name = true := by
  obtain ⟨hname, -⟩ := h
  cases command with
  | nil => simp at hname
  | cons name arguments => exact ⟨name, arguments, rfl, by simpa using hname⟩

/-- A command may be given one more word. -/
theorem SoundCommand.concat {command : List String} (h : SoundCommand command) {w : String}
    (hw : '\x00' ∉ w.toList) : SoundCommand (command ++ [w]) := by
  obtain ⟨name, arguments, rfl, hname⟩ := h.exists_name
  refine ⟨by simpa using hname, fun v hv => ?_⟩
  rcases List.mem_append.1 hv with hv | hv
  · exact h.2 v hv
  · rwa [List.mem_singleton.1 hv]

/-- **A program that can be written**: no part of it is empty, and its commands can be written. -/
def Program.Sound (p : Program) : Prop :=
  p ≠ [] ∧ ∀ pipeline ∈ p, pipeline ≠ [] ∧ ∀ command ∈ pipeline, SoundCommand command

/-- The tokens of a command. -/
def commandTokens (command : List String) : List Token :=
  command.map fun w => .word w.toList

/-- The tokens of a pipeline. -/
def Pipeline.tokens (p : Pipeline) : List Token := [.pipe].intercalate (p.map commandTokens)

/-- The tokens of a program. -/
def Program.tokens (p : Program) : List Token := [.semicolon].intercalate (p.map Pipeline.tokens)

theorem flatten_of_intercalate {α : Type} (l : List (List α)) :
    ([] : List α).intercalate l = l.flatten := by
  induction l with
  | nil => rfl
  | cons a l ih =>
      cases l with
      | nil => simp [List.intercalate]
      | cons b l =>
          rw [List.intercalate_cons_cons, ih]
          simp

theorem spells_commandText {command : List String} (h : SoundCommand command) :
    Spells (commandText command) (commandTokens command) := by
  have hne : command ≠ [] := by
    obtain ⟨name, arguments, rfl, -⟩ := h.exists_name
    simp
  have hwords := Spells.intercalate (f := fun w : String => quoteWord w.toList)
    (g := fun w : String => [.word w.toList]) separates_blank hne
    fun w hw => spells_quoteWord (h.2 w hw)
  rw [flatten_of_intercalate, ← List.flatMap_def, ← List.map_eq_flatMap] at hwords
  simpa [commandText, commandTokens, joinWords, Function.comp_def] using hwords

theorem Program.spells_text {p : Program} (h : p.Sound) : Spells p.text.toList p.tokens := by
  have hpipeline : ∀ pipeline ∈ p, Spells pipeline.text pipeline.tokens := fun pipeline hp =>
    Spells.intercalate separates_pipe (h.2 pipeline hp).1 fun command hc =>
      spells_commandText ((h.2 pipeline hp).2 command hc)
  rw [Program.text, String.toList_ofList]
  exact Spells.intercalate separates_semicolon h.1 hpipeline

/-- The tokens of a command make the command. -/
theorem command?_commandTokens {command : List String} (h : SoundCommand command) :
    command? (commandTokens command) = some command := by
  obtain ⟨name, arguments, rfl, hname⟩ := h.exists_name
  have hwords : (commandTokens (name :: arguments)).mapM Token.word? =
      some (name :: arguments) := by
    rw [commandTokens, List.mapM_map]
    have hword : (Token.word? ∘ fun w : String => Token.word w.toList) = fun w => pure w := by
      funext w
      simp [Token.word?]
    rw [hword, List.mapM_pure, List.map_id']
    rfl
  rw [command?, hwords]
  simp [hname]

/-- A list of lists is put together again from the pieces between the separators. -/
theorem mapM_splitOn_intercalate {α β : Type} [BEq α] [LawfulBEq α] {separator : α}
    {write : β → List α} {make : List α → Option β} {l : List β} (hne : l ≠ [])
    (hapart : ∀ b ∈ l, separator ∉ write b) (hmake : ∀ b ∈ l, make (write b) = some b) :
    (([separator].intercalate (l.map write)).splitOn separator).mapM make = some l := by
  have hpieces : ([separator].intercalate (l.map write)).splitOn separator = l.map write := by
    refine List.splitOn_intercalate separator (fun piece hpiece => ?_) (by simpa using hne)
    obtain ⟨b, hb, rfl⟩ := List.mem_map.1 hpiece
    exact hapart b hb
  rw [hpieces, List.mapM_map]
  clear hpieces hapart hne
  induction l with
  | nil => rfl
  | cons b l ih =>
      have htail := ih fun c hc => hmake c (by simp [hc])
      simp [List.mapM_cons, hmake b (by simp), htail]

theorem mem_of_mem_intercalate {α : Type} {a : α} {separator : List α} {l : List (List α)}
    (h : a ∈ separator.intercalate l) : a ∈ separator ∨ ∃ w ∈ l, a ∈ w := by
  induction l with
  | nil => simp [List.intercalate] at h
  | cons w l ih =>
      cases l with
      | nil => exact Or.inr ⟨w, by simp, by simpa [List.intercalate] using h⟩
      | cons v l =>
          rw [List.intercalate_cons_cons, List.mem_append, List.mem_append] at h
          rcases h with (h | h) | h
          · exact Or.inr ⟨w, by simp, h⟩
          · exact Or.inl h
          · exact (ih h).imp_right fun ⟨u, hu, ha⟩ => ⟨u, by simp [hu], ha⟩

theorem semicolon_not_mem_tokens (p : Pipeline) : .semicolon ∉ p.tokens := by
  intro h
  rcases mem_of_mem_intercalate h with h | ⟨ts, hts, h⟩
  · simp at h
  · obtain ⟨command, -, rfl⟩ := List.mem_map.1 hts
    simp [commandTokens] at h

/-- The tokens of a program make the program. -/
theorem Program.parse_tokens {p : Program} (h : p.Sound) : parse p.tokens = some p :=
  mapM_splitOn_intercalate h.1 (fun pipeline _ => semicolon_not_mem_tokens pipeline)
    fun pipeline hp => mapM_splitOn_intercalate (h.2 pipeline hp).1
      (fun command _ => by simp [commandTokens])
      fun command hc => command?_commandTokens ((h.2 pipeline hp).2 command hc)

/-- A word at the end of a command. -/
theorem commandText_concat {command : List String} (hne : command ≠ []) (w : String) :
    commandText (command ++ [w]) = commandText command ++ [' '] ++ quoteWord w.toList := by
  induction command with
  | nil => exact absurd rfl hne
  | cons v command ih =>
      cases command with
      | nil => simp [commandText, joinWords_cons_cons]
      | cons u command =>
          have htail := ih (by simp)
          simp only [commandText, List.map_cons, List.cons_append, joinWords_cons_cons] at htail ⊢
          rw [htail]
          simp

/-- **What is written is read back.** -/
theorem read_text {p : Program} (h : p.Sound) : read p.text = some p := by
  rw [read, (Program.spells_text h).tokens_eq, Option.bind_some, Program.parse_tokens h]

/-- Words may be quoted in other ways, too. -/
example : read "a 'b c'\"'\"d\\;;e|f" = some [[["a", "b c'd;"]], [["e"], ["f"]]] := by decide

/-- What the shell would expand is refused. -/
example : read "a \"$b\"" = none := by decide

end Shell

/-! ### The download -/

namespace Toolchain

open Step

/-- **The program that downloads a version** and unpacks it into a directory. -/
def downloadProgram (version : String) (staging : Path) : Shell.Program :=
  [[["set", "-o", "pipefail"]],
    [["curl", "-SLf", archiveUrl version],
      ["tar", "-xz", "--strip", "1", "-C", staging.toString]]]

variable {version : String} {directory : Path}

/-- The script of a download is the text of the program. -/
theorem downloadScript_eq_text (version : String) (staging : Path) :
    downloadScript version staging = (downloadProgram version staging).text := by
  have hset : Shell.commandText ["set", "-o", "pipefail"] = "set -o pipefail".toList := by decide
  have hcurl : Shell.commandText ["curl", "-SLf", archiveUrl version] =
      "curl -SLf".toList ++ [' '] ++ Shell.quoteWord (archiveUrl version).toList :=
    Shell.commandText_concat (show ["curl", "-SLf"] ≠ [] by simp) _
  have htar : Shell.commandText ["tar", "-xz", "--strip", "1", "-C", staging.toString] =
      "tar -xz --strip 1 -C".toList ++ [' '] ++ Shell.quoteWord staging.toString.toList :=
    Shell.commandText_concat (show ["tar", "-xz", "--strip", "1", "-C"] ≠ [] by simp) _
  -- for texts of any kind, as nothing is gained from looking into these ones
  have hparts : ∀ (a b c : String) (q r : List Char),
      String.ofList (a.toList ++ [';', ' '] ++ (b.toList ++ [' '] ++ q ++ [' ', '|', ' '] ++
        (c.toList ++ [' '] ++ r))) =
      a ++ "; " ++ b ++ " " ++ String.ofList q ++ (" | " ++ c ++ " ") ++ String.ofList r := by
    intro a b c q r
    simp [← String.toList_inj]
  simp only [Shell.Program.text, Shell.Pipeline.text, downloadProgram, List.map_cons, List.map_nil,
    List.intercalate_cons_cons, List.intercalate_singleton]
  rw [hset, hcurl, htar, hparts]
  rfl

theorem sound_downloadProgram (hversion : '\x00' ∉ version.toList)
    (hdirectory : '\x00' ∉ directory.toString.toList) : (downloadProgram version directory).Sound := by
  have hurl : '\x00' ∉ (archiveUrl version).toList := by
    rw [toList_archiveUrl, List.mem_append, List.mem_append]
    rintro ((h | h) | h)
    · exact absurd h (by decide)
    · exact hversion h
    · exact absurd h (by decide)
  have hset : Shell.SoundCommand ["set", "-o", "pipefail"] := by decide
  have hcurl : Shell.SoundCommand ["curl", "-SLf", archiveUrl version] :=
    (show Shell.SoundCommand ["curl", "-SLf"] by decide).concat hurl
  have htar : Shell.SoundCommand ["tar", "-xz", "--strip", "1", "-C", directory.toString] :=
    (show Shell.SoundCommand ["tar", "-xz", "--strip", "1", "-C"] by decide).concat hdirectory
  refine ⟨List.cons_ne_nil _ _, List.forall_mem_cons.2 ⟨?_, List.forall_mem_singleton.2 ?_⟩⟩
  · exact ⟨List.cons_ne_nil _ _, List.forall_mem_singleton.2 hset⟩
  · exact ⟨List.cons_ne_nil _ _, List.forall_mem_cons.2 ⟨hcurl, List.forall_mem_singleton.2 htar⟩⟩

/-- **The script of a download is read as the download.** -/
theorem read_downloadScript (hversion : '\x00' ∉ version.toList)
    (hdirectory : '\x00' ∉ directory.toString.toList) :
    Shell.read (downloadScript version directory) = some (downloadProgram version directory) := by
  rw [downloadScript_eq_text]
  exact Shell.read_text (sound_downloadProgram hversion hdirectory)

/-- A version holds no NUL character if there is nothing in the place of its distribution. -/
theorem null_not_mem_of_misses {layout : Layout} {m : Machine}
    (h : m.misses (layout.goDir version) = true) : '\x00' ∉ version.toList := by
  intro hversion
  have hname : (Path.ofString ("go-" ++ version)).HoldsNull := by
    rw [Path.holdsNull_ofString]
    simp [hversion]
  have hplace : '\x00' ∈ (layout.goDir version).toString.toList := by
    obtain ⟨w, hw, hnull⟩ := hname
    refine Path.null_mem_toString.2 ⟨w, ?_, hnull⟩
    rw [Layout.goDir, Path.child]
    unfold Path.join
    split
    · exact List.mem_append_right _ hw
    · exact hw
  have hstat : m.files.stat (layout.goDir version).toString = .error .embeddedNull := by
    simp [FileSystem.stat, FileSystem.entryAt, FileSystem.resolve, FileSystem.enter, hplace, bind,
      Except.bind]
  simp [Machine.misses, hstat] at h

/-- The text of a directory that was just made holds no NUL character. -/
theorem null_not_mem_of_staged {l : Launch} (h : l.Staged) :
    '\x00' ∉ l.command.directory.toString.toList := by
  obtain ⟨fs, text, hdirectory, hmake⟩ := h
  obtain ⟨here, name, hleads, -⟩ := FileSystem.makeDirectory_eq_ok hmake
  obtain ⟨start, names, henter, -⟩ := hleads.enter
  rw [Path.null_mem_toString, ← hdirectory, Path.holdsNull_ofString]
  exact (FileSystem.enter_eq_ok henter).1

/-- A dry installation launches nothing. -/
theorem not_dry_of_launched {layout : Layout} {runner : Runner} {m : Machine} {l : Launch}
    (hl : l ∈ (install version layout runner).launched m) : runner.dryRun = false := by
  by_cases hdry : runner.dryRun = true
  · obtain ⟨records, hm⟩ := quiet_install hdry version layout m
    have hsame : ((install version layout runner).perform m).2.launches = m.launches ++ [] := by
      rw [hm, List.append_nil]
    rw [launched_eq hsame] at hl
    simp at hl
  · simpa using hdry

/-- What installing a version launches is its download, into the directory that it is launched
in. -/
theorem command_of_install {layout : Layout} {runner : Runner} {m : Machine} {l : Launch}
    (hl : l ∈ (install version layout runner).launched m) :
    l.command.argv = ["/bin/bash", "-c", downloadScript version l.command.directory] ∧
      l.Staged ∧ m.misses (layout.goDir version) = true := by
  obtain ⟨wanted, hwanted, new, hnew⟩ := follows_install (not_dry_of_launched hl) version layout m
  rw [launched_eq hnew.continues.launches] at hl
  have hcommand : l.command ∈ wanted := hnew.commands.subset (List.mem_map_of_mem hl)
  split at hwanted
  · next hmisses =>
    obtain ⟨n, rfl⟩ := hwanted
    have hdownload : l.command = download version layout.root n := by simpa using hcommand
    refine ⟨by rw [hdownload]; rfl, hnew.staged l hl (by rw [hdownload]; rfl), hmisses⟩
  · rw [hwanted] at hcommand
    simp at hcommand

/-- The shell reads the script of a launch as the download. -/
theorem script_of_install {layout : Layout} {runner : Runner} {m : Machine} {l : Launch}
    (hl : l ∈ (install version layout runner).launched m) :
    ∃ script, l.command.argv = ["/bin/bash", "-c", script] ∧
      Shell.read script = some (downloadProgram version l.command.directory) := by
  obtain ⟨hargv, hstaged, hmisses⟩ := command_of_install hl
  exact ⟨_, hargv,
    read_downloadScript (null_not_mem_of_misses hmisses) (null_not_mem_of_staged hstaged)⟩

/-- **What installing a version hands to the shell is read as the download** of this version into
the directory that was made for it: no text that a version or a path can be adds a word, an operator
or an expansion. -/
theorem install_launches_program (version : String) (layout : Layout) (runner : Runner)
    (m : Machine) :
    (∀ staging : Path, '\x00' ∉ version.toList → '\x00' ∉ staging.toString.toList →
      Shell.read (downloadScript version staging) = some (downloadProgram version staging)) ∧
    ∀ l ∈ (install version layout runner).launched m, ∃ script,
      l.command.argv = ["/bin/bash", "-c", script] ∧
        Shell.read script = some (downloadProgram version l.command.directory) :=
  ⟨fun _ => read_downloadScript, fun _ => script_of_install⟩

namespace Sample

/-- A version that would do much in a script if it were not quoted. -/
def hostileVersion : String := "1.9'; rm -r $HOME | `x` > \"\x7bé\x7d\"\n&"

/-- A root that would. -/
def hostileWorkspace : Layout := ⟨Path.ofString "/home/it's a $(root)", "example.org"⟩

/-- A machine on which downloads do nothing. -/
def idle : Machine where
  files := ⟨⟨[(["home"], .directory)]⟩, []⟩

/-- The hostile version is installed below the hostile root. -/
def quoting : List Launch :=
  (install hostileVersion hostileWorkspace ⟨hostileWorkspace.root, false⟩).launched idle

end Sample

/-- The script is read as the three commands, with the version and the directory as they are. -/
theorem install_launches_program_sample :
    Shell.read (downloadScript Sample.hostileVersion (staging Sample.hostileWorkspace.root 1)) =
      some [[["set", "-o", "pipefail"]],
        [["curl", "-SLf", "https://storage.googleapis.com/golang/go" ++
            "1.9'; rm -r $HOME | `x` > \"\x7bé\x7d\"\n&" ++ ".linux-amd64.tar.gz"],
          ["tar", "-xz", "--strip", "1", "-C", "/home/it's a $(root)/go-tmp-1"]]] ∧
    ∃ l ∈ Sample.quoting, ∃ script, l.command.argv = ["/bin/bash", "-c", script] ∧
      Shell.read script = some (downloadProgram Sample.hostileVersion l.command.directory) := by
  have hlaunched : Sample.quoting.length = 1 := by decide +kernel
  obtain ⟨l, hl⟩ := List.exists_mem_of_length_pos (l := Sample.quoting) (by omega)
  have hprogram := install_launches_program Sample.hostileVersion Sample.hostileWorkspace
    ⟨Sample.hostileWorkspace.root, false⟩ Sample.idle
  refine ⟨?_, l, hl, hprogram.2 l hl⟩
  rw [hprogram.1 (staging Sample.hostileWorkspace.root 1) (by decide) (by decide +kernel)]
  decide +kernel

end Toolchain

end Provision
