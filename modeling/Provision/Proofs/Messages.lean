/-
**Messages tell their command.**

Four messages show a command line: that it would be run, that it is run, that it has failed, and
that it has not started.  In each of them the line stands between a fixed opening and a fixed
continuation, put between quotes, so that it is read back together with what stands behind it.  The
words of the command, its directory and its exit code are therefore told by the message, and
different commands are never described in the same way.  No other record of the log opens as those
do that describe a command.

Main definitions:

* `Provision.Message.line?` — reads a command line behind an opening;
* `Provision.Command.announcement`, `Provision.Command.trace` — the records for a command, in a dry
  run and outside of one;
* `Provision.Command.told?`, `Provision.CommandError.told?` — what a message tells;
* `Provision.Log.Record.announced?`, `Provision.Log.Record.traced?` — the command that a record is
  for;
* `Provision.Log.Record.isTrace`, `Provision.Log.Record.isAnnouncement`,
  `Provision.Log.Record.isForecast`, `Provision.Log.Record.isPlain` — records that are for a command
  or a download, and all others.

Main results:

* `Provision.Command.told?_text`, `Provision.CommandError.told?_message` — **messages tell their
  command**;
* `Provision.Command.announced?_announcement`, `Provision.Command.traced?_trace` — a record is for its
  command;
* `Provision.Runner.perform_announce`, `Provision.Runner.perform_trace` — what the runner writes;
* `Provision.Log.Record.isPlain_of_foreign` — which records are plain.
-/

import Provision.Proofs.Announcements
import Provision.Proofs.Decoding
import Provision.Proofs.FailStop
import Provision.Proofs.Paths

set_option relaxedAutoImplicit false
set_option autoImplicit false

namespace Provision

/-! ### Reading messages -/

namespace Message

/-- How a dry run announces a command. -/
def wouldRun : String := "Dry run: would run "

/-- How a dry run announces a download. -/
def wouldDownload : String := "Dry run: would download "

/-- How the record for a command that is run opens. -/
def running : String := "Running "

/-- How the text for a failed command opens. -/
def command : String := "Command "

/-- What stands between a command line and a directory. -/
def inside : String := " in "

/-- What stands between a command line and an exit code. -/
def exited : String := " failed with exit code "

/-- What stands between a command line and the reason for which the command has not started. -/
def notStarted : String := " failed to start: "

/-- What stands behind an opening, if a text opens so. -/
def behind? (opening : String) (text : List Char) : Option (List Char) :=
  if opening.toList.isPrefixOf text then some (text.drop opening.toList.length) else none

/-- **Reads a command line** between quotes behind an opening: its words, and what stands behind
it. -/
def line? (opening : String) (message : String) : Option (List String × List Char) := do
  let text ← behind? opening message.toList
  let (line, rest) ← Text.Quoted.read? text
  let argv ← Shell.split (String.ofList line)
  return (argv, rest)

/-- The number that is written in decimal digits, perhaps with a minus sign in front. -/
def number : List Char → Int
  | '-' :: digits => -(Nat.ofDigitChars 10 digits 0 : Int)
  | digits => Nat.ofDigitChars 10 digits 0

theorem behind?_append (opening : String) (rest : List Char) :
    behind? opening (opening.toList ++ rest) = some rest := by
  rw [behind?, if_pos (List.isPrefixOf_iff_prefix.2 (List.prefix_append _ _)), List.drop_left]

theorem behind?_eq_none {opening : String} {s : List Char}
    (h : Effort.Apart opening.toList s = true) (rest : List Char) :
    behind? opening (s ++ rest) = none := by
  rw [behind?, Effort.isPrefixOf_append_of_apart h, if_neg Bool.false_ne_true]

/-- **A command line is read back**, whatever it stands between. -/
theorem line?_append (opening : String) (argv : List String) (rest : String) :
    line? opening (opening ++ (Text.quoted (Shell.join argv) ++ rest)) =
      some (argv, rest.toList) := by
  rw [line?, String.toList_append, behind?_append, String.toList_append, Text.quoted_toList]
  simp [Text.Quoted.read?_encode, Shell.split_join]

/-- **A number is read back.** -/
theorem number_toString (n : Int) : number (toString n).toList = n := by
  have hdigits : ∀ k : Nat, Nat.ofDigitChars 10 (Nat.repr k).toList 0 = k := by
    intro k
    rw [Nat.repr, String.toList_ofList, Nat.ofDigitChars_ten_toDigits]
  rw [Int.toString_eq_repr, Int.repr_eq_if]
  split
  · next h =>
    -- no digit is a minus sign
    have hsign : ∀ digits, (Nat.repr n.toNat).toList ≠ '-' :: digits := by
      intro digits heq
      have hmem : '-' ∈ Nat.toDigits 10 n.toNat := by
        rw [Nat.repr, String.toList_ofList] at heq
        rw [heq]
        exact List.mem_cons_self ..
      exact absurd (Nat.isDigit_of_mem_toDigits (by decide) (by decide) hmem) (by decide)
    rw [number, hdigits]
    · omega
    · exact hsign
  · next h =>
    have hminus : ("-" ++ (-n).toNat.repr).toList = '-' :: (-n).toNat.repr.toList := by
      simp
    rw [hminus, number, hdigits]
    omega

end Message

/-! ### Commands -/

namespace Command

/-- The text that describes a command behind an opening: its line and its directory. -/
def text (opening : String) (c : Command) : String :=
  opening ++ (c.line ++ (Message.inside ++ c.directory.toString))

/-- **What a text tells of a command**: its words, and the text of its directory. -/
def told? (opening : String) (message : String) : Option (List String × String) := do
  let (argv, rest) ← Message.line? opening message
  let directory ← Message.behind? Message.inside rest
  return (argv, String.ofList directory)

/-- **The record that announces a command** in a dry run. -/
def announcement (c : Command) : Log.Record := ⟨.info, c.text Message.wouldRun⟩

/-- **The record for a command that is run.** -/
def trace (c : Command) : Log.Record := ⟨.debug, c.text Message.running⟩

/-- **The text for a command tells its words and its directory.** -/
theorem told?_text (opening : String) (c : Command) :
    told? opening (c.text opening) = some (c.argv, c.directory.toString) := by
  rw [told?, text, line, Message.line?_append]
  simp [Message.behind?_append]

/-- The command of some words and the text of a directory. -/
def ofTold (told : List String × String) : Command := ⟨told.1, Path.ofString told.2⟩

/-- A command is known from its words and the text of its directory. -/
theorem ofTold_eq {c : Command} (h : c.directory.Clean) :
    ofTold (c.argv, c.directory.toString) = c := by
  rw [ofTold, Path.ofString_toString h]

end Command

/-! ### Failed commands -/

namespace CommandError

/-- **What the text of a failure tells**: the words of the command, and the exit code if it has
started. -/
def told? (message : String) : Option (List String × Option Int) := do
  let (argv, rest) ← Message.line? Message.command message
  match Message.behind? Message.exited rest with
  | some digits => return (argv, some (Message.number digits))
  | none =>
      let _ ← Message.behind? Message.notStarted rest
      return (argv, none)

/-- **The text of a failure tells the words of its command and the exit code.** -/
theorem told?_message (e : CommandError) : told? e.message = some (e.argv, e.exitCode?) := by
  obtain ⟨argv, reason⟩ := e
  cases reason with
  | exitCode code =>
      have hmessage : message ⟨argv, .exitCode code⟩ = Message.command ++
          (Text.quoted (Shell.join argv) ++ (Message.exited ++ toString code)) := by
        rw [message, String.append_assoc]
        rfl
      rw [told?, hmessage, Message.line?_append, String.toList_append]
      simp only [Option.bind_eq_bind, Option.bind_some, Message.behind?_append,
        Message.number_toString]
      rfl
  | notStarted cause =>
      have hmessage : message ⟨argv, .notStarted cause⟩ = Message.command ++
          (Text.quoted (Shell.join argv) ++ (Message.notStarted ++ cause.message)) := by
        rw [message, String.append_assoc]
        rfl
      have hother : Message.behind? Message.exited
          (Message.notStarted.toList ++ cause.message.toList) = none :=
        Message.behind?_eq_none (by cbv) _
      rw [told?, hmessage, Message.line?_append, String.toList_append]
      simp only [Option.bind_eq_bind, Option.bind_some, hother, Message.behind?_append]
      rfl

end CommandError

/-! ### Records -/

namespace Log.Record

/-- Whether a record is of a level and opens with a text. -/
def opens (level : Level) (opening : String) (r : Record) : Bool :=
  r.level = level && opening.toList.isPrefixOf r.message.toList

/-- Whether a record is for a command that is run. -/
def isTrace (r : Record) : Bool := r.opens .debug Message.running

/-- Whether a record says what would be run. -/
def isAnnouncement (r : Record) : Bool := r.opens .info Message.wouldRun

/-- Whether a record says what would be run or downloaded. -/
def isForecast (r : Record) : Bool := r.isAnnouncement || r.opens .info Message.wouldDownload

/-- Whether a record is neither for a command nor for a download. -/
def isPlain (r : Record) : Bool := !r.isTrace && !r.isForecast

/-- The command that a record announces. -/
def announced? (r : Record) : Option Command :=
  if r.level = .info then (Command.told? Message.wouldRun r.message).map .ofTold else none

/-- The command that a record is for. -/
def traced? (r : Record) : Option Command :=
  if r.level = .debug then (Command.told? Message.running r.message).map .ofTold else none

/-- Whether no trace and no forecast opens with a text, at the level of the text, and it opens
none. -/
def Foreign (level : Level) (s : String) : Bool :=
  match level with
  | .debug => Effort.Apart Message.running.toList s.toList
  | .info =>
      Effort.Apart Message.wouldRun.toList s.toList &&
        Effort.Apart Message.wouldDownload.toList s.toList
  | .warning | .error => true

/-- **A record that opens with a foreign text is plain.** -/
theorem isPlain_of_foreign {level : Level} {s : String} (hs : Foreign level s = true)
    {message : String} (h : s.toList <+: message.toList) :
    (⟨level, message⟩ : Record).isPlain = true := by
  obtain ⟨rest, hrest⟩ := h
  have hopens : ∀ opening : String, Effort.Apart opening.toList s.toList = true →
      opening.toList.isPrefixOf message.toList = false := by
    intro opening hapart
    rw [← hrest, Effort.isPrefixOf_append_of_apart hapart]
  cases level with
  | debug => simp [isPlain, isTrace, isForecast, isAnnouncement, opens, hopens _ hs]
  | info =>
      rw [Foreign, Bool.and_eq_true] at hs
      simp [isPlain, isTrace, isForecast, isAnnouncement, opens, hopens _ hs.1, hopens _ hs.2]
  | warning => simp [isPlain, isTrace, isForecast, isAnnouncement, opens]
  | error => simp [isPlain, isTrace, isForecast, isAnnouncement, opens]

/-- An error is plain. -/
theorem isPlain_error (message : String) : (⟨.error, message⟩ : Record).isPlain = true := by
  simp [isPlain, isTrace, isForecast, isAnnouncement, opens]

/-- Plain records are for no command. -/
theorem filter_of_plain {records : List Record} (h : ∀ r ∈ records, r.isPlain = true) :
    records.filter (·.isTrace) = [] ∧ records.filter (·.isAnnouncement) = [] := by
  have hkinds : ∀ r ∈ records, r.isTrace = false ∧ r.isAnnouncement = false := by
    intro r hr
    have hplain := h r hr
    simp only [isPlain, isForecast, Bool.and_eq_true, Bool.not_eq_true',
      Bool.or_eq_false_iff] at hplain
    exact ⟨hplain.1, hplain.2.1⟩
  simp only [List.filter_eq_nil_iff, Bool.not_eq_true]
  exact ⟨fun r hr => (hkinds r hr).1, fun r hr => (hkinds r hr).2⟩

end Log.Record

namespace Command

/-- **A record announces its command.** -/
theorem announced?_announcement {c : Command} (h : c.directory.Clean) :
    c.announcement.announced? = some c := by
  rw [announcement, Log.Record.announced?, if_pos rfl, told?_text, Option.map_some, ofTold_eq h]

/-- **A record is for its command.** -/
theorem traced?_trace {c : Command} (h : c.directory.Clean) : c.trace.traced? = some c := by
  rw [trace, Log.Record.traced?, if_pos rfl, told?_text, Option.map_some, ofTold_eq h]

theorem isTrace_trace (c : Command) : c.trace.isTrace = true := by
  simp [trace, Log.Record.isTrace, Log.Record.opens, text, List.isPrefixOf_iff_prefix]

theorem isAnnouncement_announcement (c : Command) : c.announcement.isAnnouncement = true := by
  simp [announcement, Log.Record.isAnnouncement, Log.Record.opens, text,
    List.isPrefixOf_iff_prefix]

end Command

/-! ### The runner -/

namespace Runner

open Step

/-- **In a dry run the runner announces its command**, and does nothing else. -/
theorem perform_announce {runner : Runner} (hdry : runner.dryRun = true) (argv : List String)
    (directory : Option Path) (m : Machine) :
    (runner.run argv directory).perform m = (.ok (), { m with
      log := m.log ++ [Command.announcement ⟨argv, directory.getD runner.directory⟩] }) := by
  simp only [run, hdry, if_true, perform_info, String.append_assoc]
  rfl

/-- **Outside of a dry run it writes the record for its command** and launches it. -/
theorem perform_trace {runner : Runner} (hdry : runner.dryRun = false) (argv : List String)
    (directory : Option Path) (m : Machine) :
    (runner.run argv directory).perform m =
      ((m.launched ⟨argv, directory.getD runner.directory⟩).result,
        m.afterLaunch ⟨argv, directory.getD runner.directory⟩
          [Command.trace ⟨argv, directory.getD runner.directory⟩]) := by
  rw [perform_run_eq hdry, String.append_assoc, String.append_assoc]
  rfl

end Runner

end Provision
