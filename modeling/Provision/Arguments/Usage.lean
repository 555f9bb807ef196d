/-
**Usage and help.**

The usage names all options in short, and the help says what each of them does.  Both are laid out
for a width.  In the help the explanations stand in one column: behind the option if it is short
enough, else on the lines below it.

Main definitions:

* `Provision.Usage.greedy` — words in lines of a width;
* `Provision.Usage.lines` — **the usage**;
* `Provision.Usage.helpLines` — **the help**;
* `Provision.Usage.errorLines` — what is shown for a command line that is wrong.
-/

import Provision.Arguments.Reader
import Provision.Text.Lines
import Provision.Text.Paragraph

set_option relaxedAutoImplicit false
set_option autoImplicit false

namespace Provision

/-! ### Options -/

namespace CommandOption

/-- A name of the option with what stands for its value. -/
def withPlaceholder (o : CommandOption) (name : String) : String :=
  match o.action with
  | .value placeholder _ => name ++ " " ++ placeholder
  | _ => name

/-- The option as the usage shows it. -/
def brief (o : CommandOption) : String := "[" ++ o.withPlaceholder (o.names.headD "") ++ "]"

/-- The option as the help shows it. -/
def header (o : CommandOption) : String := ", ".intercalate (o.names.map o.withPlaceholder)

end CommandOption

namespace Usage

/-- The name of the program. -/
def programName : String := "publishing-init"

/-- What the program is for. -/
def description : String :=
  "Prepare Go toolchains, dependency managers and repository clones for the publishing bot. " ++
    "Command line flags override config values."

/-- A number of blanks. -/
def blanks (n : Nat) : String := String.ofList (List.replicate n ' ')

/-! ### Usage -/

/-- Puts words behind a line as long as they fit, then on further lines that start with `indent`
blanks. -/
def greedy (width indent : Nat) (line : String) : List String → List String
  | [] => [line]
  | w :: ws =>
      if line.length + 1 + w.length ≤ width then greedy width indent (line ++ " " ++ w) ws
      else line :: greedy width indent (blanks indent ++ w) ws

/-- **The usage.**  The options stand behind the name of the program if this takes up at most three
quarters of the width, else below it. -/
def lines (width : Nat) : List String :=
  let label := "usage: "
  let start := label ++ programName
  let options := CommandOption.all.map (·.brief)
  if 4 * start.length ≤ 3 * width then greedy width (start.length + 1) start options
  else match options with
    | [] => [start]
    | o :: os => start :: greedy width label.length (blanks label.length ++ o) os

/-! ### Help -/

/-- The least width of a paragraph. -/
def leastWidth : Nat := 11

/-- How far the options are indented, and how far an explanation stands from its option. -/
def gap : Nat := 2

/-- The column of the explanations: behind the longest option, but not too far to the right. -/
def helpColumn (width : Nat) : Nat :=
  let longest := (CommandOption.all.map fun o => o.header.length).foldl max 0
  min (gap + longest + gap) (min 24 (max (width - 20) (2 * gap)))

/-- The lines of the help about one option. -/
def optionLines (width : Nat) (o : CommandOption) : List String :=
  let column := helpColumn width
  let start := blanks gap ++ o.header
  let explanation := Text.Paragraph.fill (max (width - column) leastWidth) o.help
  if start.length + gap ≤ column then
    match explanation with
    | [] => [start]
    | l :: ls => (start ++ blanks (column - start.length) ++ l) :: ls.map (blanks column ++ ·)
  else start :: explanation.map (blanks column ++ ·)

/-- **The help.** -/
def helpLines (width : Nat) : List String :=
  lines width ++ [""] ++ Text.Paragraph.fill (max width leastWidth) description ++
    ["", "options:"] ++ CommandOption.all.flatMap (optionLines width)

/-! ### Output -/

/-- What is shown for a command line that is wrong; the message may have several lines. -/
def errorLines (width : Nat) (e : UsageError) : List String :=
  lines width ++ Text.lines (programName ++ ": error: " ++ e.message)

/-- The width to lay out for, on a terminal with so many columns. -/
def widthOn (columns : Nat) : Nat := columns - 2

end Usage

end Provision
