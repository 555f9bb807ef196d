/-
**Reading shell programs.**

How a POSIX shell reads a program that holds nothing but words, quotes and the operators `;` and
`|`.  The text is split into tokens by reading it character by character: blanks and operators
outside quotes end a word, quotes and backslashes take what they protect literally, and anything
with a further meaning to the shell — an expansion, a pattern, a comment, another operator or a line
break outside quotes — is refused.  The tokens are then split into pipelines at the semicolons and
into commands at the bars.  A program that is read is therefore read completely: its words are
exactly what the commands are given, and nothing is expanded.

Main definitions:

* `Provision.Shell.Program` — pipelines of commands, each the list of its words;
* `Provision.Shell.Scan.step`, `Provision.Shell.tokens` — the tokens of a text;
* `Provision.Shell.read` — **the program that a text spells**;
* `Provision.Shell.Program.text` — a text that spells a program.
-/

import Provision.Shell.Word

set_option relaxedAutoImplicit false
set_option autoImplicit false

namespace Provision.Shell

/-! ### Programs -/

/-- Commands that run at the same time, each one reading what the one before it writes.  A command
is the list of its words. -/
abbrev Pipeline := List (List String)

/-- Pipelines that run one after the other. -/
abbrev Program := List Pipeline

/-! ### Characters -/

/-- The quotation mark, which opens and closes quotes that do not protect everything. -/
def quotationMark : Char := '\x22'

/-- The characters that separate words. -/
def isBlank (c : Char) : Bool := c = ' ' ∨ c = '\t'

/-- The printable ASCII signs that mean something to the shell outside quotes, at some place or
other: operators, quotes, expansions, patterns, comments, and the marks of reserved words. -/
def specialSigns : List Char :=
  ['|', '&', ';', '<', '>', '(', ')', '$', '\x60', '\\', quotationMark, apostrophe, '*', '?', '[',
    ']', '#', '~', '\x7b', '\x7d', '!', '^']

/-- The characters that stand for themselves outside quotes.  Characters beyond ASCII are left out,
as it depends on the locale whether they are blanks. -/
def standsForItself (c : Char) : Bool :=
  0x20 < c.toNat && c.toNat < 0x7f && c ∉ specialSigns

/-- The characters that a backslash protects between quotation marks. -/
def isProtectable (c : Char) : Bool := c ∈ ['$', '\x60', quotationMark, '\\']

/-! ### Tokens -/

/-- A word without its quotes, or an operator. -/
inductive Token where
  | word (w : List Char)
  | semicolon
  | pipe
  deriving DecidableEq, Repr, Inhabited

/-- Where a reader is, and what it has of the word that it is reading. -/
inductive Mode where
  /-- Outside quotes; there is no word yet after a blank or an operator. -/
  | outside (pending : Option (List Char))
  /-- Behind a backslash outside quotes. -/
  | escape (w : List Char)
  /-- Between apostrophes. -/
  | single (w : List Char)
  /-- Between quotation marks. -/
  | double (w : List Char)
  /-- Behind a backslash between quotation marks. -/
  | doubleEscape (w : List Char)
  deriving DecidableEq, Repr, Inhabited

/-- A reader: the tokens it has read, and where it is. -/
structure Scan where
  tokens : List Token := []
  mode : Mode := .outside none
  deriving DecidableEq, Repr, Inhabited

namespace Scan

/-- The token that a pending word makes. -/
def ended (pending : Option (List Char)) : List Token := (pending.map Token.word).toList

/-- Reads a character outside quotes. -/
def stepOutside (tokens : List Token) (pending : Option (List Char)) (c : Char) : Option Scan :=
  if isBlank c then some ⟨tokens ++ ended pending, .outside none⟩
  else if c = ';' then some ⟨tokens ++ ended pending ++ [.semicolon], .outside none⟩
  else if c = '|' then some ⟨tokens ++ ended pending ++ [.pipe], .outside none⟩
  else if c = apostrophe then some ⟨tokens, .single (pending.getD [])⟩
  else if c = quotationMark then some ⟨tokens, .double (pending.getD [])⟩
  else if c = '\\' then some ⟨tokens, .escape (pending.getD [])⟩
  else if standsForItself c then some ⟨tokens, .outside (some (pending.getD [] ++ [c]))⟩
  else none

/-- **Reads a character.**  There is no NUL in a program, and a backslash before a line break does
not protect it but removes both, which is not needed here. -/
def step (s : Scan) (c : Char) : Option Scan :=
  if c = '\x00' then none
  else match s.mode with
  | .outside pending => stepOutside s.tokens pending c
  | .escape w => if c = '\n' then none else some ⟨s.tokens, .outside (some (w ++ [c]))⟩
  | .single w =>
      if c = apostrophe then some ⟨s.tokens, .outside (some w)⟩
      else some ⟨s.tokens, .single (w ++ [c])⟩
  | .double w =>
      if c = quotationMark then some ⟨s.tokens, .outside (some w)⟩
      else if c = '\\' then some ⟨s.tokens, .doubleEscape w⟩
      else if isProtectable c then none
      else some ⟨s.tokens, .double (w ++ [c])⟩
  | .doubleEscape w =>
      if isProtectable c then some ⟨s.tokens, .double (w ++ [c])⟩
      else if c = '\n' then none
      else some ⟨s.tokens, .double (w ++ ['\\', c])⟩

/-- The tokens of a reader at the end of the text; none if a quote is open. -/
def finish (s : Scan) : Option (List Token) :=
  match s.mode with
  | .outside pending => some (s.tokens ++ ended pending)
  | _ => none

end Scan

/-- The tokens of a text. -/
def tokens (text : List Char) : Option (List Token) := do
  (← text.foldlM Scan.step {}).finish

/-! ### Commands -/

/-- The words that are no command where a command may stand. -/
def reservedWords : List String :=
  ["!", "\x7b", "\x7d", "[[", "]]", "case", "coproc", "do", "done", "elif", "else", "esac", "fi", "for",
    "function", "if", "in", "select", "then", "time", "until", "while"]

/-- Whether a first word names a command.  One with `=` in it sets a variable instead. -/
def namesCommand (name : String) : Bool := name ∉ reservedWords ∧ '=' ∉ name.toList

/-- The word of a token. -/
def Token.word? : Token → Option String
  | word w => some (String.ofList w)
  | _ => none

/-- The command that tokens make: words, and the first one names a command. -/
def command? (ts : List Token) : Option (List String) :=
  match ts.mapM Token.word? with
  | some (name :: arguments) => if namesCommand name then some (name :: arguments) else none
  | _ => none

/-- The program that tokens make. -/
def parse (ts : List Token) : Option Program :=
  (ts.splitOn .semicolon).mapM fun pipeline => (pipeline.splitOn .pipe).mapM command?

/-- **Reads a program**; none if it holds anything but words, quotes, semicolons and bars. -/
def read (text : String) : Option Program := (tokens text.toList).bind parse

/-! ### Writing -/

/-- A command as it is written. -/
def commandText (command : List String) : List Char := joinWords (command.map String.toList)

/-- A pipeline as it is written. -/
def Pipeline.text (p : Pipeline) : List Char := [' ', '|', ' '].intercalate (p.map commandText)

/-- **A text that spells a program.** -/
def Program.text (p : Program) : String :=
  String.ofList ([';', ' '].intercalate (p.map Pipeline.text))

end Provision.Shell
