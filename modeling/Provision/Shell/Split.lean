/-
**Splitting command lines.**

A command line is split into its words by blanks, quotes and backslashes alone.  Between apostrophes
every character stands for itself; between quotation marks every one but the backslash, which
protects a quotation mark and itself there; outside quotes a backslash protects any character.  A
word may be put together from several such parts.  Nothing is expanded and no character is an
operator, so that every line is read in which no quote is left open.

Main definitions:

* `Provision.Shell.Fields`, `Provision.Shell.Fields.step` — reading a line character by character;
* `Provision.Shell.split` — **the words of a command line**.
-/

import Provision.Shell.Reader

set_option relaxedAutoImplicit false
set_option autoImplicit false

namespace Provision.Shell

/-- A reader of words: those that it has read, and where it is. -/
structure Fields where
  words : List (List Char) := []
  mode : Mode := .outside none
  deriving DecidableEq, Repr, Inhabited

namespace Fields

/-- The characters between words. -/
def separates (c : Char) : Bool := c ∈ [' ', '\t', '\r', '\n']

/-- **Reads a character.** -/
def step (s : Fields) (c : Char) : Fields :=
  match s.mode with
  | .outside pending =>
      if separates c then ⟨s.words ++ pending.toList, .outside none⟩
      else if c = apostrophe then ⟨s.words, .single (pending.getD [])⟩
      else if c = quotationMark then ⟨s.words, .double (pending.getD [])⟩
      else if c = '\\' then ⟨s.words, .escape (pending.getD [])⟩
      else ⟨s.words, .outside (some (pending.getD [] ++ [c]))⟩
  | .escape w => ⟨s.words, .outside (some (w ++ [c]))⟩
  | .single w =>
      if c = apostrophe then ⟨s.words, .outside (some w)⟩ else ⟨s.words, .single (w ++ [c])⟩
  | .double w =>
      if c = quotationMark then ⟨s.words, .outside (some w)⟩
      else if c = '\\' then ⟨s.words, .doubleEscape w⟩
      else ⟨s.words, .double (w ++ [c])⟩
  | .doubleEscape w =>
      if c = quotationMark ∨ c = '\\' then ⟨s.words, .double (w ++ [c])⟩
      else ⟨s.words, .double (w ++ ['\\', c])⟩

/-- The words at the end of the line; none if a quote is open or a backslash protects nothing. -/
def finish (s : Fields) : Option (List (List Char)) :=
  match s.mode with
  | .outside pending => some (s.words ++ pending.toList)
  | _ => none

end Fields

/-- The words of a line of characters. -/
def splitWords (line : List Char) : Option (List (List Char)) := (line.foldl Fields.step {}).finish

/-- **The words of a command line.** -/
def split (line : String) : Option (List String) :=
  (splitWords line.toList).map (·.map String.ofList)

end Provision.Shell
