/-
**Shell words.**

A command line is shown, and a download script is written, so that a POSIX shell splits it back
into the very words it was made from.  A word that holds only characters without meaning to the
shell stands as it is; any other word is put between apostrophes, where nothing has a meaning but
the apostrophe, which is written as `'"'"'`: leave the quotes, quote one apostrophe with double
quotes, enter the quotes again.

Main definitions:

* `Provision.Shell.isPlainChar` — the characters that need no quotes;
* `Provision.Shell.quoteWord` — one word as the shell reads it back;
* `Provision.Shell.joinWords` — a command line, its words separated by blanks.
-/

set_option relaxedAutoImplicit false
set_option autoImplicit false

namespace Provision.Shell

/-- The characters of a word that the shell takes literally outside quotes: ASCII letters and
digits, and the ten signs of the list. -/
def isPlainChar (c : Char) : Bool :=
  c.isAlphanum || c ∈ ['_', '@', '%', '+', '=', ':', ',', '.', '/', '-']

/-- The apostrophe, which opens and closes a quoted word. -/
def apostrophe : Char := '\x27'

/-- How one character is written inside a quoted word. -/
def quoteChar (c : Char) : List Char :=
  if c = apostrophe then [apostrophe, '\x22', apostrophe, '\x22', apostrophe] else [c]

/-- One word, quoted unless it is made of plain characters only.  The empty word is quoted. -/
def quoteWord (w : List Char) : List Char :=
  if w ≠ [] ∧ w.all isPlainChar then w
  else apostrophe :: (w.flatMap quoteChar ++ [apostrophe])

/-- A command line: the words in order, each as the shell reads it back. -/
def joinWords (ws : List (List Char)) : List Char :=
  [' '].intercalate (ws.map quoteWord)

/-- `quoteWord` on strings. -/
def quote (w : String) : String := String.ofList (quoteWord w.toList)

/-- **The command line of an argument list.** -/
def join (ws : List String) : String := String.ofList (joinWords (ws.map String.toList))

@[simp] theorem quoteWord_nil : quoteWord [] = [apostrophe, apostrophe] := by
  simp [quoteWord]

@[simp] theorem joinWords_nil : joinWords [] = [] := rfl

@[simp] theorem joinWords_singleton (w : List Char) : joinWords [w] = quoteWord w := by
  simp [joinWords, List.intercalate]

theorem joinWords_cons_cons (w v : List Char) (ws : List (List Char)) :
    joinWords (w :: v :: ws) = quoteWord w ++ ' ' :: joinWords (v :: ws) := by
  simp [joinWords, List.intercalate]

end Provision.Shell
