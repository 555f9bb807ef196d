/-
**The log.**

What the program tells its user, record by record.  Each record has a level; the level decides
whether it is shown, and is the word that its first line starts with.

Main definitions:

* `Provision.Log.Level`, `Provision.Log.Record` — levels and records;
* `Provision.Log.Record.lines` — a record as lines of text;
* `Provision.Log.shown` — the lines of a log from some level on.

Main results:

* `Provision.Log.Record.intercalate_lines` — **the lines of a record are its level and its message**;
* `Provision.Log.Record.lines_intercalate` — the record of a message that is made of lines.
-/

import Provision.Text.Lines

set_option relaxedAutoImplicit false
set_option autoImplicit false

namespace Provision.Log

/-- How much a record matters. -/
inductive Level where
  | debug
  | info
  | warning
  | error
  deriving DecidableEq, Repr, Inhabited

namespace Level

/-- The word that a record starts with. -/
def word : Level → String
  | debug => "DEBUG"
  | info => "INFO"
  | warning => "WARNING"
  | error => "ERROR"

/-- The order of the levels, as numbers. -/
def rank : Level → Nat
  | debug => 0
  | info => 1
  | warning => 2
  | error => 3

end Level

/-- One record of the log. -/
structure Record where
  level : Level
  /-- What it says; it may have several lines. -/
  message : String
  deriving DecidableEq, Repr, Inhabited

/-- A record as text: the level and the message. -/
def Record.text (r : Record) : String := r.level.word ++ ": " ++ r.message

/-- A record as lines. -/
def Record.lines (r : Record) : List String := Text.lines r.text

/-- **The lines of a record**, put together, are the word of its level, a colon and its message. -/
theorem Record.intercalate_lines (r : Record) :
    "\n".intercalate r.lines = r.level.word ++ ": " ++ r.message :=
  Text.intercalate_lines r.text

/-- Of a message that is made of lines, the first stands behind the word of the level. -/
theorem Record.lines_intercalate (level : Level) {l : String} {ls : List String}
    (h : ∀ k ∈ l :: ls, '\n' ∉ k.toList) :
    (⟨level, "\n".intercalate (l :: ls)⟩ : Record).lines = (level.word ++ ": " ++ l) :: ls := by
  have hword : '\n' ∉ (level.word ++ ": ").toList := by cases level <;> decide
  rw [lines, text, ← String.intercalate_cons_append]
  refine Text.lines_intercalate (List.cons_ne_nil _ _) (List.forall_mem_cons.2 ⟨?_, ?_⟩)
  · rw [String.toList_append, List.mem_append, not_or]
    exact ⟨hword, h l (List.mem_cons_self ..)⟩
  · exact fun k hk => h k (List.mem_cons_of_mem l hk)

/-- **The lines of the records that are at least of the given level.** -/
def shown (least : Level) (records : List Record) : List String :=
  (records.filter fun r => least.rank ≤ r.level.rank).flatMap Record.lines

end Provision.Log
