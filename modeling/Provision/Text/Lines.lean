/-
**Lines.**

A text file may end its lines with a line feed, a carriage return, or both together.  Reading one
as text turns each of the three into a single line feed.

Main definitions:

* `Provision.Text.unifyNewlines` — the text with line feeds only;
* `Provision.Text.lines` — the lines of a text.

Main results:

* `Provision.Text.intercalate_lines`, `Provision.Text.newline_not_mem_of_mem_lines` — the lines are
  what stands between the line feeds;
* `Provision.Text.lines_intercalate` — lines that are put together fall apart again.
-/

import Provision.Text.Split
import Provision.Text.Utf8

set_option relaxedAutoImplicit false
set_option autoImplicit false

namespace Provision.Text

/-- Every line end becomes one line feed. -/
def unifyNewlines : List Char → List Char
  | [] => []
  | '\r' :: '\n' :: rest => '\n' :: unifyNewlines rest
  | '\r' :: rest => '\n' :: unifyNewlines rest
  | c :: rest => c :: unifyNewlines rest

/-- A text without carriage returns is left as it is. -/
theorem unifyNewlines_eq_self {s : List Char} (h : '\r' ∉ s) : unifyNewlines s = s := by
  fun_induction unifyNewlines s with
  | case1 => rfl
  | case2 rest ih => simp at h
  | case3 rest _ ih => simp at h
  | case4 c rest _ _ ih =>
      rw [ih]
      exact fun hr => h (List.mem_cons_of_mem _ hr)

/-- **The lines of a text**: what stands between its line feeds. -/
def lines (s : String) : List String := (pieces '\n' (chars s)).map String.ofList

theorem lines_eq (s : String) : lines s = (pieces '\n' s.toList).map String.ofList := by
  rw [lines, chars_eq]

theorem newline_not_mem_of_mem_lines {s l : String} (h : l ∈ lines s) : '\n' ∉ l.toList := by
  rw [lines_eq] at h
  obtain ⟨w, hw, rfl⟩ := List.mem_map.1 h
  rw [String.toList_ofList]
  exact not_mem_of_mem_pieces hw

/-- **The lines make up the text**, with line feeds in between. -/
theorem intercalate_lines (s : String) : "\n".intercalate (lines s) = s := by
  rw [lines_eq, ← String.toList_inj, String.toList_intercalate, List.map_map]
  simpa [Function.comp_def] using intercalate_pieces s.toList

/-- **Lines that are put together fall apart into the same lines.** -/
theorem lines_intercalate {ls : List String} (hne : ls ≠ []) (h : ∀ l ∈ ls, '\n' ∉ l.toList) :
    lines ("\n".intercalate ls) = ls := by
  rw [lines_eq, pieces_intercalate '\n' rfl hne h, List.map_map, ofList_comp_toList, List.map_id]

end Provision.Text
