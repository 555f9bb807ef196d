/-
**Documents as they are delivered.**

A loader fills in the home directory, reads the file, decodes it and parses the text.  When all of
this goes well it delivers the value of the document, and what the loader answers depends on that
value only.  In such a value nothing at all, the empty text and the texts that mean null count as
blank: wherever a text or a list may be left out, each of them leaves it out.

Main definitions:

* `Provision.Loader.Delivers` — the value of the document at a path;
* `Provision.Yaml.Value.Blank` — nothing, an empty text, or a text that means null.

Main results:

* `Provision.Loader.Delivers.loadRules`, `Provision.Loader.Delivers.loadConfig` — **a loader answers
  by the value**;
* `Provision.Yaml.Value.Blank.scalarText`, `Provision.Yaml.Value.Blank.items` — what is blank is left
  out.
-/

import Mathlib
import Provision.Proofs.Preparation

set_option relaxedAutoImplicit false
set_option autoImplicit false

namespace Provision

open Step

/-! ### Delivered documents -/

namespace Loader

/-- A text without carriage returns is read as it was written. -/
theorem decode?_toUTF8 {text : String} (h : '\r' ∉ text.toList) :
    decode? text.toUTF8 = some text := by
  have hvalid : String.fromUTF8? text.toUTF8 = some text := dif_pos text.isValidUTF8
  rw [decode?, hvalid, Option.map_some, Text.chars_eq, Text.unifyNewlines_eq_self h,
    String.ofList_toList]

/-- **The document at `path` is delivered as the value `v`**; `path'` is the path with its home
directory filled in. -/
structure Delivers (m : Machine) (path path' : Path) (v : Option Yaml.Value) : Prop where
  expanded : path.expandHome m.homes = some path'
  parsed : ∃ bytes text, m.files.read path'.toString = .ok bytes ∧ decode? bytes = some text ∧
    Yaml.parse text = .ok v

namespace Delivers

variable {m : Machine} {path path' : Path} {v : Option Yaml.Value}

theorem perform_expand (h : Delivers m path path' v) :
    (expand path).perform m = (.ok path', m) := by
  rw [expand, perform_bind_ok (perform_get m), h.expanded]
  rfl

theorem perform_value (h : Delivers m path path' v) (unreadable : SystemError → Failure)
    (malformed : Yaml.Fault → Failure) :
    (value path' unreadable malformed).perform m = (.ok v, m) := by
  obtain ⟨bytes, s, hread, hdecode, hparse⟩ := h.parsed
  have htext : (text path' unreadable).perform m = (.ok s, m) := by
    rw [text, perform_bind_ok (perform_files m), hread]
    simp only [hdecode]
    rfl
  rw [value, perform_bind_ok htext, hparse]
  rfl

/-- **Rules are loaded by the value of their document.** -/
theorem loadRules (h : Delivers m path path' v) :
    ((loadRules path).perform m).1 = (Rules.ofDocument path' v).mapError Failure.rules := by
  rw [Provision.loadRules, perform_bind_ok h.perform_expand, perform_bind_ok (h.perform_value _ _)]
  cases Rules.ofDocument path' v <;> rfl

/-- **The configuration is loaded by the value of its document.** -/
theorem loadConfig (h : Delivers m path path' v) :
    ((loadConfig path).perform m).1 = (Config.ofDocument path' v).mapError Failure.config := by
  rw [Provision.loadConfig, perform_bind_ok h.perform_expand, perform_bind_ok (h.perform_value _ _)]
  cases Config.ofDocument path' v <;> rfl

end Delivers

namespace Sample

/-- A machine with one document. -/
def holding (text : String) : Machine where
  files := ⟨⟨[(["document"], .file text.toUTF8 false)]⟩, []⟩

/-- Where the machine has its document. -/
def path : Path := Path.ofString "/document"

theorem expandHome_path (text : String) : path.expandHome (holding text).homes = some path := by cbv

theorem read_holding (text : String) :
    (holding text).files.read path.toString = .ok text.toUTF8 := by cbv

/-- The machine delivers the value of the document. -/
theorem delivers_holding {text : String} {v : Option Yaml.Value}
    (hlines : '\r' ∉ text.toList) (hparse : Yaml.parse text = .ok v) :
    Delivers (holding text) path path v :=
  ⟨expandHome_path text, text.toUTF8, text, read_holding text, decode?_toUTF8 hlines, hparse⟩

end Sample

end Loader

/-! ### Blank values -/

namespace Yaml.Value

/-- **A value that is left out**: nothing, an empty text, or a text that means null. -/
inductive Blank : Option Value → Prop where
  | missing : Blank none
  | empty : Blank (some (.scalar ""))
  | null {text : String} (h : text ∈ nullTexts) : Blank (some (.scalar text))

/-- A value is blank exactly if it holds no text though it could. -/
theorem scalarText_eq_empty_iff {text : String} :
    scalarText (some (.scalar text)) = "" ↔ Blank (some (.scalar text)) := by
  rw [scalarText]
  constructor
  · intro h
    split at h
    · next hnull => exact .null hnull
    · rw [h]
      exact .empty
  · intro h
    cases h with
    | empty => decide
    | null h => rw [if_pos h]

/-- A blank value gives no text. -/
theorem Blank.scalarText {v : Option Value} (h : Blank v) : scalarText v = "" := by
  cases h with
  | missing => rfl
  | empty => exact scalarText_eq_empty_iff.2 .empty
  | null h => exact scalarText_eq_empty_iff.2 (.null h)

/-- **A value gives a text exactly if it is this text and is not blank.** -/
theorem scalarText_eq_iff_of_ne {v : Option Value} {text : String} (htext : text ≠ "") :
    Provision.scalarText v = text ↔ v = some (.scalar text) ∧ ¬Blank v := by
  constructor
  · rintro rfl
    refine ⟨?_, fun hblank => htext hblank.scalarText⟩
    match v with
    | none | some (.sequence _) | some (.mapping _) => exact absurd rfl htext
    | some (.scalar text) =>
        rw [Provision.scalarText]
        split
        · next hnull => exact absurd (Blank.null hnull).scalarText htext
        · rfl
  · rintro ⟨rfl, hblank⟩
    rw [Provision.scalarText, if_neg fun hnull => hblank (.null hnull)]

/-- A blank value gives no items. -/
theorem Blank.items {v : Option Value} (h : Blank v) : Rules.items? v = some [] := by
  cases h with
  | missing => rfl
  | empty => rw [Rules.items?, if_pos (Blank.empty).scalarText]
  | null h => rw [Rules.items?, if_pos (Blank.null h).scalarText]

end Yaml.Value

end Provision
