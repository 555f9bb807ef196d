/-
**The text of a path and its names.**

A path that was read from text has clean components: none is empty, a dot, or holds a slash.  The
text of such a path, with or without one more name behind it, is therefore taken apart into its
names again, by the reader of paths as well as by the walk.

Main definitions:

* `Provision.Path.IsPart`, `Provision.Path.Clean` — components and paths as reading makes them;
* `Provision.Path.written` — the names in the text of a path.

Main results:

* `Provision.Path.clean_ofString` — reading makes clean paths;
* `Provision.FileSystem.steps_text`, `Provision.Path.ofString_text` — names from text and back;
* `Provision.Path.toString_child`, `Provision.Path.textBelow_toString` — the texts of what is below a
  path;
* `Provision.Path.ofString_toString` — **a path is read back from its text**;
* `Provision.Path.ofString_textBelow` — the name of what is below a path, added to either, gives the
  same path.
-/

import Provision.FileSystem.Walk

set_option relaxedAutoImplicit false
set_option autoImplicit false

namespace Provision

namespace Path

/-! ### Clean paths -/

/-- A word that can be a component of a path. -/
def IsPart (w : String) : Prop := w ≠ "" ∧ w ≠ "." ∧ '/' ∉ w.toList

/-- **A path as reading makes it.** -/
def Clean (p : Path) : Prop := ∀ w ∈ p.parts, IsPart w

theorem clean_ofString (s : String) : (ofString s).Clean := by
  intro w hw
  obtain ⟨v, hv, rfl⟩ := List.mem_map.1 hw
  obtain ⟨hpiece, hne⟩ := List.mem_filter.1 hv
  obtain ⟨hempty, hdot⟩ : v ≠ [] ∧ v ≠ ['.'] := by simpa using hne
  refine ⟨?_, ?_, ?_⟩
  · intro h
    exact hempty (by simpa using congrArg String.toList h)
  · intro h
    exact hdot (by simpa using congrArg String.toList h)
  · simpa using Text.not_mem_of_mem_pieces hpiece

theorem Clean.join {p q : Path} (hp : p.Clean) (hq : q.Clean) : (p.join q).Clean := by
  by_cases ha : q.anchor = .relative
  · rw [join_of_relative ha]
    intro w hw
    rcases List.mem_append.1 hw with hw | hw
    · exact hp w hw
    · exact hq w hw
  · rw [join_of_absolute ha]
    exact hq

theorem Clean.child_text {p : Path} (hp : p.Clean) (s : String) : (p.child s).Clean :=
  hp.join (clean_ofString s)

/-! ### Texts -/

/-- The names in the text of a path. -/
def written (p : Path) : List String :=
  if p.anchor = .relative ∧ p.parts = [] then ["."] else p.parts

/-- How many slashes an anchor is written with. -/
def Anchor.slashes : Anchor → Nat
  | .relative => 0
  | .root => 1
  | .doubleRoot => 2

theorem Anchor.text_toList (a : Anchor) : a.text.toList = List.replicate a.slashes '/' := by
  cases a <;> rfl

theorem toString_eq (p : Path) : p.toString = p.anchor.text ++ "/".intercalate p.written := by
  obtain ⟨a, parts⟩ := p
  cases a <;> cases parts <;> simp [toString, written, Anchor.text]

/-- Words as they may stand between the slashes of a text. -/
def AreNames (words : List String) : Prop := ∀ w ∈ words, w ≠ "" ∧ '/' ∉ w.toList

theorem Clean.parts {p : Path} (h : p.Clean) : AreNames p.parts :=
  fun w hw => ⟨(h w hw).1, (h w hw).2.2⟩

theorem Clean.written {p : Path} (h : p.Clean) : AreNames p.written := by
  intro w hw
  unfold Path.written at hw
  split at hw
  · obtain rfl : w = "." := by simpa using hw
    decide
  · exact h.parts w hw

theorem AreNames.concat {words : List String} (h : AreNames words) {w : String} (hw : IsPart w) :
    AreNames (words ++ [w]) := by
  intro v hv
  rcases List.mem_append.1 hv with hv | hv
  · exact h v hv
  · rw [List.mem_singleton.1 hv]
    exact ⟨hw.1, hw.2.2⟩

theorem exists_cons_intercalate {words : List String} (hne : words ≠ []) (h : AreNames words) :
    ∃ c rest, ("/".intercalate words).toList = c :: rest ∧ c ≠ '/' := by
  cases words with
  | nil => exact absurd rfl hne
  | cons w words =>
      obtain ⟨hw, hslash⟩ := h w (by simp)
      have htext : ∃ rest, ("/".intercalate (w :: words)).toList = w.toList ++ rest := by
        cases words with
        | nil => exact ⟨[], by simp⟩
        | cons v words => exact ⟨_, by rw [String.intercalate_cons_cons]; simp; rfl⟩
      obtain ⟨rest, hrest⟩ := htext
      cases hchars : w.toList with
      | nil => exact absurd (by simpa using hchars) hw
      | cons c chars =>
          refine ⟨c, chars ++ rest, by rw [hrest, hchars]; rfl, ?_⟩
          rintro rfl
          simp [hchars] at hslash

theorem exists_concat_intercalate {words : List String} (hne : words ≠ []) (h : AreNames words) :
    ∃ init c, ("/".intercalate words).toList = init ++ [c] ∧ c ≠ '/' := by
  obtain ⟨words, w, rfl⟩ : ∃ l w, words = l ++ [w] := ⟨_, _, (List.dropLast_concat_getLast hne).symm⟩
  obtain ⟨hw, hslash⟩ := h w (by simp)
  have hchars : w.toList ≠ [] := by simpa using hw
  have htext : ∃ start, ("/".intercalate (words ++ [w])).toList = start ++ w.toList := by
    by_cases hwords : words = []
    · exact ⟨[], by simp [hwords]⟩
    · rw [String.intercalate_append_of_ne_nil hwords (by simp), String.intercalate_singleton]
      exact ⟨_, String.toList_append⟩
  obtain ⟨start, hstart⟩ := htext
  refine ⟨start ++ w.toList.dropLast, w.toList.getLast hchars, ?_, ?_⟩
  · rw [hstart, List.append_assoc, List.dropLast_concat_getLast]
  · intro hc
    exact hslash (hc ▸ List.getLast_mem hchars)

theorem pieces_text (a : Anchor) {words : List String} (hne : words ≠ []) (h : AreNames words) :
    Text.pieces '/' (a.text ++ "/".intercalate words).toList =
      List.replicate a.slashes [] ++ words.map String.toList := by
  rw [String.toList_append, Anchor.text_toList, Text.pieces_replicate,
    Text.pieces_intercalate '/' rfl hne fun w hw => (h w hw).2]

/-- **The path that a text of names is read as.** -/
theorem ofString_text (a : Anchor) {words : List String} (hne : words ≠ []) (h : AreNames words) :
    ofString (a.text ++ "/".intercalate words) = ⟨a, words.filter (· ≠ ".")⟩ := by
  have hanchor : anchorOf (a.text ++ "/".intercalate words).toList = a := by
    obtain ⟨c, rest, htext, hc⟩ := exists_cons_intercalate hne h
    rw [String.toList_append, htext]
    cases a <;> simp [Anchor.text, anchorOf, hc]
  have hcomponents : components (a.text ++ "/".intercalate words).toList =
      words.filter (· ≠ ".") := by
    rw [components, pieces_text a hne h, List.filter_append, List.map_append]
    -- the slashes in front leave empty pieces only, which are no components
    have hblank : (List.replicate a.slashes ([] : List Char)).filter
        (fun w => w ≠ [] ∧ w ≠ ['.']) = [] := by simp
    rw [hblank, List.map_nil, List.nil_append, List.filter_map, List.map_map]
    rw [Text.ofList_comp_toList, List.map_id]
    refine List.filter_congr fun w hw => ?_
    have hchars : w.toList ≠ [] := by simpa using (h w hw).1
    have hdot : w.toList = ".".toList ↔ w = "." := String.toList_inj
    have hdot' : ".".toList = ['.'] := rfl
    rw [hdot'] at hdot
    simp [hchars, hdot]
  rw [ofString_eq, hanchor, hcomponents]

theorem ofString_of_isPart {w : String} (h : IsPart w) : ofString w = ⟨.relative, [w]⟩ := by
  have hnames : AreNames [w] := by
    intro v hv
    rw [List.mem_singleton.1 hv]
    exact ⟨h.1, h.2.2⟩
  simpa [Anchor.text, h.2.1] using ofString_text .relative (List.cons_ne_nil w []) hnames

theorem child_of_isPart (p : Path) {w : String} (h : IsPart w) :
    p.child w = ⟨p.anchor, p.parts ++ [w]⟩ := by
  rw [child, ofString_of_isPart h, join_of_relative rfl]

theorem toString_ne_empty {p : Path} (hp : p.Clean) : p.toString ≠ "" := by
  rw [toString_eq]
  by_cases hne : p.written = []
  · rw [hne]
    cases ha : p.anchor with
    | relative =>
        simp only [written, ha, true_and] at hne
        split at hne <;> contradiction
    | root => decide
    | doubleRoot => decide
  · obtain ⟨c, rest, htext, -⟩ := exists_cons_intercalate hne hp.written
    intro h
    have := congrArg String.toList h
    simp [htext] at this

theorem Clean.child {p : Path} (hp : p.Clean) {w : String} (hw : IsPart w) : (p.child w).Clean := by
  intro v hv
  rw [child_of_isPart p hw] at hv
  rcases List.mem_append.1 hv with hv | hv
  · exact hp v hv
  · rw [List.mem_singleton.1 hv]
    exact hw

theorem toString_child (p : Path) {w : String} (h : IsPart w) :
    (p.child w).toString = p.anchor.text ++ "/".intercalate (p.parts ++ [w]) := by
  rw [child_of_isPart p h, toString_eq]
  simp [written]

theorem textBelow_toString {p : Path} (hp : p.Clean) (w : String) :
    textBelow p.toString w = p.anchor.text ++ "/".intercalate (p.written ++ [w]) := by
  rw [toString_eq]
  by_cases hne : p.written = []
  -- only a root directory is written without a name
  · have hroot : p.anchor ≠ .relative := by
      intro ha
      simp only [written, ha, true_and] at hne
      split at hne
      · simp at hne
      · contradiction
    cases ha : p.anchor with
    | relative => exact absurd ha hroot
    | root => simp [hne, textBelow, Anchor.text]
    | doubleRoot => simp [hne, textBelow, Anchor.text]
  · obtain ⟨init, c, hinit, hc⟩ := exists_concat_intercalate hne hp.written
    have hlast : (p.anchor.text ++ "/".intercalate p.written).toList.getLast? = some c := by
      rw [String.toList_append, hinit]
      simp
    have hempty : p.anchor.text ++ "/".intercalate p.written ≠ "" := by
      intro h
      rw [h] at hlast
      simp at hlast
    rw [textBelow, hlast, String.intercalate_append_of_ne_nil hne (by simp)]
    simp [hempty, hc, String.append_assoc]

/-- The names in the text of a path are its components. -/
theorem Clean.filter_written {p : Path} (hp : p.Clean) :
    p.written.filter (· ≠ ".") = p.parts := by
  unfold Path.written
  split
  · next hp => simp [hp.2]
  · exact List.filter_eq_self.2 fun w hw => by simpa using (hp w hw).2.1

/-- **A path is read back from its text.** -/
theorem ofString_toString {p : Path} (hp : p.Clean) : ofString p.toString = p := by
  rw [toString_eq]
  by_cases hne : p.written = []
  -- only a root directory is written without a name
  · have hparts : p.parts = [] := by rw [← hp.filter_written, hne, List.filter_nil]
    rw [hne]
    obtain ⟨anchor, parts⟩ := p
    obtain rfl : parts = [] := hparts
    cases anchor with
    | relative => simp [Path.written] at hne
    | root => decide
    | doubleRoot => decide
  · rw [ofString_text p.anchor hne hp.written, hp.filter_written]

/-- **What lies below a path is the same, whether the name is added to its text or to itself.** -/
theorem ofString_textBelow {p : Path} (hp : p.Clean) {w : String} (h : IsPart w) :
    ofString (textBelow p.toString w) = p.child w := by
  rw [textBelow_toString hp, ofString_text p.anchor (by simp) (hp.written.concat h),
    child_of_isPart p h, List.filter_append, hp.filter_written]
  simp [h.2.1]

end Path

namespace FileSystem

open Provision.Path

/-- **The names in a text are those that it was put together from.** -/
theorem steps_text (a : Anchor) {words : List String} (hne : words ≠ []) (h : AreNames words) :
    steps (a.text ++ "/".intercalate words).toList = words := by
  unfold steps
  dsimp only
  rw [pieces_text a hne h]
  -- the text ends with a name, so that no dot is added
  have hlast : (List.replicate a.slashes [] ++ words.map String.toList).getLast? ≠ some [] := by
    obtain ⟨words, w, rfl⟩ : ∃ l w, words = l ++ [w] :=
      ⟨_, _, (List.dropLast_concat_getLast hne).symm⟩
    have hchars : w.toList ≠ [] := by simpa using (h w (by simp)).1
    rw [List.map_append, List.map_singleton, ← List.append_assoc, List.getLast?_concat]
    simpa using hchars
  -- only the pieces in front of the slashes are empty
  have hfilter : (List.replicate a.slashes [] ++ words.map String.toList).filter
      (fun w => decide (w ≠ [])) = words.map String.toList := by
    rw [List.filter_append]
    have hkept : ∀ w ∈ words.map String.toList, decide (w ≠ []) = true := by
      intro w hw
      obtain ⟨v, hv, rfl⟩ := List.mem_map.1 hw
      simpa using (h v hv).1
    rw [List.filter_eq_self.2 hkept]
    simp
  rw [if_neg hlast, hfilter, List.map_map]
  rw [Text.ofList_comp_toList, List.map_id]

theorem startsAtRoot_text (a : Anchor) {words : List String} (h : AreNames words) :
    startsAtRoot (a.text ++ "/".intercalate words).toList = decide (a ≠ .relative) := by
  cases a with
  | root => simp [startsAtRoot, Anchor.text]
  | doubleRoot => simp [startsAtRoot, Anchor.text]
  | relative =>
      by_cases hne : words = []
      · simp [hne, startsAtRoot, Anchor.text]
      · obtain ⟨c, rest, htext, hc⟩ := exists_cons_intercalate hne h
        simp [startsAtRoot, Anchor.text, htext, hc]

end FileSystem

end Provision
