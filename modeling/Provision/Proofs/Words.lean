/-
**Words in documents.**

A word of letters, digits, dots, underscores and hyphens that starts with a letter or a digit is a
plain scalar wherever it stands, and is read character for character: as a key up to its colon, and as
a value up to the end of its line.  The end of the line is read along with it, and so is the indentation
of the line behind it.

Main definitions:

* `Provision.Yaml.isWordChar`, `Provision.Yaml.IsWord` — the words;
* `Provision.Yaml.Opens` — the beginnings of lines.

Main results:

* `Provision.Yaml.Cursor.advanceBy_append` — moving past a piece of a line;
* `Provision.Yaml.Scalar.plainRun_append` — words hold no end of a plain scalar;
* `Provision.Yaml.Scalar.plain_of_stop`, `Provision.Yaml.Scalar.plain_of_line` — **words are read as
  they are written**.
-/

import Provision.Yaml.Token.Scalar

set_option relaxedAutoImplicit false
set_option autoImplicit false

namespace Provision.Yaml

/-! ### Words -/

/-- Letters, digits, dots, underscores and hyphens. -/
def isWordChar (c : Char) : Bool := c.isAlphanum || c = '.' || c = '_' || c = '-'

/-- **A word**: characters of words, and the first one is a letter or a digit. -/
structure IsWord (w : List Char) : Prop where
  chars : ∀ c ∈ w, isWordChar c = true
  head : ∃ c rest, w = c :: rest ∧ c.isAlphanum = true

theorem isWord_iff {w : List Char} :
    IsWord w ↔ w.all isWordChar = true ∧ w.head?.any Char.isAlphanum = true := by
  constructor
  · rintro ⟨hchars, c, rest, rfl, hc⟩
    exact ⟨List.all_eq_true.2 hchars, by simpa using hc⟩
  · rintro ⟨hchars, hhead⟩
    cases w with
    | nil => simp at hhead
    | cons c rest => exact ⟨List.all_eq_true.1 hchars, c, rest, rfl, by simpa using hhead⟩

instance (w : List Char) : Decidable (IsWord w) := decidable_of_iff _ isWord_iff.symm

variable {c : Char} {w : List Char}

/-- A character of words is none that is no character of words. -/
theorem ne_of_isWordChar (h : isWordChar c = true) {x : Char} (hx : isWordChar x = false) : c ≠ x := by
  rintro rfl
  simp [h] at hx

theorem isWordChar_of_isAlphanum (h : c.isAlphanum = true) : isWordChar c = true := by
  simp [isWordChar, h]

theorem isBlank_of_isWordChar (h : isWordChar c = true) : isBlank c = false := by
  simp [isBlank, ne_of_isWordChar h (x := ' ') (by decide), ne_of_isWordChar h (x := '\t') (by decide)]

theorem isBreak_of_isWordChar (h : isWordChar c = true) : isBreak c = false := by
  have hne := fun {x : Char} (hx : isWordChar x = false) => ne_of_isWordChar h hx
  simp [isBreak, hne (x := '\n') (by decide), hne (x := '\r') (by decide), hne (x := '\x85') (by decide),
    hne (x := '\u2028') (by decide), hne (x := '\u2029') (by decide)]

theorem isAllowed_of_isWordChar (h : isWordChar c = true) : isAllowed c = true := by
  have hrange : 0x20 ≤ c.toNat ∧ c.toNat ≤ 0x7E := by
    delta isWordChar Char.isAlphanum Char.isAlpha Char.isUpper Char.isLower Char.isDigit at h
    simp only [Bool.or_eq_true, Bool.and_eq_true, decide_eq_true_eq, UInt32.le_iff_toNat_le,
      ge_iff_le, or_assoc] at h
    obtain ⟨h₁, h₂⟩ | ⟨h₁, h₂⟩ | ⟨h₁, h₂⟩ | rfl | rfl | rfl := h
    · exact ⟨Nat.le_trans (by decide) h₁, Nat.le_trans h₂ (by decide)⟩
    · exact ⟨Nat.le_trans (by decide) h₁, Nat.le_trans h₂ (by decide)⟩
    · exact ⟨Nat.le_trans (by decide) h₁, Nat.le_trans h₂ (by decide)⟩
    all_goals exact ⟨by decide, by decide⟩
  simp [isAllowed, hrange.1, hrange.2]

/-! ### Moving on -/

/-- A character that moves a cursor by one column. -/
def isInLine (c : Char) : Bool := !isBreak c && c ≠ '\ufeff'

theorem isInLine_of_isWordChar (h : isWordChar c = true) : isInLine c = true := by
  simp [isInLine, isBreak_of_isWordChar h, ne_of_isWordChar h (x := '\ufeff') (by decide)]

namespace Cursor

variable {rest : List Char} {i l k : Nat}

theorem advance_of_isInLine (h : isInLine c = true) :
    (Cursor.mk (c :: rest) i l k).advance = ⟨rest, i + 1, l, k + 1⟩ := by
  obtain ⟨hbreak, hmark⟩ : isBreak c = false ∧ c ≠ '\ufeff' := by simpa [isInLine] using h
  have hreturn : c ≠ '\r' := by
    rintro rfl
    simp [isBreak] at hbreak
  simp [advance, hbreak, hmark, hreturn]

/-- **Moving past a piece of a line.** -/
theorem advanceBy_append (h : ∀ c ∈ w, isInLine c = true) :
    (Cursor.mk (w ++ rest) i l k).advanceBy w.length =
      ⟨rest, i + w.length, l, k + w.length⟩ := by
  induction w generalizing i k with
  | nil => rfl
  | cons c w ih =>
      rw [List.length_cons, advanceBy, List.cons_append, advance_of_isInLine (h c (by simp)),
        ih fun c hc => h c (by simp [hc])]
      simp [Nat.add_assoc, Nat.add_comm 1]

theorem advance_newline :
    (Cursor.mk ('\n' :: rest) i l k).advance = ⟨rest, i + 1, l + 1, 0⟩ := by
  simp [advance, isBreak]

theorem lineBreak_newline :
    (Cursor.mk ('\n' :: rest) i l k).lineBreak = (['\n'], ⟨rest, i + 1, l + 1, 0⟩) := by
  simp [lineBreak, advance_newline]

/-- Where no space stands there is none to move past. -/
theorem run_spaces_of_none {c : Cursor} (h : c.rest.head? ≠ some ' ') : c.run (· = ' ') = [] := by
  rw [Cursor.run]
  cases hrest : c.rest with
  | nil => rfl
  | cons x rest =>
      have hx : x ≠ ' ' := by simpa [hrest] using h
      simp [hx]

theorem pastSpaces_of_none {c : Cursor} (h : c.rest.head? ≠ some ' ') : c.pastSpaces = c := by
  rw [pastSpaces, advanceWhile, run_spaces_of_none h]
  rfl

/-- Moving past spaces. -/
theorem pastSpaces_replicate {n : Nat} (h : rest.head? ≠ some ' ') :
    (Cursor.mk (List.replicate n ' ' ++ rest) i l k).pastSpaces = ⟨rest, i + n, l, k + n⟩ := by
  have hrun : (Cursor.mk (List.replicate n ' ' ++ rest) i l k).run (· = ' ') =
      List.replicate n ' ' := by
    rw [run, List.takeWhile_append_of_pos (by simp)]
    cases rest with
    | nil => simp
    | cons x rest =>
        have hx : x ≠ ' ' := by simpa using h
        simp [hx]
  rw [pastSpaces, advanceWhile, hrun, advanceBy_append]
  · simp
  · intro c hc
    rw [List.eq_of_mem_replicate hc]
    decide

end Cursor

/-! ### The beginnings of lines -/

/-- **The beginnings of lines** behind their indentation: nothing, a letter or a digit, or a hyphen with
a space behind it. -/
inductive Opens : List Char → Prop where
  | nothing : Opens []
  | word {c : Char} {rest : List Char} (h : c.isAlphanum = true) : Opens (c :: rest)
  | entry {rest : List Char} : Opens ('-' :: ' ' :: rest)

theorem IsWord.opens (h : IsWord w) (rest : List Char) : Opens (w ++ rest) := by
  obtain ⟨c, w, rfl, hc⟩ := h.head
  exact .word hc

namespace Opens

variable {rest : List Char} {i l k n : Nat} (h : Opens rest)
include h

theorem head_ne {x : Char} (hx : isWordChar x = false) : rest.head? ≠ some x := by
  cases h with
  | nothing => simp
  | word h => simpa using ne_of_isWordChar (isWordChar_of_isAlphanum h) hx
  | entry => simpa using (ne_of_isWordChar (c := '-') (by decide) hx)

theorem not_at {x : Char} (hx : isWordChar x = false) : (Cursor.mk rest i l k).at? x = false := by
  have hhead := h.head_ne hx
  rw [List.head?_eq_getElem?] at hhead
  exact decide_eq_false hhead

theorem not_atClass_isBreak : (Cursor.mk rest i l k).atClass isBreak = false := by
  cases h with
  | nothing => rfl
  | word h =>
      simpa [Cursor.atClass, Cursor.peek] using isBreak_of_isWordChar (isWordChar_of_isAlphanum h)
  | entry => rfl

theorem not_atMarker : (Cursor.mk (List.replicate n ' ' ++ rest) i l k).atMarker = false := by
  cases n with
  | succ n => simp [Cursor.atMarker, Cursor.atTriple, Cursor.at?, Cursor.peek, List.replicate_succ]
  | zero =>
      cases h with
      | nothing => rfl
      | @word c rest h =>
          have hne := fun {x : Char} (hx : x.isAlphanum = false) => show c ≠ x by
            rintro rfl
            simp [h] at hx
          simp [Cursor.atMarker, Cursor.atTriple, Cursor.at?, Cursor.peek, hne (x := '-') (by decide),
            hne (x := '.') (by decide)]
      | entry => simp [Cursor.atMarker, Cursor.atTriple, Cursor.at?, Cursor.peek]

end Opens

/-! ### Plain scalars -/

namespace Scalar

variable {rest : List Char} {i l k n : Nat}

theorem endsPlain_of_isWordChar (h : isWordChar c = true) (next : Option Char) :
    endsPlain false c next = false := by
  simp [endsPlain, isBlank_of_isWordChar h, isBreak_of_isWordChar h,
    ne_of_isWordChar h (x := ':') (by decide)]

/-- **Words hold no end of a plain scalar.** -/
theorem plainRun_append (h : ∀ c ∈ w, isWordChar c = true) :
    plainRun false (w ++ rest) = w ++ plainRun false rest := by
  induction w with
  | nil => rfl
  | cons c w ih =>
      rw [List.cons_append, plainRun, endsPlain_of_isWordChar (h c (by simp)),
        ih fun c hc => h c (by simp [hc])]
      rfl

/-- The indentation of the next line is read along with the end of a line. -/
theorem furtherBreaks_replicate (h : Opens rest) {fuel : Nat} (hfuel : n < fuel) :
    furtherBreaks fuel (Cursor.mk (List.replicate n ' ' ++ rest) i l k) [] =
      (some [], ⟨rest, i + n, l, k + n⟩) := by
  induction n generalizing fuel i k with
  | zero =>
      obtain ⟨fuel, rfl⟩ : ∃ f, fuel = f + 1 := ⟨fuel - 1, by omega⟩
      have hspace := h.not_at (i := i) (l := l) (k := k) (x := ' ') (by decide)
      simp [furtherBreaks, hspace, h.not_atClass_isBreak]
  | succ n ih =>
      obtain ⟨fuel, rfl⟩ : ∃ f, fuel = f + 1 := ⟨fuel - 1, by omega⟩
      have hat : (Cursor.mk (List.replicate (n + 1) ' ' ++ rest) i l k).at? ' ' = true := by
        simp [Cursor.at?, Cursor.peek, List.replicate_succ]
      rw [furtherBreaks, if_pos hat, List.replicate_succ, List.cons_append,
        Cursor.advance_of_isInLine (by decide), ih (by omega)]
      simp [Nat.add_assoc, Nat.add_comm 1]

/-- A gap is nothing where no line ends and no space stands. -/
theorem plainGap_of_none {c : Cursor} (hspace : c.rest.head? ≠ some ' ')
    (hbreak : c.atClass isBreak = false) : plainGap c = ([], c, false) := by
  simp [plainGap, Cursor.run_spaces_of_none hspace, Cursor.pastSpaces_of_none hspace, hbreak]

/-- A gap at the end of a line counts as a space, and ends at the beginning of the next one. -/
theorem plainGap_of_newline (h : Opens rest) :
    plainGap ⟨'\n' :: (List.replicate n ' ' ++ rest), i, l, k⟩ =
      ([' '], ⟨rest, i + 1 + n, l + 1, n⟩, true) := by
  have hpast : (Cursor.mk ('\n' :: (List.replicate n ' ' ++ rest)) i l k).pastSpaces =
      ⟨'\n' :: (List.replicate n ' ' ++ rest), i, l, k⟩ := rfl
  have hbreak : (Cursor.mk ('\n' :: (List.replicate n ' ' ++ rest)) i l k).atClass isBreak = true := rfl
  simp only [plainGap, hpast, hbreak, Cursor.lineBreak_newline, h.not_atMarker]
  have hfuel : n < (List.replicate n ' ' ++ rest).length + 1 := by
    simp only [List.length_append, List.length_replicate]
    omega
  rw [furtherBreaks_replicate h hfuel]
  simp [fold]

/-- A plain scalar is a word if the gap behind the word ends it. -/
theorem plain_of_gap {indent : Int} {gap : List Char} {c' : Cursor} {fresh : Bool}
    (hw : IsWord w) (hrest : plainRun false rest = [])
    (hgap : plainGap ⟨rest, i + w.length, l, k + w.length⟩ = (gap, c', fresh))
    (hend : gap = [] ∨ (c'.column : Int) < indent) :
    plain false indent ⟨w ++ rest, i, l, k⟩ = (w, c', fresh) := by
  have hat : (Cursor.mk (w ++ rest) i l k).at? '#' = false := (hw.opens rest).not_at (by decide)
  have hrun : plainRun false (w ++ rest) = w := by
    rw [plainRun_append hw.chars, hrest, List.append_nil]
  have hne : w ≠ [] := by
    obtain ⟨c, w, rfl, -⟩ := hw.head
    simp
  have hpast : (Cursor.mk (w ++ rest) i l k).advanceBy w.length =
      ⟨rest, i + w.length, l, k + w.length⟩ :=
    Cursor.advanceBy_append fun c hc => isInLine_of_isWordChar (hw.chars c hc)
  have hend' : gap = [] ∨ c'.at? '#' = true ∨ True ∧ (c'.column : Int) < indent :=
    hend.imp id fun h => .inr ⟨trivial, h⟩
  simp only [plain, plainRuns, hat, Bool.false_eq_true, if_false, hrun, hne, hpast, hgap,
    List.nil_append]
  exact if_pos hend'

/-- **A word before something that ends a plain scalar** is read up to there. -/
theorem plain_of_stop (hw : IsWord w) (hrest : plainRun false rest = [])
    (hspace : rest.head? ≠ some ' ') (hbreak : ∀ x ∈ rest.head?, isBreak x = false)
    (indent : Int) : plain false indent ⟨w ++ rest, i, l, k⟩ =
      (w, ⟨rest, i + w.length, l, k + w.length⟩, false) := by
  refine plain_of_gap hw hrest (plainGap_of_none hspace ?_) (.inl rfl)
  cases rest with
  | nil => rfl
  | cons x rest => simpa [Cursor.atClass, Cursor.peek] using hbreak x

/-- **A word at the end of a line** is read up to there, and the cursor comes to the beginning of the
next line. -/
theorem plain_of_line (hw : IsWord w) (h : Opens rest) {indent : Int} (hindent : (n : Int) < indent) :
    plain false indent ⟨w ++ '\n' :: (List.replicate n ' ' ++ rest), i, l, k⟩ =
      (w, ⟨rest, i + w.length + 1 + n, l + 1, n⟩, true) :=
  plain_of_gap hw rfl (plainGap_of_newline h) (.inr hindent)

end Scalar

end Provision.Yaml
