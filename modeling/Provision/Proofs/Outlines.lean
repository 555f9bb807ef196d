/-
**Outlines.**

An outline is a text of lines that hold a key and perhaps a word, or the hyphen of an entry in front of
these, and whose blocks are indented by two columns each.  The reader goes through an outline line by
line: where a line is indented less than the one before it, blocks end, and where a key stands behind a
hyphen, one begins.

What is read of a line does not depend on what comes behind it, as long as something begins a line
there.  Blocks that end are closed when the next line is reached, so that behind a line the reader may
still owe the ends of some blocks.

Main definitions:

* `Provision.Yaml.Reader.Reads` — reading some tokens;
* `Provision.Yaml.Reader.inside` — the reader inside of some blocks;
* `Provision.Yaml.Reader.Behind` — **the reader behind a line**, with what it has read so far.

Main results:

* `Provision.Yaml.Reader.Reads.exists_fuel` — reading on, as all of the text is read;
* `Provision.Yaml.Reader.reads_key`, `Provision.Yaml.Reader.reads_word` — keys and words;
* `Provision.Yaml.Reader.Behind.heading`, `Provision.Yaml.Reader.Behind.pair`,
  `Provision.Yaml.Reader.Behind.entry` — **the lines of an outline**;
* `Provision.Yaml.Reader.Behind.readAll` — its end.
-/

import Provision.Proofs.Words
import Provision.Yaml.Token.Stream

set_option relaxedAutoImplicit false
set_option autoImplicit false

namespace Provision.Yaml.Reader

/-! ### Reading on -/

/-- **The reader comes from one state to another** by reading tokens, each of which takes some text. -/
inductive Reads : Reader → Reader → Prop where
  | refl (r : Reader) : Reads r r
  | step {r r₁ r₂ : Reader} (first : r.advance = .ok (true, r₁))
      (shorter : r₁.cursor.rest.length < r.cursor.rest.length) (next : Reads r₁ r₂) : Reads r r₂

variable {r r₁ r₂ : Reader}

theorem Reads.trans (h : Reads r r₁) (h' : Reads r₁ r₂) : Reads r r₂ := by
  induction h with
  | refl => exact h'
  | step first shorter _ ih => exact .step first shorter (ih h')

/-- **Reading on is what reading all of the text does first**, as long as it has enough fuel. -/
theorem Reads.exists_fuel (h : Reads r r₁) {fuel : Nat} (hfuel : r.cursor.rest.length < fuel) :
    ∃ fuel', r₁.cursor.rest.length < fuel' ∧ readAll fuel r = readAll fuel' r₁ := by
  induction h generalizing fuel with
  | refl => exact ⟨fuel, hfuel, rfl⟩
  | @step r r₁ r₂ first shorter _ ih =>
      obtain ⟨fuel, rfl⟩ : ∃ f, fuel = f + 1 := ⟨fuel - 1, by omega⟩
      have hshort : r₁.cursor.rest.length < fuel := by omega
      obtain ⟨fuel', hfuel', hread⟩ := ih hshort
      exact ⟨fuel', hfuel', by rw [readAll, first]; exact hread⟩

/-- The next token starts where the blanks end. -/
theorem advance_eq {x : Char} {rest : List Char} (happroach : r.approach = .ok r₁)
    (hrest : r₁.cursor.rest = x :: rest) (hfetch : r₁.fetch x = .ok r₂) :
    r.advance = .ok (true, r₂) := by
  have hpeek : r₁.cursor.peek = some x := by simp [Cursor.peek, hrest]
  simp [advance, happroach, hpeek, hfetch, bind, Except.bind, pure, Except.pure]

/-! ### Blanks -/

section

variable {rest w : List Char} {i l k n fuel : Nat} {emitted : List Token} {indent : Int}
  {indents : List Int} {allowed : Bool} {pending : Option PendingKey}

theorem skipBlanks_of_none (hspace : r.cursor.rest.head? ≠ some ' ')
    (hmark : r.cursor.at? '#' = false) (hbreak : r.cursor.atClass isBreak = false) :
    skipBlanks (fuel + 1) r = r := by
  simp [skipBlanks, Cursor.pastSpaces_of_none hspace, hmark, hbreak]

/-- Spaces before the beginning of something are skipped, -/
theorem skipBlanks_replicate (h : Opens rest) :
    skipBlanks (fuel + 1) ⟨⟨List.replicate n ' ' ++ rest, i, l, k⟩, emitted, indent, indents,
      allowed, pending, []⟩ =
      ⟨⟨rest, i + n, l, k + n⟩, emitted, indent, indents, allowed, pending, []⟩ := by
  have hpast := Cursor.pastSpaces_replicate (i := i) (l := l) (k := k) (n := n)
    (h.head_ne (x := ' ') (by decide))
  simp [skipBlanks, hpast, h.not_at (x := '#') (by decide), h.not_atClass_isBreak]

/-- and so is the end of a line, behind which a key may start. -/
theorem skipBlanks_newline (h : Opens rest) :
    skipBlanks (fuel + 2) ⟨⟨'\n' :: (List.replicate n ' ' ++ rest), i, l, k⟩, emitted, indent,
      indents, allowed, pending, []⟩ =
      ⟨⟨rest, i + 1 + n, l + 1, n⟩, emitted, indent, indents, true, pending, []⟩ := by
  have hpast : (Cursor.mk ('\n' :: (List.replicate n ' ' ++ rest)) i l k).pastSpaces =
      ⟨'\n' :: (List.replicate n ' ' ++ rest), i, l, k⟩ := rfl
  have hmark : (Cursor.mk ('\n' :: (List.replicate n ' ' ++ rest)) i l k).at? '#' = false := rfl
  have hbreak : (Cursor.mk ('\n' :: (List.replicate n ' ' ++ rest)) i l k).atClass isBreak = true := rfl
  rw [skipBlanks]
  simp only [hpast, hmark, hbreak, Bool.false_eq_true, if_false, if_true, Cursor.lineBreak_newline]
  have hallowed : (allowed || !inFlow ⟨⟨'\n' :: (List.replicate n ' ' ++ rest), i, l, k⟩, emitted,
      indent, indents, allowed, pending, []⟩) = true := by simp [inFlow]
  rw [hallowed, skipBlanks_replicate h]
  simp

/-! ### Blocks -/

/-- The columns of the blocks around one that is `depth` deep. -/
def columns : Nat → List Int
  | 0 => [-1]
  | depth + 1 => (2 * depth : Nat) :: columns depth

/-- **The reader inside of blocks**, each of which is indented by two columns more than the one around
it. -/
def inside (depth : Nat) (cursor : Cursor) (emitted : List Token) (allowed : Bool) : Reader where
  cursor := cursor
  emitted := emitted
  indent := (2 * depth : Nat)
  indents := columns depth
  keyAllowed := allowed

/-- Closing blocks takes no text. -/
theorem unwind_cursor (r : Reader) (column : Int) : (r.unwind column).cursor = r.cursor := by
  have hfrom : ∀ (indents : List Int) (r : Reader),
      (unwindFrom column indents r).cursor = r.cursor := by
    intro indents
    induction indents with
    | nil => exact fun r => rfl
    | cons outer rest ih =>
        intro r
        rw [unwindFrom]
        split
        · rw [ih]
        · rfl
  unfold unwind
  split
  · rfl
  · exact hfrom _ _

/-- Nothing ends at the indentation of the innermost block. -/
theorem unwind_of_le {column : Int} (h : r.indent ≤ column) : r.unwind column = r := by
  have hnot : ¬r.indent > column := by omega
  unfold unwind
  split
  · rfl
  · cases hindents : r.indents with
    | nil => rfl
    | cons outer rest => rw [unwindFrom, if_neg hnot]

/-- A block that is indented further than a column ends there. -/
theorem unwind_succ {depth : Nat} {cursor : Cursor} {column : Int}
    (h : column < ((2 * (depth + 1) : Nat) : Int)) :
    (inside (depth + 1) cursor emitted allowed).unwind column =
      (inside depth cursor (.blockEnd :: emitted) allowed).unwind column := by
  have hdeep : (inside (depth + 1) cursor emitted allowed).indent > column := h
  show unwindFrom _ (columns (depth + 1)) _ = unwindFrom _ (columns depth) _
  rw [columns, unwindFrom, if_pos hdeep]
  rfl

/-- All blocks that are indented further than a column end there. -/
theorem unwind_inside (depth owed : Nat) (cursor : Cursor) :
    (inside (depth + owed) cursor emitted allowed).unwind ((2 * depth : Nat) : Int) =
      inside depth cursor (List.replicate owed .blockEnd ++ emitted) allowed := by
  induction owed generalizing emitted with
  | zero => exact unwind_of_le (by simp [inside])
  | succ owed ih =>
      rw [← Nat.add_assoc, unwind_succ (by omega), ih, List.replicate_succ', List.append_assoc]
      rfl

/-- At the end of the text all blocks end, wherever the last line ends. -/
theorem unwind_end (depth : Nat) (cursor : Cursor) (column : Nat) :
    ((inside depth cursor emitted allowed).unwind column).unwind (-1) =
      { inside depth cursor (List.replicate (depth + 1) .blockEnd ++ emitted) allowed with
        indent := -1, indents := [] } := by
  induction depth generalizing emitted with
  | zero =>
      have hkept : (inside 0 cursor emitted allowed).unwind column = inside 0 cursor emitted allowed :=
        unwind_of_le (by simp [inside])
      rw [hkept]
      rfl
  | succ depth ih =>
      have hall : ((inside (depth + 1) cursor emitted allowed).unwind column).unwind (-1) =
          ((inside depth cursor (.blockEnd :: emitted) allowed).unwind column).unwind (-1) := by
        by_cases hcolumn : (column : Int) < ((2 * (depth + 1) : Nat) : Int)
        · rw [unwind_succ hcolumn]
        · have hkept : (inside (depth + 1) cursor emitted allowed).unwind column =
              inside (depth + 1) cursor emitted allowed :=
            unwind_of_le (by simp only [inside]; omega)
          have hkept' : (inside depth cursor (.blockEnd :: emitted) allowed).unwind column =
              inside depth cursor (.blockEnd :: emitted) allowed :=
            unwind_of_le (by simp only [inside]; omega)
          rw [hkept, hkept', unwind_succ (by omega)]
      rw [hall, ih, List.replicate_succ' (n := depth + 1), List.append_assoc]
      rfl

/-! ### The next token -/

/-- Where no key is expected, the next token is reached by skipping blanks and closing blocks. -/
theorem approach_eq (hskip : skipBlanks (r.cursor.rest.length + 1) r = r₁)
    (hpending : r₁.pending = none) (houter : r₁.outer = []) :
    r.approach = .ok (r₁.unwind r₁.cursor.column) := by
  have hexpire : r₁.expireKeys = .ok r₁ := by
    obtain ⟨cursor, emitted, indent, indents, allowed, pending, outer⟩ := r₁
    obtain rfl : pending = none := hpending
    obtain rfl : outer = [] := houter
    rfl
  rw [approach, hskip, hexpire]
  rfl

/-- The characters that a token of another kind may start with. -/
def marks : List Char :=
  [',', '[', ']', '\x7b', '\x7d', '-', '?', ':', '#', '&', '*', '!', '|', '>', '\x27', '\x22', '%',
    '@', '\x60', '.']

/-- A letter or digit starts a plain scalar. -/
theorem fetch_of_isAlphanum {x : Char} (hx : x.isAlphanum = true) (hpeek : r.cursor.peek = some x) :
    r.fetch x = r.fetchPlain := by
  have hmarks : ∀ y ∈ marks, x ≠ y := by
    rintro y hy rfl
    have hnot : marks.all (fun y => !y.isAlphanum) = true := rfl
    have hother : x.isAlphanum = false := by simpa using List.all_eq_true.1 hnot x hy
    simp [hother] at hx
  simp only [marks, List.forall_mem_cons, List.not_mem_nil, false_implies, implies_true,
    and_true] at hmarks
  have hword := isWordChar_of_isAlphanum hx
  have hplain : r.startsPlain = true := by
    simp [startsPlain, hpeek, isBlank_of_isWordChar hword, isBreak_of_isWordChar hword, isIndicator,
      isFlowIndicator, hmarks]
  simp [fetch, Cursor.atTriple, Cursor.at?, hpeek, hplain, hmarks]

/-- **A word is read as a plain scalar.** -/
theorem fetchPlain_eq {c : Cursor} {text : List Char} {c' : Cursor} {fresh : Bool}
    (hplain : Scalar.plain false (indent + 1) c = (text, c', fresh)) :
    (Reader.mk c emitted indent indents false none []).fetchPlain =
      .ok ⟨c', .scalar (String.ofList text) :: emitted, indent, indents, fresh, none, []⟩ := by
  simp [fetchPlain, saveKey, inFlow, hplain, bind, Except.bind, pure, Except.pure]

/-- Where a key may start, its place is kept. -/
theorem fetchPlain_key_eq {c : Cursor} {text : List Char} {c' : Cursor} {fresh : Bool}
    (hplain : Scalar.plain false (indent + 1) c = (text, c', fresh)) :
    (Reader.mk c emitted indent indents true none []).fetchPlain =
      .ok ⟨c', .scalar (String.ofList text) :: emitted, indent, indents, fresh,
        some ⟨emitted.length, decide (indent = (c.column : Int)), c.index, c.line, c.column⟩, []⟩ := by
  simp [fetchPlain, saveKey, dropKey, inFlow, hplain, bind, Except.bind, pure, Except.pure]

/-- The colon behind a possible key makes it one, -/
theorem fetchValue_eq {c : Cursor} {text : Token} {required : Bool} {index line column : Nat}
    (hindent : indent = (column : Int)) :
    (Reader.mk c (text :: emitted) indent indents false
        (some ⟨emitted.length, required, index, line, column⟩) []).fetchValue =
      .ok ⟨c.advance, .value :: text :: .key :: emitted, indent, indents, false, none, []⟩ := by
  simp [fetchValue, insertAt, opensBlock, hindent, pure, Except.pure, inFlow]

/-- and starts a mapping, if the key is indented further than the innermost block. -/
theorem fetchValue_open_eq {c : Cursor} {text : Token} {required : Bool} {index line column : Nat}
    (hindent : indent < (column : Int)) :
    (Reader.mk c (text :: emitted) indent indents false
        (some ⟨emitted.length, required, index, line, column⟩) []).fetchValue =
      .ok ⟨c.advance, .value :: text :: .key :: .blockMappingStart :: emitted, column,
        indent :: indents, false, none, []⟩ := by
  have hlate : emitted.length + 1 + 1 - emitted.length = 2 := by omega
  simp [fetchValue, insertAt, opensBlock, openBlock, hindent, hlate, pure, Except.pure, inFlow]

/-- What may stand behind the colon of a key. -/
def Separates (rest : List Char) : Prop := (rest.head?).all (fun x => isBlank x || isBreak x) = true

theorem separates_space : Separates (' ' :: rest) := rfl

/-- The reader at the colon behind a key. -/
theorem advance_colon {key : List Char} {emitted : List Token} {required allowed : Bool}
    (hlong : key.length ≤ 1024) (hseparates : Separates rest) {r₂ : Reader}
    (hindent : indent ≤ k + key.length)
    (hvalue : (Reader.mk ⟨':' :: rest, i + key.length, l, k + key.length⟩ emitted indent indents allowed
      (some ⟨n, required, i, l, k⟩) []).fetchValue = .ok r₂) :
    (Reader.mk ⟨':' :: rest, i + key.length, l, k + key.length⟩ emitted indent indents allowed
      (some ⟨n, required, i, l, k⟩) []).advance = .ok (true, r₂) := by
  generalize hr : Reader.mk ⟨':' :: rest, i + key.length, l, k + key.length⟩ emitted indent indents
    allowed (some ⟨n, required, i, l, k⟩) [] = r at hvalue
  have hskip : skipBlanks (r.cursor.rest.length + 1) r = r := by
    subst hr
    exact skipBlanks_of_none (by simp) rfl rfl
  have hexpire : r.expireKeys = .ok r := by
    subst hr
    have hreaches : (PendingKey.mk n required i l k).reaches
        ⟨':' :: rest, i + key.length, l, k + key.length⟩ = true := by
      simp [PendingKey.reaches, hlong]
    simp [expireKeys, expire, hreaches, bind, Except.bind, pure, Except.pure]
  have hunwind : r.unwind r.cursor.column = r := by
    subst hr
    exact unwind_of_le (by simpa using hindent)
  have happroach : r.approach = .ok r := by
    rw [approach, hskip, hexpire]
    exact congrArg Except.ok hunwind
  have hcolon : r.cursor.rest = ':' :: rest := by rw [← hr]
  refine advance_eq happroach hcolon ?_
  rw [← hvalue]
  have hseparator : r.cursor.atSeparator 1 = true := by
    subst hr
    rw [Separates, List.head?_eq_getElem?] at hseparates
    exact hseparates
  have hdash : r.cursor.atTriple '-' = false := by
    subst hr
    rfl
  have hdot : r.cursor.atTriple '.' = false := by
    subst hr
    rfl
  simp [fetch, hseparator, hdash, hdot]

/-! ### Keys and words -/

/-- A key is a word up to its colon. -/
theorem advance_key {key : List Char} (hkey : IsWord key) (hseparates : Separates rest)
    (happroach : r.approach =
      .ok ⟨⟨key ++ ':' :: rest, i, l, k⟩, emitted, indent, indents, true, none, []⟩) :
    r.advance = .ok (true, ⟨⟨':' :: rest, i + key.length, l, k + key.length⟩,
      .scalar (String.ofList key) :: emitted, indent, indents, false,
      some ⟨emitted.length, decide (indent = (k : Int)), i, l, k⟩, []⟩) := by
  obtain ⟨x, key', hx, halnum⟩ := hkey.head
  have hstop : Scalar.plainRun false (':' :: rest) = [] := by
    have hend : Scalar.endsPlain false ':' rest.head? = true := by
      have hnext : rest.head?.all (fun x => isBlank x || isBreak x) = true := hseparates
      simp [Scalar.endsPlain, hnext]
    rw [Scalar.plainRun, if_pos hend]
  have hplain := Scalar.plain_of_stop (i := i) (l := l) (k := k) hkey hstop (by simp)
    (by simp [isBreak]) (indent + 1)
  have hhead : key ++ ':' :: rest = x :: (key' ++ ':' :: rest) := by
    rw [hx, List.cons_append]
  refine advance_eq happroach hhead ?_
  rw [fetch_of_isAlphanum halnum (by rw [hx]; rfl)]
  exact fetchPlain_key_eq hplain

/-- **A key is read up to behind its colon**, which decides what becomes of it. -/
theorem reads_key {key : List Char} (hkey : IsWord key) (hlong : key.length ≤ 1024)
    (hseparates : Separates rest) (hindent : indent ≤ k)
    (happroach : r.approach =
      .ok ⟨⟨key ++ ':' :: rest, i, l, k⟩, emitted, indent, indents, true, none, []⟩)
    (hlength : (key ++ ':' :: rest).length ≤ r.cursor.rest.length)
    (hvalue : (Reader.mk ⟨':' :: rest, i + key.length, l, k + key.length⟩
      (.scalar (String.ofList key) :: emitted) indent indents false
      (some ⟨emitted.length, decide (indent = (k : Int)), i, l, k⟩) []).fetchValue = .ok r₂)
    (hrest : r₂.cursor.rest = rest) : Reads r r₂ := by
  have hpos : 0 < key.length := by
    obtain ⟨x, key', rfl, -⟩ := hkey.head
    simp
  have hshorter : (':' :: rest).length < r.cursor.rest.length := by
    simp only [List.length_append, List.length_cons] at hlength ⊢
    omega
  refine .step (advance_key hkey hseparates happroach) hshorter ?_
  refine .step (advance_colon hlong hseparates (by omega) hvalue) ?_ (.refl _)
  simp [hrest]

/-- A key of the innermost block, -/
theorem reads_key_inside {depth : Nat} {key : List Char} (hkey : IsWord key) (hlong : key.length ≤ 1024)
    (hseparates : Separates rest)
    (happroach : r.approach =
      .ok (inside depth ⟨key ++ ':' :: rest, i, l, 2 * depth⟩ emitted true))
    (hlength : (key ++ ':' :: rest).length ≤ r.cursor.rest.length) :
    ∃ i k, 2 * depth ≤ k ∧ Reads r (inside depth ⟨rest, i, l, k⟩
      (.value :: .scalar (String.ofList key) :: .key :: emitted) false) := by
  exact ⟨_, 2 * depth + key.length + 1, by omega, reads_key hkey hlong hseparates
    (Int.le_refl _) happroach hlength (fetchValue_eq rfl) rfl⟩

/-- and one that is indented further, with which a block begins. -/
theorem reads_key_open {depth : Nat} {key : List Char} (hkey : IsWord key) (hlong : key.length ≤ 1024)
    (hseparates : Separates rest)
    (happroach : r.approach =
      .ok (inside depth ⟨key ++ ':' :: rest, i, l, 2 * (depth + 1)⟩ emitted true))
    (hlength : (key ++ ':' :: rest).length ≤ r.cursor.rest.length) :
    ∃ i k, 2 * (depth + 1) ≤ k ∧ Reads r (inside (depth + 1) ⟨rest, i, l, k⟩
      (.value :: .scalar (String.ofList key) :: .key :: .blockMappingStart :: emitted) false) := by
  have hdeeper : ((2 * depth : Nat) : Int) < ((2 * (depth + 1) : Nat) : Int) := by omega
  exact ⟨_, 2 * (depth + 1) + key.length + 1, by omega, reads_key hkey hlong hseparates
    (Int.le_of_lt hdeeper) happroach hlength (fetchValue_open_eq hdeeper) rfl⟩

/-- **What may stand behind a line** inside of some blocks: nothing, or the end of the line and a line
that is indented no further than the innermost block. -/
inductive Continues (depth : Nat) : List Char → Prop where
  | nothing : Continues depth []
  | line {n : Nat} {rest : List Char} (hn : n ≤ 2 * depth) (opens : Opens rest) :
      Continues depth ('\n' :: (List.replicate n ' ' ++ rest))

theorem Continues.separates {depth : Nat} {tail : List Char} (h : Continues depth tail) :
    Separates tail := by
  cases h <;> rfl

/-- **The reader behind the last token of a line**: it is there, or has come to the beginning of the
next line already. -/
inductive Ends (tail : List Char) (depth : Nat) (emitted : List Token) : Reader → Prop where
  | before {i l k : Nat} {allowed : Bool} :
      Ends tail depth emitted (inside depth ⟨tail, i, l, k⟩ emitted allowed)
  | behind {n i l : Nat} {rest : List Char} (line : tail = '\n' :: (List.replicate n ' ' ++ rest))
      (opens : Opens rest) : Ends tail depth emitted (inside depth ⟨rest, i, l, n⟩ emitted true)

/-- **A word behind a colon is read up to the end of its line.** -/
theorem reads_word {depth : Nat} {tail : List Char} (hw : IsWord w) (htail : Continues depth tail)
    (hk : 2 * depth ≤ k) :
    ∃ r', Reads (inside depth ⟨' ' :: (w ++ tail), i, l, k⟩ emitted false) r' ∧
      Ends tail depth (.scalar (String.ofList w) :: emitted) r' := by
  obtain ⟨x, w', hx, halnum⟩ := hw.head
  have happroach : (inside depth ⟨' ' :: (w ++ tail), i, l, k⟩ emitted false).approach =
      .ok (inside depth ⟨w ++ tail, i + 1, l, k + 1⟩ emitted false) := by
    refine (approach_eq (skipBlanks_replicate (n := 1) (hw.opens tail)) rfl rfl).trans ?_
    exact congrArg Except.ok (unwind_of_le (by simp only; omega))
  have hfetch : (inside depth ⟨w ++ tail, i + 1, l, k + 1⟩ emitted false).fetch x =
      (inside depth ⟨w ++ tail, i + 1, l, k + 1⟩ emitted false).fetchPlain :=
    fetch_of_isAlphanum halnum (by rw [hx]; rfl)
  have hrest : (inside depth ⟨w ++ tail, i + 1, l, k + 1⟩ emitted false).cursor.rest =
      x :: (w' ++ tail) := by
    rw [hx]
    rfl
  cases htail with
  | nothing =>
      have hplain : Scalar.plain false (((2 * depth : Nat) : Int) + 1) ⟨w ++ [], i + 1, l, k + 1⟩ =
          (w, ⟨[], i + 1 + w.length, l, k + 1 + w.length⟩, false) :=
        Scalar.plain_of_stop hw rfl (by simp) (by simp) _
      refine ⟨_, .step (advance_eq happroach hrest (hfetch.trans (fetchPlain_eq hplain))) ?_
        (.refl _), .before⟩
      simp [inside]
  | @line n rest hn hopens =>
      have hindent : (n : Int) < ((2 * depth : Nat) : Int) + 1 := by omega
      have hplain := Scalar.plain_of_line (i := i + 1) (l := l) (k := k + 1) hw hopens hindent
      refine ⟨_, .step (advance_eq happroach hrest (hfetch.trans (fetchPlain_eq hplain))) ?_
        (.refl _), .behind rfl hopens⟩
      simp only [inside, List.length_cons, List.length_append, List.length_replicate]
      omega

/-! ### Lines -/

/-- **The reader behind a line** inside of `depth` blocks, or of more that end here: `done` is what it
has read so far, with the ends of these blocks. -/
def Behind (tail : List Char) (depth : Nat) (done : List Token) (r : Reader) : Prop :=
  ∃ owed emitted, Ends tail (depth + owed) emitted r ∧
    done = emitted.reverse ++ List.replicate owed .blockEnd

/-- A block may end behind a line. -/
theorem Behind.close {tail : List Char} {depth : Nat} {done : List Token}
    (h : Behind tail (depth + 1) done r) : Behind tail depth (done ++ [.blockEnd]) r := by
  obtain ⟨owed, emitted, hends, rfl⟩ := h
  refine ⟨owed + 1, emitted, ?_, ?_⟩
  · rwa [Nat.add_assoc, Nat.add_comm 1] at hends
  · rw [List.append_assoc, List.replicate_succ']

/-- A line of an outline: the end of the one before it, and its indentation. -/
def line (depth : Nat) (content : List Char) : List Char :=
  '\n' :: (List.replicate (2 * depth) ' ' ++ content)

/-- Where a line begins shows how far it is indented. -/
theorem eq_of_replicate_append {n m : Nat} {a b : List Char} (ha : Opens a) (hb : Opens b)
    (h : List.replicate n ' ' ++ a = List.replicate m ' ' ++ b) : n = m ∧ a = b := by
  induction n generalizing m with
  | zero =>
      cases m with
      | zero => exact ⟨rfl, h⟩
      | succ m =>
          have ha' : a = ' ' :: (List.replicate m ' ' ++ b) := h
          have hspace : Opens (' ' :: (List.replicate m ' ' ++ b)) := ha' ▸ ha
          exact absurd rfl (hspace.head_ne (x := ' ') (by decide))
  | succ n ih =>
      cases m with
      | zero =>
          have hb' : b = ' ' :: (List.replicate n ' ' ++ a) := h.symm
          have hspace : Opens (' ' :: (List.replicate n ' ' ++ a)) := hb' ▸ hb
          exact absurd rfl (hspace.head_ne (x := ' ') (by decide))
      | succ m =>
          obtain ⟨rfl, rfl⟩ := ih (List.cons.inj h).2
          exact ⟨rfl, rfl⟩

/-- A line continues the one before it unless it is indented further. -/
theorem continues_line {depth inner : Nat} {content : List Char} (h : depth ≤ inner)
    (hopens : Opens content) : Continues inner (line depth content) :=
  .line (by omega) hopens

theorem Continues.mono {depth inner : Nat} {tail : List Char} (h : Continues depth tail)
    (hle : depth ≤ inner) : Continues inner tail := by
  cases h with
  | nothing => exact .nothing
  | line hn hopens => exact .line (by omega) hopens

theorem continues_flatMap {α : Type} {depth : Nat} {items : List α} {textOf : α → List Char}
    {tail : List Char} (hcontinues : ∀ x ∈ items, ∀ tail, Continues depth (textOf x ++ tail))
    (htail : Continues depth tail) : Continues depth (items.flatMap textOf ++ tail) := by
  cases items with
  | nil => exact htail
  | cons x items =>
      rw [List.flatMap_cons, List.append_assoc]
      exact hcontinues x (by simp) _

/-- **A line is reached** by closing the blocks that end before it. -/
theorem Behind.approach {content : List Char} {depth : Nat} {done : List Token}
    (h : Behind (line depth content) depth done r) (hopens : Opens content) :
    ∃ i l, r.approach = .ok (inside depth ⟨content, i, l, 2 * depth⟩ done.reverse true) ∧
      content.length ≤ r.cursor.rest.length := by
  obtain ⟨owed, emitted, hends, rfl⟩ := h
  -- in both states the blanks end at the content of the line
  obtain ⟨i, l, hskip, hlength⟩ : ∃ i l, skipBlanks (r.cursor.rest.length + 1) r =
      inside (depth + owed) ⟨content, i, l, 2 * depth⟩ emitted true ∧
        content.length ≤ r.cursor.rest.length := by
    cases hends with
    | before =>
        refine ⟨_, _, skipBlanks_newline hopens, ?_⟩
        simp only [inside, line, List.length_cons, List.length_append, List.length_replicate]
        omega
    | behind hline hopens' =>
        obtain ⟨rfl, rfl⟩ := eq_of_replicate_append hopens hopens' (List.cons.inj hline).2
        exact ⟨_, _, skipBlanks_of_none (hopens.head_ne (by decide)) (hopens.not_at (by decide))
          hopens.not_atClass_isBreak, Nat.le_refl _⟩
  refine ⟨i, l, ?_, hlength⟩
  rw [approach_eq hskip rfl rfl]
  refine congrArg Except.ok ((unwind_inside depth owed _).trans ?_)
  simp

/-- The hyphen of an entry of the innermost block. -/
theorem fetchEntry_eq {c : Cursor} (hindent : indent = (c.column : Int)) :
    (Reader.mk c emitted indent indents true none []).fetchEntry =
      .ok ⟨c.advance, .blockEntry :: emitted, indent, indents, true, none, []⟩ := by
  simp [fetchEntry, inFlow, opensBlock, hindent, dropKey, bind, Except.bind, pure, Except.pure]

theorem fetch_entry (depth : Nat) :
    (inside depth ⟨'-' :: ' ' :: rest, i, l, 2 * depth⟩ emitted true).fetch '-' =
      .ok (inside depth ⟨' ' :: rest, i + 1, l, 2 * depth + 1⟩ (.blockEntry :: emitted) true) := by
  refine Eq.trans ?_ (fetchEntry_eq (c := ⟨'-' :: ' ' :: rest, i, l, 2 * depth⟩) rfl)
  simp [fetch, inside, Cursor.atTriple, Cursor.at?, Cursor.peek, Cursor.atSeparator, Cursor.atEndOr,
    isBlank]

namespace Behind

variable {depth : Nat} {done : List Token} {tail key : List Char}

/-- The reader behind the last token of a line is behind the line. -/
theorem of_ends {emitted : List Token} (h : Ends tail depth emitted r)
    (hdone : done = emitted.reverse) : Behind tail depth done r :=
  ⟨0, emitted, h, by simp [hdone]⟩

/-- **A line with a key alone.** -/
theorem heading (h : Behind (line depth (key ++ ':' :: tail)) depth done r) (hkey : IsWord key)
    (hlong : key.length ≤ 1024) (htail : Continues depth tail) :
    ∃ r', Reads r r' ∧ Behind tail depth (done ++ [.key, .scalar (String.ofList key), .value]) r' := by
  obtain ⟨i, l, happroach, hlength⟩ := h.approach (hkey.opens _)
  obtain ⟨i, k, -, hreads⟩ := reads_key_inside hkey hlong htail.separates happroach hlength
  exact ⟨_, hreads, .of_ends .before (by simp)⟩

/-- **A line with a key and a word.** -/
theorem pair (h : Behind (line depth (key ++ ':' :: ' ' :: (w ++ tail))) depth done r)
    (hkey : IsWord key) (hlong : key.length ≤ 1024) (hw : IsWord w) (htail : Continues depth tail) :
    ∃ r', Reads r r' ∧ Behind tail depth
      (done ++ [.key, .scalar (String.ofList key), .value, .scalar (String.ofList w)]) r' := by
  obtain ⟨i, l, happroach, hlength⟩ := h.approach (hkey.opens _)
  obtain ⟨i, k, hk, hreads⟩ := reads_key_inside hkey hlong separates_space happroach hlength
  obtain ⟨r', hword, hends⟩ := reads_word hw htail hk
  exact ⟨r', hreads.trans hword, .of_ends hends (by simp)⟩

/-- **A line with a key and a word behind the hyphen of an entry**, with which a block begins. -/
theorem entry
    (h : Behind (line depth ('-' :: ' ' :: (key ++ ':' :: ' ' :: (w ++ tail)))) depth done r)
    (hkey : IsWord key) (hlong : key.length ≤ 1024) (hw : IsWord w)
    (htail : Continues (depth + 1) tail) :
    ∃ r', Reads r r' ∧ Behind tail (depth + 1) (done ++ [.blockEntry, .blockMappingStart, .key,
      .scalar (String.ofList key), .value, .scalar (String.ofList w)]) r' := by
  obtain ⟨i, l, happroach, hlength⟩ := h.approach .entry
  have hentry := advance_eq happroach rfl (fetch_entry depth)
  have happroach' : (inside depth ⟨' ' :: (key ++ ':' :: ' ' :: (w ++ tail)), i + 1, l, 2 * depth + 1⟩
      (.blockEntry :: done.reverse) true).approach =
        .ok (inside depth ⟨key ++ ':' :: ' ' :: (w ++ tail), i + 2, l, 2 * (depth + 1)⟩
          (.blockEntry :: done.reverse) true) := by
    refine (approach_eq (skipBlanks_replicate (n := 1) (hkey.opens _)) rfl rfl).trans ?_
    exact congrArg Except.ok (unwind_of_le (by simp only; omega))
  obtain ⟨i, k, hk, hreads⟩ :=
    reads_key_open hkey hlong separates_space happroach' (Nat.le_succ _)
  obtain ⟨r', hword, hends⟩ := reads_word hw htail hk
  refine ⟨r', .step hentry ?_ (hreads.trans hword), .of_ends hends (by simp)⟩
  exact Nat.lt_of_succ_le hlength

/-- **Blocks of lines one after the other**, if each of them is read wherever it stands. -/
theorem flatMap {α : Type} {items : List α} {textOf : α → List Char} (tokensOf : α → List Token)
    (hcontinues : ∀ x ∈ items, ∀ tail, Continues depth (textOf x ++ tail))
    (hitem : ∀ x ∈ items, ∀ tail done r, Behind (textOf x ++ tail) depth done r →
      Continues depth tail → ∃ r', Reads r r' ∧ Behind tail depth (done ++ tokensOf x) r')
    (h : Behind (items.flatMap textOf ++ tail) depth done r) (htail : Continues depth tail) :
    ∃ r', Reads r r' ∧ Behind tail depth (done ++ items.flatMap tokensOf) r' := by
  induction items generalizing done r with
  | nil => exact ⟨r, .refl r, by simpa using h⟩
  | cons x items ih =>
      obtain ⟨hcontinues, hcontinues'⟩ := List.forall_mem_cons.1 hcontinues
      obtain ⟨hitem, hitem'⟩ := List.forall_mem_cons.1 hitem
      rw [List.flatMap_cons, List.append_assoc] at h
      obtain ⟨r₁, hreads, h₁⟩ := hitem _ _ _ h (continues_flatMap hcontinues' htail)
      obtain ⟨r₂, hreads', h₂⟩ := ih hcontinues' hitem' h₁
      refine ⟨r₂, hreads.trans hreads', ?_⟩
      rwa [List.append_assoc, ← List.flatMap_cons] at h₂

/-- **The first line of an outline**, a key alone, with which the outermost block begins. -/
theorem start (hkey : IsWord key) (hlong : key.length ≤ 1024) (htail : Continues 0 tail) :
    ∃ r', Reads { cursor := ⟨key ++ ':' :: tail, 0, 0, 0⟩ } r' ∧
      Behind tail 0 [.blockMappingStart, .key, .scalar (String.ofList key), .value] r' := by
  have hopens := hkey.opens (':' :: tail)
  have happroach : Reader.approach { cursor := ⟨key ++ ':' :: tail, 0, 0, 0⟩ } =
      .ok { cursor := ⟨key ++ ':' :: tail, 0, 0, 0⟩ } := by
    refine (approach_eq (skipBlanks_of_none (hopens.head_ne (by decide)) (hopens.not_at (by decide))
      hopens.not_atClass_isBreak) rfl rfl).trans ?_
    exact congrArg Except.ok (unwind_of_le (by simp))
  have hreads := reads_key hkey hlong htail.separates (by simp) happroach (Nat.le_refl _)
    (fetchValue_open_eq (by simp)) rfl
  exact ⟨_, hreads, .of_ends .before (by simp)⟩

end Behind

/-- **The end of an outline**: all blocks end. -/
theorem Behind.readAll {tail : List Char} {done : List Token} (h : Behind tail 0 done r)
    (htail : tail = [] ∨ tail = ['\n']) {fuel : Nat} (hfuel : 0 < fuel) :
    readAll fuel r = ⟨done ++ [.blockEnd], none⟩ := by
  obtain ⟨owed, emitted, hends, rfl⟩ := h
  obtain ⟨fuel, rfl⟩ : ∃ f, fuel = f + 1 := ⟨fuel - 1, by omega⟩
  -- only blanks are left
  obtain ⟨i, l, k, allowed, hskip⟩ : ∃ i l k allowed, skipBlanks (r.cursor.rest.length + 1) r =
      inside owed ⟨[], i, l, k⟩ emitted allowed := by
    rw [Nat.zero_add] at hends
    obtain rfl | rfl := htail
    · cases hends with
      | before => exact ⟨_, _, _, _, skipBlanks_of_none (by simp [inside]) rfl rfl⟩
      | behind hline _ => cases hline
    · cases hends with
      | before => exact ⟨_, _, _, _, skipBlanks_newline (n := 0) .nothing⟩
      | behind hline hopens =>
          obtain ⟨rfl, rfl⟩ := eq_of_replicate_append (n := 0) .nothing hopens (List.cons.inj hline).2
          exact ⟨_, _, _, _, skipBlanks_of_none (by simp [inside]) rfl rfl⟩
  have happroach := approach_eq hskip rfl rfl
  have hpeek : ((inside owed ⟨[], i, l, k⟩ emitted allowed).unwind k).cursor.peek = none := by
    rw [unwind_cursor]
    rfl
  have hadvance : r.advance = .ok (false,
      { inside owed ⟨[], i, l, k⟩ (List.replicate (owed + 1) .blockEnd ++ emitted) allowed with
        indent := -1, indents := [] }) := by
    simp only [advance, happroach, bind, Except.bind]
    rw [show (inside owed ⟨[], i, l, k⟩ emitted allowed).cursor.column = k from rfl, hpeek]
    dsimp only
    rw [unwind_end]
    rfl
  rw [Reader.readAll, hadvance]
  simp [inside, List.replicate_succ]

end

end Provision.Yaml.Reader
