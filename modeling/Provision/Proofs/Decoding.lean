/-
**Quoted text and command lines are read back.**

Messages put a command line between quotes, and the command line has its words quoted for the shell.
Both are undone from the front of a text, whatever stands behind: no character of the quoted text is
taken for its end, because the quote is escaped wherever it occurs, and a word ends only at a blank
outside quotes.

Main results:

* `Provision.Text.Quoted.read?_encode` — **quoted text is read back**, and what stands behind it;
* `Provision.Shell.split_join` — **a command line is split into the words that it was made from**.
-/

import Mathlib
import Provision.Proofs.Scripts
import Provision.Shell.Split
import Provision.Text.Quoted.Reader

set_option relaxedAutoImplicit false
set_option autoImplicit false

namespace Provision

/-! ### Quoted text -/

namespace Text.Quoted

/-- Each digit is read as its value. -/
theorem hexValue?_digitChar {n : Nat} (h : n < 16) : hexValue? (Nat.digitChar n) = some n := by
  have hall : ∀ k : Fin 16, hexValue? (Nat.digitChar k) = some k.val := by decide
  exact hall ⟨n, h⟩

/-- Digits with at least one more behind them are read as their number. -/
theorem readBody?_hexDigits (q : Char) (width more k n : Nat) (h : n < 16 ^ width)
    (s : List Char) :
    readBody? q (.code (width + more) k) (hexDigits width n ++ s) =
      readBody? q (.code more (k * 16 ^ width + n)) s := by
  induction width generalizing more n s with
  | zero =>
      obtain rfl : n = 0 := by simpa using h
      simp [hexDigits]
  | succ width ih =>
      have hhigh : n / 16 < 16 ^ width := by
        rw [Nat.pow_succ] at h
        omega
      have hnumber : 16 * (k * 16 ^ width + n / 16) + n % 16 = k * 16 ^ (width + 1) + n := by
        rw [Nat.pow_succ, Nat.mul_add, ← Nat.mul_assoc, Nat.mul_comm 16 k, Nat.mul_assoc,
          Nat.mul_comm 16 (16 ^ width)]
        omega
      have hdigit : hexValue? (Nat.digitChar (n % 16)) = some (n % 16) :=
        hexValue?_digitChar (Nat.mod_lt n (by decide))
      rw [hexDigits, List.append_assoc, Nat.add_assoc, Nat.add_comm 1 more, ih (more + 1) _ hhigh,
        List.singleton_append, ← hnumber]
      simp only [readBody?, hdigit]

/-- The digits of a character are read as the character. -/
theorem readBody?_code (q c : Char) (more : Nat) (h : c.toNat < 16 ^ (more + 1)) (s : List Char) :
    readBody? q (.code more 0) (hexDigits (more + 1) c.toNat ++ s) =
      push c (readBody? q .plain s) := by
  have hhigh : c.toNat / 16 < 16 ^ more := by
    rw [Nat.pow_succ] at h
    omega
  have hdigit : hexValue? (Nat.digitChar (c.toNat % 16)) = some (c.toNat % 16) :=
    hexValue?_digitChar (Nat.mod_lt _ (by decide))
  have hnumber : 16 * (c.toNat / 16) + c.toNat % 16 = c.toNat := Nat.div_add_mod _ _
  have hdigits := readBody?_hexDigits q more 0 0 (c.toNat / 16) hhigh
    (Nat.digitChar (c.toNat % 16) :: s)
  rw [Nat.add_zero, Nat.zero_mul, Nat.zero_add] at hdigits
  rw [hexDigits, List.append_assoc, List.singleton_append, hdigits]
  simp only [readBody?, hdigit, hnumber]
  rw [if_pos (show c.toNat.isValidChar from c.valid), Char.ofNat_toNat]

/-- A character that is written by its number is read back. -/
theorem readBody?_codeEscape {q : Char} (hq : q ≠ backslash) (c : Char) (s : List Char) :
    readBody? q .plain (codeEscape c.toNat ++ s) = push c (readBody? q .plain s) := by
  have hopen : ∀ t, readBody? q .plain (backslash :: t) = readBody? q .escape t := by
    intro t
    rw [readBody?, if_neg (Ne.symm hq), if_pos rfl]
  have hcode : ∀ (d : Char) (more : Nat) (t : List Char), escaped? d = some (.code more) →
      readBody? q .escape (d :: t) = readBody? q (.code more 0) t := by
    intro d more t hd
    rw [readBody?, hd]
  unfold codeEscape
  split
  · rw [List.cons_append, hopen, List.cons_append, hcode 'x' 1 _ (by decide)]
    exact readBody?_code q c 1 (by omega) s
  · split
    · rw [List.cons_append, hopen, List.cons_append, hcode 'u' 3 _ (by decide)]
      exact readBody?_code q c 3 (by omega) s
    · have hlarge : c.toNat < 16 ^ (7 + 1) := by
        have := c.valid
        unfold UInt32.isValidChar Nat.isValidChar at this
        change c.val.toNat < _
        omega
      rw [List.cons_append, hopen, List.cons_append, hcode 'U' 7 _ (by decide)]
      exact readBody?_code q c 7 hlarge s

/-- **A character is read back** from between quotes. -/
theorem readBody?_escape {q : Char} (hq : q = apostrophe ∨ q = doubleQuote) (c : Char)
    (s : List Char) :
    readBody? q .plain (escape q c ++ s) = push c (readBody? q .plain s) := by
  have hbackslash : q ≠ backslash := by rcases hq with rfl | rfl <;> decide
  have hescape : ∀ d e : Char, escaped? d = some (.char e) →
      readBody? q .plain (backslash :: d :: s) = push e (readBody? q .plain s) := by
    intro d e hd
    rw [readBody?, if_neg (Ne.symm hbackslash), if_pos rfl, readBody?, hd]
  unfold escape
  split
  · next hc =>
    have hself : escaped? c = some (.char c) := by
      unfold escaped?
      rw [if_pos]
      rcases hc with rfl | rfl
      · exact hq.imp_right Or.inl
      · exact Or.inr (Or.inr rfl)
    exact hescape c c hself
  next hc =>
  obtain ⟨hne, hnotEscape⟩ := not_or.1 hc
  split
  · next h => exact h ▸ hescape 'n' '\n' (by decide)
  split
  · next h => exact h ▸ hescape 'r' '\r' (by decide)
  split
  · next h => exact h ▸ hescape 't' '\t' (by decide)
  split
  · rw [List.singleton_append, readBody?, if_neg hne, if_neg hnotEscape]
  · exact readBody?_codeEscape hbackslash c s

/-- The text between quotes is read back, up to the closing quote and no further. -/
theorem readBody?_flatMap {q : Char} (hq : q = apostrophe ∨ q = doubleQuote) (s rest : List Char) :
    readBody? q .plain (s.flatMap (escape q) ++ q :: rest) = some (s, rest) := by
  induction s with
  | nil => rw [List.flatMap_nil, List.nil_append, readBody?, if_pos rfl]
  | cons c s ih =>
      rw [List.flatMap_cons, List.append_assoc, readBody?_escape hq, ih]
      rfl

/-- The quote is one of two characters. -/
theorem delimiter_cases (s : List Char) : delimiter s = apostrophe ∨ delimiter s = doubleQuote := by
  unfold delimiter
  split
  · exact Or.inr rfl
  · exact Or.inl rfl

/-- **Quoted text is read back**, whatever stands behind it. -/
theorem read?_encode (s rest : List Char) : read? (encode s ++ rest) = some (s, rest) := by
  have hq := delimiter_cases s
  simp only [encode, List.cons_append, List.append_assoc, List.nil_append]
  rw [read?, if_pos hq, readBody?_flatMap hq]

/-- Both quotes, a line feed, a character without a printed form, and a letter with an accent. -/
example : (quoted "it's \"\n\u200bé").toList = "'it\\'s \"\\n\\u200bé'".toList ∧
    read? "'it\\'s \"\\n\\u200bé' and more".toList =
      some ("it's \"\n\u200bé".toList, " and more".toList) := by decide +kernel

end Text.Quoted

/-! ### Command lines -/

namespace Shell

open Fields

/-- A character that needs no quotes is added to the word. -/
theorem Fields.step_of_isPlainChar {c : Char} (h : isPlainChar c = true) (words : List (List Char))
    (pending : Option (List Char)) :
    step ⟨words, .outside pending⟩ c = ⟨words, .outside (some (pending.getD [] ++ [c]))⟩ := by
  obtain ⟨hrange, hspecial⟩ : (0x20 < c.toNat ∧ c.toNat < 0x7f) ∧ c ∉ specialSigns := by
    simpa [standsForItself] using standsForItself_of_isPlainChar h
  have hseparates : separates c = false := by
    simp only [separates, List.mem_cons, List.not_mem_nil, or_false, decide_eq_false_iff_not,
      not_or]
    refine ⟨?_, ?_, ?_, ?_⟩ <;> rintro rfl <;> simp at hrange
  have hne : ∀ d ∈ specialSigns, c ≠ d := fun d hd hcd => hspecial (hcd ▸ hd)
  simp [step, hseparates, hne apostrophe (by decide), hne quotationMark (by decide),
    hne '\\' (by decide)]

/-- Characters that need no quotes make one word. -/
theorem Fields.run_of_isPlainChar {w : List Char} (h : ∀ c ∈ w, isPlainChar c = true)
    (words : List (List Char)) (before : List Char) :
    w.foldl step ⟨words, .outside (some before)⟩ = ⟨words, .outside (some (before ++ w))⟩ := by
  induction w generalizing before with
  | nil => simp
  | cons c w ih =>
      rw [List.foldl_cons, step_of_isPlainChar (h c (by simp)),
        ih fun d hd => h d (by simp [hd])]
      simp

/-- A word as it is written between apostrophes is read as itself. -/
theorem Fields.run_quoteChars (w : List Char) (words : List (List Char)) (before : List Char) :
    (w.flatMap quoteChar).foldl step ⟨words, .single before⟩ = ⟨words, .single (before ++ w)⟩ := by
  have hchar : ∀ (c : Char) (before : List Char),
      (quoteChar c).foldl step ⟨words, .single before⟩ = ⟨words, .single (before ++ [c])⟩ := by
    intro c before
    by_cases hc : c = apostrophe
    -- the apostrophe leaves the quotes, stands between quotation marks, and enters them again
    · subst hc
      simp [quoteChar, step, separates, apostrophe, quotationMark]
    · simp [quoteChar, step, hc]
  induction w generalizing before with
  | nil => simp
  | cons c w ih =>
      rw [List.flatMap_cons, List.foldl_append, hchar, ih]
      simp

/-- **A quoted word is read as the word**, whatever it holds. -/
theorem Fields.run_quoteWord (w : List Char) (words : List (List Char)) :
    (quoteWord w).foldl step ⟨words, .outside none⟩ = ⟨words, .outside (some w)⟩ := by
  unfold quoteWord
  split
  · next hplain =>
    obtain ⟨hne, hall⟩ := hplain
    obtain ⟨c, rest, rfl⟩ := List.exists_cons_of_ne_nil hne
    have hself : ∀ d ∈ c :: rest, isPlainChar d = true := List.all_eq_true.1 hall
    rw [List.foldl_cons, step_of_isPlainChar (hself c (by simp)),
      run_of_isPlainChar fun d hd => hself d (by simp [hd])]
    rfl
  · have hopen : step ⟨words, .outside none⟩ apostrophe = ⟨words, .single []⟩ := by
      simp [step, separates, apostrophe]
    rw [List.foldl_cons, hopen, List.foldl_append, run_quoteChars]
    simp [step, apostrophe]

/-- A word is complete at a blank. -/
theorem Fields.step_blank (words : List (List Char)) (w : List Char) :
    step ⟨words, .outside (some w)⟩ ' ' = ⟨words ++ [w], .outside none⟩ := by
  simp [step, separates]

/-- A command line behind some words. -/
theorem Fields.run_joinWords (ws words : List (List Char)) :
    ((joinWords ws).foldl step ⟨words, .outside none⟩).finish = some (words ++ ws) := by
  induction ws generalizing words with
  | nil => simp [finish]
  | cons w ws ih =>
      cases ws with
      | nil =>
          rw [joinWords_singleton, run_quoteWord]
          rfl
      | cons v ws =>
          rw [joinWords_cons_cons, List.foldl_append, run_quoteWord, List.foldl_cons, step_blank, ih]
          simp

/-- **A command line is split into the words that it was made from.** -/
theorem split_join (ws : List String) : split (join ws) = some ws := by
  rw [split, join, String.toList_ofList, splitWords, run_joinWords]
  simp [Function.comp_def]

end Shell

end Provision
