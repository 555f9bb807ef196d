/-
**Splitting a text.**

Main definition:

* `Provision.Text.pieces` — the pieces of a text between the occurrences of a character.

Main results:

* `Provision.Text.not_mem_of_mem_pieces`, `Provision.Text.intercalate_pieces` — the pieces are free
  of the character, and make up the text with it in between;
* `Provision.Text.pieces_intercalate` — words that are put together fall apart again.
-/

set_option relaxedAutoImplicit false
set_option autoImplicit false

namespace Provision.Text

/-- **The pieces of a text between its separators**; there is one more piece than separators. -/
def pieces (separator : Char) : List Char → List (List Char)
  | [] => [[]]
  | c :: s =>
      if c = separator then [] :: pieces separator s
      else match pieces separator s with
        | [] => [[c]]
        | w :: ws => (c :: w) :: ws

theorem pieces_ne_nil (separator : Char) (s : List Char) : pieces separator s ≠ [] := by
  cases s with
  | nil => simp [pieces]
  | cons c s =>
      unfold pieces
      split
      · simp
      · split <;> simp

/-- No piece holds the separator. -/
theorem not_mem_of_mem_pieces {separator : Char} {s w : List Char}
    (h : w ∈ pieces separator s) : separator ∉ w := by
  induction s generalizing w with
  | nil => simp [pieces] at h; simp [h]
  | cons c s ih =>
      unfold pieces at h
      split at h
      · rcases List.mem_cons.1 h with rfl | h
        · simp
        · exact ih h
      · next hc =>
        split at h
        · next hp => exact absurd hp (pieces_ne_nil separator s)
        · next v vs hp =>
          rcases List.mem_cons.1 h with rfl | h
          · simp only [List.mem_cons, not_or]
            exact ⟨fun h => hc h.symm, ih (by simp [hp])⟩
          · exact ih (by simp [hp, h])

section

variable {separator : Char}

/-- **The pieces make up the text**, with the separator in between. -/
theorem intercalate_pieces (s : List Char) :
    [separator].intercalate (pieces separator s) = s := by
  induction s with
  | nil => rfl
  | cons c s ih =>
      have hne := pieces_ne_nil separator s
      unfold pieces
      cases hp : pieces separator s with
      | nil => exact absurd hp hne
      | cons w ws =>
          rw [hp] at ih
          split
          · next hc =>
            rw [List.intercalate_cons_cons, ih, hc]
            rfl
          · cases ws with
            | nil =>
                rw [List.intercalate_singleton] at ih ⊢
                rw [ih]
            | cons v ws =>
                rw [List.intercalate_cons_cons] at ih ⊢
                rw [List.cons_append, List.cons_append, ih]

theorem pieces_append (s u : List Char) :
    pieces separator (s ++ separator :: u) = pieces separator s ++ pieces separator u := by
  induction s with
  | nil => simp [pieces]
  | cons c s ih =>
      by_cases hc : c = separator
      · simp [pieces, hc, ih]
      · have hne := pieces_ne_nil separator s
        simp only [List.cons_append, pieces, hc, if_false, ih]
        cases h : pieces separator s with
        | nil => exact absurd h hne
        | cons w ws => rfl

theorem pieces_of_not_mem {s : List Char} (h : separator ∉ s) : pieces separator s = [s] := by
  induction s with
  | nil => rfl
  | cons c s ih =>
      obtain ⟨hc, hs⟩ : separator ≠ c ∧ separator ∉ s := by simpa using h
      simp [pieces, Ne.symm hc, ih hs]

theorem pieces_replicate (n : Nat) (s : List Char) :
    pieces separator (List.replicate n separator ++ s) =
      List.replicate n [] ++ pieces separator s := by
  induction n with
  | zero => simp
  | succ n ih => simp [List.replicate_succ, pieces, ih]

theorem ofList_comp_toList : String.ofList ∘ String.toList = id := by
  funext w
  simp

/-- **Words without the separator, put together, fall apart into the same words.** -/
theorem pieces_intercalate (separator : Char) {between : String}
    (hbetween : between.toList = [separator]) {words : List String} (hne : words ≠ [])
    (h : ∀ w ∈ words, separator ∉ w.toList) :
    pieces separator (between.intercalate words).toList = words.map String.toList := by
  induction words with
  | nil => exact absurd rfl hne
  | cons w words ih =>
      cases words with
      | nil =>
          rw [String.intercalate_singleton]
          exact pieces_of_not_mem (h w (by simp))
      | cons v words =>
          have htext : (between.intercalate (w :: v :: words)).toList =
              w.toList ++ separator :: (between.intercalate (v :: words)).toList := by
            rw [String.intercalate_cons_cons]
            simp [hbetween]
          rw [htext, pieces_append, pieces_of_not_mem (h w (by simp)),
            ih (by simp) fun x hx => h x (by simp [hx])]
          rfl

end

end Provision.Text
