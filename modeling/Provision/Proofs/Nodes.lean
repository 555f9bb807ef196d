/-
**Tokens and their values.**

The value at the start of some tokens does not depend on the tokens behind it, as long as there is
enough fuel.  This is shown here for texts, for mappings of the block style whose keys are texts, and
for lists at the column of the keys around them, from what holds of their parts.

Main definitions:

* `Provision.Yaml.Yields` — **tokens that have a value**, wherever they stand;
* `Provision.Yaml.YieldsBehindColon` — the same for the tokens behind a key.

Main results:

* `Provision.Yaml.yields_scalar`, `Provision.Yaml.yields_mapping` — texts and mappings;
* `Provision.Yaml.Yields.behindColon`, `Provision.Yaml.yieldsBehindColon_nil`,
  `Provision.Yaml.yieldsBehindColon_entries` — what stands behind a colon;
* `Provision.Yaml.document_of_yields` — **a document of tokens that have a value**.
-/

import Provision.Yaml.Document

set_option relaxedAutoImplicit false
set_option autoImplicit false

namespace Provision.Yaml

/-- Tokens that are still to be read, up to the end of the text. -/
def Parse.ofTokens (ts : List Token) : Parse := { stream := { tokens := ts } }

section

variable {handles : List String} {fuel : Nat} {t : Token} {ts rest : List Token} {v : Value}
  {ctx : Context}

@[simp] theorem Parse.peek_cons : (Parse.ofTokens (t :: ts)).peek = .ok (some t) := rfl

@[simp] theorem Parse.skip_cons : (Parse.ofTokens (t :: ts)).skip = Parse.ofTokens ts := rfl

@[simp] theorem Parse.nextIn_cons {ends : List Token} :
    (Parse.ofTokens (t :: ts)).nextIn ends = .ok (decide (t ∈ ends)) := rfl

/-- **Tokens that have a value**, wherever blocks may stand and whatever comes behind them. -/
def Yields (ts : List Token) (v : Value) : Prop :=
  ∀ handles fuel ctx rest, ctx ≠ .flow → 4 * ts.length ≤ fuel →
    node handles fuel ctx (.ofTokens (ts ++ rest)) = .ok (v, .ofTokens rest)

/-- A value without an anchor, a tag or an alias is its content. -/
theorem node_eq_content (hanchor : ∀ name, t ≠ .anchor name) (htag : ∀ handle, t ≠ .tag handle)
    (halias : ∀ name, t ≠ .alias name) :
    node handles (fuel + 1) ctx (.ofTokens (t :: ts)) =
      content handles fuel ctx false (.ofTokens (t :: ts)) := by
  have hproperties : properties handles (.ofTokens (t :: ts)) =
      .ok (none, false, .ofTokens (t :: ts)) := by
    cases t <;> first | rfl | simp at hanchor htag
  -- only an alias is told from the other tokens here
  have hnode : node handles (fuel + 1) ctx (.ofTokens (t :: ts)) =
      (properties handles (.ofTokens (t :: ts)) >>= fun x => x.2.2.openAnchor x.1 >>= fun p =>
        content handles fuel ctx x.2.1 p >>= fun y => pure (y.1, y.2.closeAnchor x.1 y.1)) := by
    rw [node]
    cases t <;> first | rfl | simp at halias
  rw [hnode, hproperties]
  simp only [bind, Except.bind, Parse.openAnchor]
  cases content handles fuel ctx false (.ofTokens (t :: ts)) <;> rfl

theorem yields_scalar (s : String) : Yields [.scalar s] (.scalar s) := by
  intro handles fuel ctx rest _ hfuel
  obtain ⟨fuel, rfl⟩ : ∃ f, fuel = f + 2 := ⟨fuel - 2, by simp at hfuel; omega⟩
  rw [List.singleton_append, node_eq_content (by simp) (by simp) (by simp), content]
  rfl

/-! ### Behind a colon -/

/-- What ends a value that is left out in a mapping. -/
def mappingEnds : List Token := [.key, .value, .blockEnd]

/-- **Tokens that have a value behind the colon of a key.** -/
def YieldsBehindColon (ts : List Token) (v : Value) : Prop :=
  ∀ handles fuel next rest, next = .key ∨ next = .blockEnd → 4 * ts.length + 5 ≤ fuel →
    valuePart handles fuel .inMapping mappingEnds (.ofTokens (.value :: (ts ++ next :: rest))) =
      .ok (v, .ofTokens (next :: rest))

/-- A value is left out if the next token shows so. -/
theorem optional_of_mem {ends : List Token} (h : t ∈ ends) :
    optional handles (fuel + 1) ctx ends (.ofTokens (t :: ts)) = .ok (absent, .ofTokens (t :: ts)) := by
  simp [optional, h, bind, Except.bind, pure, Except.pure]

theorem optional_of_not_mem {ends : List Token} (h : t ∉ ends) :
    optional handles (fuel + 1) ctx ends (.ofTokens (t :: ts)) =
      node handles fuel ctx (.ofTokens (t :: ts)) := by
  simp [optional, h, bind, Except.bind]

theorem valuePart_value {ends : List Token} :
    valuePart handles (fuel + 1) ctx ends (.ofTokens (.value :: ts)) =
      optional handles fuel ctx ends (.ofTokens ts) := by
  simp [valuePart, bind, Except.bind]

/-- A value behind a colon may be left out. -/
theorem yieldsBehindColon_nil : YieldsBehindColon [] absent := by
  intro handles fuel next rest hnext hfuel
  obtain ⟨fuel, rfl⟩ : ∃ f, fuel = f + 2 := ⟨fuel - 2, by simp at hfuel; omega⟩
  rw [valuePart_value, List.nil_append, optional_of_mem]
  obtain rfl | rfl := hnext <;> decide

/-- A value may stand behind a colon. -/
theorem Yields.behindColon (h : Yields (t :: ts) v) (ht : t ∉ mappingEnds) :
    YieldsBehindColon (t :: ts) v := by
  intro handles fuel next rest _ hfuel
  obtain ⟨fuel, rfl⟩ : ∃ f, fuel = f + 2 := ⟨fuel - 2, by omega⟩
  rw [valuePart_value, List.cons_append, optional_of_not_mem ht, ← List.cons_append]
  exact h handles fuel .inMapping (next :: rest) (by simp) (by omega)

/-! ### Lists -/

/-- The tokens of the entries of a list. -/
def entryTokens (items : List (List Token × Value)) : List Token :=
  items.flatMap fun item => .blockEntry :: item.1

/-- **The entries of a list at the column of the keys around it.** -/
theorem indentless_entries {items : List (List Token × Value)} {before : List Value}
    (hitems : ∀ item ∈ items, Yields item.1 item.2 ∧
      ∃ t ts, item.1 = t :: ts ∧ t ∉ [.blockEntry, .key, .value, .blockEnd])
    {next : Token} (hnext : next = .key ∨ next = .blockEnd)
    (hfuel : 4 * (entryTokens items).length + 1 ≤ fuel) :
    indentless handles fuel before (.ofTokens (entryTokens items ++ next :: rest)) =
      .ok (.sequence (before.reverse ++ items.map Prod.snd), .ofTokens (next :: rest)) := by
  induction items generalizing fuel before with
  | nil =>
      obtain ⟨fuel, rfl⟩ : ∃ f, fuel = f + 1 := ⟨fuel - 1, by omega⟩
      obtain rfl | rfl := hnext <;> simp [entryTokens, indentless, bind, Except.bind, pure, Except.pure]
  | cons item items ih =>
      obtain ⟨fuel, rfl⟩ : ∃ f, fuel = f + 2 := ⟨fuel - 2, by simp [entryTokens] at hfuel; omega⟩
      obtain ⟨⟨hyields, t, ts, htokens, ht⟩, hitems⟩ := List.forall_mem_cons.1 hitems
      have hlength : (entryTokens (item :: items)).length =
          item.1.length + 1 + (entryTokens items).length := by
        simp only [entryTokens, List.flatMap_cons, List.length_append, List.length_cons]
      have hitem : optional handles (fuel + 1) .block [.blockEntry, .key, .value, .blockEnd]
          (.ofTokens (item.1 ++ (entryTokens items ++ next :: rest))) =
            .ok (item.2, .ofTokens (entryTokens items ++ next :: rest)) := by
        rw [htokens] at hyields ⊢
        rw [List.cons_append, optional_of_not_mem ht, ← List.cons_append]
        exact hyields handles fuel .block _ (by simp) (by rw [← htokens]; omega)
      have hstart : entryTokens (item :: items) ++ next :: rest =
          .blockEntry :: (item.1 ++ (entryTokens items ++ next :: rest)) := by
        simp [entryTokens]
      rw [hstart, indentless]
      simp only [Parse.peek_cons, Parse.skip_cons, bind, Except.bind, hitem]
      rw [ih hitems (by omega)]
      simp

/-- A list may stand behind a colon. -/
theorem yieldsBehindColon_entries {items : List (List Token × Value)} (hne : items ≠ [])
    (hitems : ∀ item ∈ items, Yields item.1 item.2 ∧
      ∃ t ts, item.1 = t :: ts ∧ t ∉ [.blockEntry, .key, .value, .blockEnd]) :
    YieldsBehindColon (entryTokens items) (.sequence (items.map Prod.snd)) := by
  intro handles fuel next rest hnext hfuel
  obtain ⟨fuel, rfl⟩ : ∃ f, fuel = f + 4 := ⟨fuel - 4, by omega⟩
  obtain ⟨item, items, rfl⟩ := List.exists_cons_of_ne_nil hne
  have hstart : entryTokens (item :: items) ++ next :: rest =
      .blockEntry :: (item.1 ++ (entryTokens items ++ next :: rest)) := by
    simp [entryTokens]
  have hcontent : content handles (fuel + 1) .inMapping false
      (.ofTokens (entryTokens (item :: items) ++ next :: rest)) =
        indentless handles fuel [] (.ofTokens (entryTokens (item :: items) ++ next :: rest)) := by
    rw [hstart, content]
    simp [bind, Except.bind]
  rw [valuePart_value, hstart, optional_of_not_mem (by simp [mappingEnds]),
    node_eq_content (by simp) (by simp) (by simp), ← hstart, hcontent,
    indentless_entries hitems hnext (by omega)]
  simp

/-! ### Mappings -/

/-- The tokens of the pairs of a mapping. -/
def pairTokens (pairs : List (String × List Token × Value)) : List Token :=
  pairs.flatMap fun pair => .key :: .scalar pair.1 :: .value :: pair.2.1

/-- The pairs of a mapping, one set after the other. -/
def pairValues (pairs : List (String × List Token × Value)) (before : List (String × Value)) :
    List (String × Value) :=
  pairs.foldl (fun before pair => Value.insert pair.1 pair.2.2 before) before

/-- **The pairs of a mapping**, up to its end. -/
theorem blockMapping_pairs {pairs : List (String × List Token × Value)}
    {before : List (String × Value)} (hpairs : ∀ pair ∈ pairs, YieldsBehindColon pair.2.1 pair.2.2)
    (hfuel : 4 * (pairTokens pairs).length + 1 ≤ fuel) :
    blockMapping handles fuel before (.ofTokens (pairTokens pairs ++ .blockEnd :: rest)) =
      .ok (.mapping (pairValues pairs before), .ofTokens rest) := by
  induction pairs generalizing fuel before with
  | nil =>
      obtain ⟨fuel, rfl⟩ : ∃ f, fuel = f + 1 := ⟨fuel - 1, by omega⟩
      simp [pairTokens, blockMapping, bind, Except.bind, pure, Except.pure, pairValues]
  | cons pair pairs ih =>
      obtain ⟨fuel, rfl⟩ : ∃ f, fuel = f + 4 := ⟨fuel - 4, by simp [pairTokens] at hfuel; omega⟩
      obtain ⟨hpair, hpairs⟩ := List.forall_mem_cons.1 hpairs
      have hlength : (pairTokens (pair :: pairs)).length =
          pair.2.1.length + 1 + 1 + 1 + (pairTokens pairs).length := by
        simp only [pairTokens, List.flatMap_cons, List.length_append, List.length_cons]
      -- behind the value comes the next key, or the end
      obtain ⟨next, rest', hnext, hrest⟩ : ∃ next rest', (next = .key ∨ next = .blockEnd) ∧
          pairTokens pairs ++ .blockEnd :: rest = next :: rest' := by
        cases pairs with
        | nil => exact ⟨.blockEnd, rest, .inr rfl, rfl⟩
        | cons pair' pairs => exact ⟨.key, _, .inl rfl, rfl⟩
      have hstart : pairTokens (pair :: pairs) ++ .blockEnd :: rest =
          .key :: .scalar pair.1 :: .value :: (pair.2.1 ++ next :: rest') := by
        rw [← hrest]
        simp [pairTokens]
      have hkey : optional handles (fuel + 3) .inMapping mappingEnds
          (.ofTokens (.scalar pair.1 :: .value :: (pair.2.1 ++ next :: rest'))) =
            .ok (.scalar pair.1, .ofTokens (.value :: (pair.2.1 ++ next :: rest'))) := by
        rw [optional_of_not_mem (by simp [mappingEnds])]
        exact yields_scalar pair.1 handles (fuel + 2) .inMapping _ (by simp) (by simp; omega)
      have hvalue := hpair handles (fuel + 3) next rest' hnext (by omega)
      rw [hstart, blockMapping]
      simp only [Parse.peek_cons, Parse.skip_cons, bind, Except.bind]
      rw [show [Token.key, .value, .blockEnd] = mappingEnds from rfl, hkey]
      dsimp only
      rw [hvalue]
      dsimp only [keyText]
      rw [← hrest, ih hpairs (by omega)]
      rfl

/-- A mapping, with its tokens. -/
def mappingItem (pairs : List (String × List Token × Value)) : List Token × Value :=
  (.blockMappingStart :: (pairTokens pairs ++ [.blockEnd]), .mapping (pairValues pairs []))

/-- **Mappings whose keys are texts.** -/
theorem yields_mapping {pairs : List (String × List Token × Value)}
    (hpairs : ∀ pair ∈ pairs, YieldsBehindColon pair.2.1 pair.2.2) :
    Yields (mappingItem pairs).1 (mappingItem pairs).2 := by
  intro handles fuel ctx rest hctx hfuel
  obtain ⟨fuel, rfl⟩ : ∃ f, fuel = f + 2 := ⟨fuel - 2, by simp [mappingItem] at hfuel; omega⟩
  dsimp only [mappingItem] at hfuel ⊢
  rw [List.cons_append, node_eq_content (by simp) (by simp) (by simp), content]
  simp only [Parse.peek_cons, Parse.skip_cons, bind, Except.bind]
  rw [if_neg (by simp), if_neg (by simp), if_pos (by simpa using hctx), List.append_assoc,
    List.singleton_append, blockMapping_pairs hpairs]
  simp only [List.length_cons, List.length_append, List.length_nil] at hfuel
  omega

/-! ### Documents -/

/-- **A document of tokens that have a value** has this value. -/
theorem document_of_yields (h : Yields (t :: ts) v) (hdirective : ∀ d, t ≠ .directive d)
    (hstart : t ≠ .documentStart) : document ⟨t :: ts, none⟩ = .ok (some v) := by
  have hroot : rootNode usualHandles (.ofTokens (t :: ts)) = .ok (v, .ofTokens []) := by
    have hnode := h usualHandles (4 * (t :: ts).length + 4) .block [] (by simp) (by omega)
    rwa [List.append_nil] at hnode
  have hfirst : firstDocument (.ofTokens (t :: ts)) = .ok (v, .ofTokens []) := by
    rw [← hroot, firstDocument]
    cases t <;> first | rfl | simp at hdirective hstart
  have hend : checkEnd (.ofTokens []) = .ok () := rfl
  unfold document
  change (firstDocument (.ofTokens (t :: ts)) >>= _) = _
  rw [hfirst]
  simp only [bind, Except.bind, hend]
  rfl

end

end Provision.Yaml
