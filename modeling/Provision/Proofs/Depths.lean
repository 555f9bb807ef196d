/-
**Tokens that take little room.**

How deep tokens go does not depend on how many of them stand side by side.  Behind a text, a list or a
mapping the same levels are open as before it, and on the way there are never more of them than its
deepest part needs.  This follows the tokens of `Provision.Proofs.Nodes`, part by part.

Main definitions:

* `Provision.Yaml.Takes` — **tokens that take so much room**, wherever they stand;
* `Provision.Yaml.TakesBehindColon` — the same for the tokens behind a key.

Main results:

* `Provision.Yaml.takes_scalar`, `Provision.Yaml.takesBehindColon_entries`,
  `Provision.Yaml.takes_mapping` — texts, lists and mappings;
* `Provision.Yaml.Takes.goesTooDeep` — tokens that take little room can be read.
-/

import Provision.Proofs.Nodes

set_option relaxedAutoImplicit false
set_option autoImplicit false

namespace Provision.Yaml

open Level

namespace Level

variable {perList : Nat} {ls : List Level}

theorem deepest_append (ls : List Level) (ts us : List Token) :
    deepest perList ls (ts ++ us) =
      max (deepest perList ls ts) (deepest perList (ts.foldl behind ls) us) := by
  induction ts generalizing ls with
  | nil => exact (Nat.max_eq_right (room_le_deepest perList ls us)).symm
  | cons t ts ih => rw [List.cons_append, deepest, deepest, ih, List.foldl_cons, Nat.max_assoc]

/-- The levels behind some tokens take no more room than was taken on the way. -/
theorem room_foldl_le (ls : List Level) (ts : List Token) :
    room perList (ts.foldl behind ls) ≤ deepest perList ls ts := by
  induction ts generalizing ls with
  | nil => exact Nat.le_refl _
  | cons t ts ih => exact Nat.le_trans (ih _) (Nat.le_max_right ..)

@[simp] theorem room_cons (l : Level) : room perList (l :: ls) = l.share perList + room perList ls :=
  rfl

end Level

/-- **Tokens that take so much room**, and behind which the same levels are open as before. -/
structure Takes (n : Nat) (ts : List Token) : Prop where
  returns : ∀ ls, ts.foldl behind ls = ls
  depth : ∀ ls, deepest 3 ls ts ≤ room 3 ls + n

/-- What may be open inside a mapping: nothing, or a list at the column of the keys. -/
def Inside (n : Nat) (ls inner : List Level) : Prop :=
  (inner = .mapping :: ls ∨ inner = .entries :: .mapping :: ls) ∧ room 3 inner ≤ room 3 ls + 2 + n

/-- **Tokens that take so much room behind the colon of a key.** -/
def TakesBehindColon (n : Nat) (ts : List Token) : Prop :=
  ∀ ls, Inside n ls (ts.foldl behind (.mapping :: ls)) ∧
    deepest 3 (.mapping :: ls) ts ≤ room 3 ls + 2 + n

variable {n : Nat} {ts : List Token} {ls inner : List Level}

theorem takes_scalar (n : Nat) (s : String) : Takes n [.scalar s] where
  returns _ := rfl
  depth ls := by simp [deepest, behind]

/-- What takes its room anywhere takes it behind a colon. -/
theorem Takes.behindColon (h : Takes n ts) : TakesBehindColon n ts := by
  intro ls
  have hdepth := h.depth (.mapping :: ls)
  have hroom : room 3 (.mapping :: ls) = 2 + room 3 ls := by simp [share]
  rw [h.returns]
  exact ⟨⟨Or.inl rfl, by omega⟩, by omega⟩

/-- **A list at the column of the keys around it** takes its own room and that of its entries. -/
theorem takesBehindColon_entries {items : List (List Token × Value)}
    (h : ∀ item ∈ items, Takes n item.1) : TakesBehindColon (3 + n) (entryTokens items) := by
  intro ls
  have hentries : room 3 (.entries :: .mapping :: ls) = room 3 ls + 5 := by
    simp [share]
    omega
  -- the list opens with its first entry and then stays open
  have hinside : ∀ inner, Inside (3 + n) ls inner →
      Inside (3 + n) ls ((entryTokens items).foldl behind inner) ∧
        deepest 3 inner (entryTokens items) ≤ room 3 ls + 2 + (3 + n) := by
    induction items with
    | nil => exact fun inner hinner => ⟨hinner, hinner.2⟩
    | cons item items ih =>
        intro inner hinner
        obtain ⟨hitem, hitems⟩ := List.forall_mem_cons.1 h
        have hopen : behind inner .blockEntry = .entries :: .mapping :: ls := by
          obtain ⟨rfl | rfl, -⟩ := hinner <;> rfl
        obtain ⟨hbehind, hdepth⟩ := ih hitems (.entries :: .mapping :: ls) ⟨Or.inr rfl, by omega⟩
        have hstart : entryTokens (item :: items) =
            .blockEntry :: (item.1 ++ entryTokens items) := by
          simp [entryTokens]
        rw [hstart, List.foldl_cons, List.foldl_append, deepest, hopen, hitem.returns,
          deepest_append, hitem.returns]
        have hroom := hitem.depth (.entries :: .mapping :: ls)
        exact ⟨hbehind, Nat.max_le.2 ⟨hinner.2, Nat.max_le.2 ⟨by omega, hdepth⟩⟩⟩
  exact hinside _ ⟨Or.inl rfl, by simp [share]; omega⟩

/-- The pairs of a mapping take the room of the deepest of them. -/
theorem depth_pairTokens {pairs : List (String × List Token × Value)}
    (h : ∀ pair ∈ pairs, TakesBehindColon n pair.2.1) (hinner : Inside n ls inner) :
    Inside n ls ((pairTokens pairs).foldl behind inner) ∧
      deepest 3 inner (pairTokens pairs) ≤ room 3 ls + 2 + n := by
  induction pairs generalizing inner with
  | nil => exact ⟨hinner, hinner.2⟩
  | cons pair pairs ih =>
      obtain ⟨hpair, hpairs⟩ := List.forall_mem_cons.1 h
      obtain ⟨hbehind, hdepth⟩ := hpair ls
      obtain ⟨hrest, hrestDepth⟩ := ih hpairs hbehind
      have hkey : behind inner .key = .mapping :: ls := by
        obtain ⟨rfl | rfl, -⟩ := hinner <;> rfl
      have hstart : pairTokens (pair :: pairs) =
          .key :: .scalar pair.1 :: .value :: (pair.2.1 ++ pairTokens pairs) := by
        simp [pairTokens]
      have hscalar : behind (.mapping :: ls) (.scalar pair.1) = .mapping :: ls := rfl
      have hvalue : behind (.mapping :: ls) .value = .mapping :: ls := rfl
      have hroom : room 3 (.mapping :: ls) ≤ room 3 ls + 2 + n := by
        simp [share]
        omega
      rw [hstart]
      simp only [List.foldl_cons, List.foldl_append, deepest, hkey, hscalar, hvalue, deepest_append]
      refine ⟨hrest, ?_⟩
      have := hinner.2
      omega

/-- **A mapping** takes its own room and that of its pairs. -/
theorem takes_mapping {pairs : List (String × List Token × Value)}
    (h : ∀ pair ∈ pairs, TakesBehindColon n pair.2.1) : Takes (2 + n) (mappingItem pairs).1 := by
  have hpairs : ∀ ls, Inside n ls ((pairTokens pairs).foldl behind (.mapping :: ls)) ∧
      deepest 3 (.mapping :: ls) (pairTokens pairs) ≤ room 3 ls + 2 + n := by
    refine fun ls => depth_pairTokens h ⟨Or.inl rfl, ?_⟩
    simp [share]
    omega
  constructor
  · intro ls
    obtain ⟨⟨hbehind, -⟩, -⟩ := hpairs ls
    rw [mappingItem, List.foldl_cons, List.foldl_append]
    change close ((pairTokens pairs).foldl behind (.mapping :: ls)) = ls
    obtain hbehind | hbehind := hbehind <;> rw [hbehind] <;> rfl
  · intro ls
    obtain ⟨⟨hbehind, -⟩, hdepth⟩ := hpairs ls
    have hend : deepest 3 ((pairTokens pairs).foldl behind (.mapping :: ls)) [.blockEnd] ≤
        room 3 ls + (2 + n) := by
      have hroom := @room_foldl_le 3 (.mapping :: ls) (pairTokens pairs)
      have hclose : behind ((pairTokens pairs).foldl behind (.mapping :: ls)) .blockEnd = ls := by
        obtain hbehind | hbehind := hbehind <;> rw [hbehind] <;> rfl
      rw [deepest, hclose, deepest]
      omega
    change max (room 3 ls) (deepest 3 (.mapping :: ls) (pairTokens pairs ++ [.blockEnd])) ≤ _
    rw [deepest_append]
    omega

/-- **Tokens that take little room do not go too deep.** -/
theorem Takes.goesTooDeep (h : Takes n ts) (hn : n ≤ maxRoom) (fault : Option Fault) :
    (⟨ts, fault⟩ : TokenStream).goesTooDeep = false := by
  have hdepth := h.depth []
  have hroom : room 3 [] = 0 := rfl
  simp only [TokenStream.goesTooDeep, decide_eq_false_iff_not]
  omega

end Provision.Yaml
