/-
**The grammar of rules documents.**

Which values are rules documents is said here without reading one: what a text, a list, a branch, a
rule and a document are, and which rules they stand for.  Beside it stand the ways in which a value
offends against this grammar, each with the error that it comes to.  Reading a value answers exactly
by the one and fails exactly by the other, so that every value either is a document or has a first
place that offends.

A blank value stands for an empty text or for an empty list.  It is no mapping, so that it offends
where a mapping is asked for, save that a document may be empty.

Main definitions:

* `Provision.Rules.Gives`, `Provision.Rules.Lists` — the text and the items of a value;
* `Provision.Rules.IsBranch`, `Provision.Rules.IsRule`, `Provision.Rules.IsDocument` — **the grammar**;
* `Provision.Rules.RuleOffends`, `Provision.Rules.Offends` — **offences**, and the first of them.

Main results:

* `Provision.Rules.readItems_eq_ok_iff`, `Provision.Rules.readItems_eq_error_iff` — reading a list;
* `Provision.Rules.readRule_eq_ok_iff`, `Provision.Rules.readRule_eq_error_iff` — reading a rule;
* `Provision.Rules.ofDocument_eq_ok_iff`, `Provision.Rules.ofDocument_eq_error_iff` — reading a
  document;
* `Provision.Rules.loadRules_iff` — **loading rules accepts the grammar and nothing else**.
-/

import Provision.Proofs.Documents

set_option relaxedAutoImplicit false
set_option autoImplicit false

namespace Provision.Rules

open Yaml Yaml.Value

/-! ### The grammar -/

/-- A value that is no mapping. -/
def NoMapping (v : Value) : Prop := ∀ pairs, v ≠ .mapping pairs

/-- **The text that a value gives**: its own unless it means null, and an empty one for everything
that is no text. -/
inductive Gives : Option Value → String → Prop where
  | text {s : String} (h : s ∉ nullTexts) : Gives (some (.scalar s)) s
  | blank {v : Option Value} (h : Blank v) : Gives v ""
  | sequence (items : List Value) : Gives (some (.sequence items)) ""
  | mapping (pairs : List (String × Value)) : Gives (some (.mapping pairs)) ""

/-- **The items of a value**: those of a list, and none if it is blank. -/
inductive Lists : Option Value → List Value → Prop where
  | blank {v : Option Value} (h : Blank v) : Lists v []
  | sequence (items : List Value) : Lists (some (.sequence items)) items

/-- A branch is a mapping; its name and its version may be left out. -/
inductive IsBranch : Value → BranchRule → Prop where
  | mk {pairs : List (String × Value)} {name go : String} (hname : Gives (get? pairs "name") name)
      (hgo : Gives (get? pairs "go") go) : IsBranch (.mapping pairs) ⟨name, go⟩

/-- A mapping names a destination by a text that is not blank. -/
inductive Names : List (String × Value) → String → Prop where
  | mk {pairs : List (String × Value)} {destination : String}
      (hkey : get? pairs "destination" = some (.scalar destination))
      (htext : ¬Blank (some (.scalar destination))) : Names pairs destination

/-- A rule is a mapping with a destination and, unless they are left out, a list of branches. -/
inductive IsRule : Value → RepositoryRule → Prop where
  | mk {pairs : List (String × Value)} {destination : String} {items : List Value}
      {branches : List BranchRule} (hdestination : Names pairs destination)
      (hitems : Lists (get? pairs "branches") items)
      (hbranches : List.Forall₂ IsBranch items branches) :
      IsRule (.mapping pairs) ⟨destination, branches⟩

/-- **A document** is empty, or a mapping with a list of rules unless they are left out. -/
inductive IsDocument : Option Value → List RepositoryRule → Prop where
  | nothing : IsDocument none []
  | mapping {pairs : List (String × Value)} {items : List Value} {rules : List RepositoryRule}
      (hitems : Lists (get? pairs "rules") items) (hrules : List.Forall₂ IsRule items rules) :
      IsDocument (some (.mapping pairs)) rules

/-! ### Offences -/

/-- **How the rule at an index offends**: by its kind, by its destination, by its branches as a whole,
or by the first branch that is no mapping; in this order. -/
inductive RuleOffends (path : Path) (index : Nat) : Value → RulesError → Prop where
  | kind {v : Value} (h : NoMapping v) :
      RuleOffends path index v (.ruleNotMapping path index (Value.kind (some v)))
  | destination {pairs : List (String × Value)} (h : ∀ destination, ¬Names pairs destination) :
      RuleOffends path index (.mapping pairs) (.noDestination path index)
  | branches {pairs : List (String × Value)} {destination : String}
      (hdestination : Names pairs destination) (h : ∀ items, ¬Lists (get? pairs "branches") items) :
      RuleOffends path index (.mapping pairs) (.branchesNotList path destination)
  | branch {pairs : List (String × Value)} {destination : String} {before after : List Value}
      {v : Value} (hdestination : Names pairs destination)
      (hitems : Lists (get? pairs "branches") (before ++ v :: after))
      (hbefore : ∀ b ∈ before, ∃ branch, IsBranch b branch) (h : NoMapping v) :
      RuleOffends path index (.mapping pairs)
        (.branchNotMapping path destination before.length (Value.kind (some v)))

/-- **How a document offends**: by its kind, by its rules as a whole, or by the first rule that
offends. -/
inductive Offends (path : Path) : Option Value → RulesError → Prop where
  | kind {v : Value} (h : NoMapping v) :
      Offends path (some v) (.notMapping path (Value.kind (some v)))
  | rules {pairs : List (String × Value)} (h : ∀ items, ¬Lists (get? pairs "rules") items) :
      Offends path (some (.mapping pairs)) (.notList path (Value.kind (get? pairs "rules")))
  | rule {pairs : List (String × Value)} {before after : List Value} {v : Value} {e : RulesError}
      (hitems : Lists (get? pairs "rules") (before ++ v :: after))
      (hbefore : ∀ b ∈ before, ∃ rule, IsRule b rule) (h : RuleOffends path before.length v e) :
      Offends path (some (.mapping pairs)) e

/-! ### Texts and lists -/

theorem scalarText_eq_iff {v : Option Value} {s : String} : scalarText v = s ↔ Gives v s := by
  constructor
  · rintro rfl
    match v with
    | none => exact .blank .missing
    | some (.scalar text) =>
        by_cases hnull : text ∈ nullTexts
        · have hblank : Blank (some (.scalar text)) := .null hnull
          rw [hblank.scalarText]
          exact .blank hblank
        · rw [scalarText, if_neg hnull]
          exact .text hnull
    | some (.sequence items) => exact .sequence items
    | some (.mapping pairs) => exact .mapping pairs
  · rintro (⟨h⟩ | ⟨h⟩ | _ | _)
    · rw [scalarText, if_neg h]
    · exact h.scalarText
    · rfl
    · rfl

theorem items?_eq_some_iff {v : Option Value} {items : List Value} :
    items? v = some items ↔ Lists v items := by
  constructor
  · intro h
    match v with
    | none =>
        obtain rfl : [] = items := by simpa [items?] using h
        exact .blank .missing
    | some (.scalar text) =>
        rw [items?] at h
        split at h
        · next hblank =>
          obtain rfl : [] = items := by simpa using h
          exact .blank (scalarText_eq_empty_iff.1 hblank)
        · simp at h
    | some (.sequence items') =>
        obtain rfl : items' = items := by simpa [items?] using h
        exact .sequence items'
    | some (.mapping pairs) => simp [items?] at h
  · rintro (⟨h⟩ | _)
    · exact h.items
    · rfl

theorem items?_eq_none_iff {v : Option Value} : items? v = none ↔ ∀ items, ¬Lists v items := by
  rw [Option.eq_none_iff_forall_ne_some]
  exact forall_congr' fun items => not_congr items?_eq_some_iff

/-- A mapping names its destination by a text that is not empty once it is read. -/
theorem names_iff {pairs : List (String × Value)} {destination : String} :
    Names pairs destination ↔
      scalarText (get? pairs "destination") = destination ∧ destination ≠ "" := by
  constructor
  · rintro ⟨hkey, htext⟩
    have hne : destination ≠ "" := fun hempty => htext (hempty ▸ .empty)
    exact ⟨(scalarText_eq_iff_of_ne hne).2 ⟨hkey, hkey ▸ htext⟩, hne⟩
  · rintro ⟨htext, hne⟩
    obtain ⟨hkey, hblank⟩ := (scalarText_eq_iff_of_ne hne).1 htext
    exact ⟨hkey, hkey ▸ hblank⟩

/-- Without a destination there is an empty text in its place. -/
theorem not_names_iff {pairs : List (String × Value)} :
    (∀ destination, ¬Names pairs destination) ↔ scalarText (get? pairs "destination") = "" := by
  constructor
  · intro h
    by_contra hne
    exact h _ (names_iff.2 ⟨rfl, hne⟩)
  · intro h destination hnames
    obtain ⟨htext, hne⟩ := names_iff.1 hnames
    exact hne (htext.symm.trans h)

/-! ### Reading lists -/

section

variable {ε α β : Type} {x : Except ε α} {f : α → β}

theorem map_eq_ok_iff {b : β} : x.map f = .ok b ↔ ∃ a, x = .ok a ∧ f a = b := by
  cases x <;> simp [Except.map]

theorem map_eq_error_iff {e : ε} : x.map f = .error e ↔ x = .error e := by
  cases x <;> simp [Except.map]

end

section

variable {ε α : Type} {read : Nat → Value → Except ε α}

theorem readItems_cons_eq_ok_iff {index : Nat} {v : Value} {vs : List Value} {as : List α} :
    readItems read index (v :: vs) = .ok as ↔
      ∃ a bs, read index v = .ok a ∧ readItems read (index + 1) vs = .ok bs ∧ as = a :: bs := by
  rw [readItems]
  cases read index v with
  | error e => simp [bind, Except.bind]
  | ok a =>
      cases readItems read (index + 1) vs with
      | error e => simp [bind, Except.bind]
      | ok bs => simp [bind, Except.bind, pure, Except.pure, eq_comm]

theorem readItems_cons_eq_error_iff {index : Nat} {v : Value} {vs : List Value} {e : ε} :
    readItems read index (v :: vs) = .error e ↔
      read index v = .error e ∨
        (∃ a, read index v = .ok a) ∧ readItems read (index + 1) vs = .error e := by
  rw [readItems]
  cases read index v with
  | error e => simp [bind, Except.bind]
  | ok a =>
      cases readItems read (index + 1) vs with
      | error e => simp [bind, Except.bind]
      | ok bs => simp [bind, Except.bind, pure, Except.pure]

end

section

variable {ε α : Type} {read : Nat → Value → Except ε α} {R : Value → α → Prop}
  (hread : ∀ index v a, read index v = .ok a ↔ R v a)
include hread

/-- **A list is read if each of its items is.** -/
theorem readItems_eq_ok_iff {index : Nat} {items : List Value} {as : List α} :
    readItems read index items = .ok as ↔ List.Forall₂ R items as := by
  induction items generalizing index as with
  | nil => simp [readItems, eq_comm]
  | cons v vs ih =>
      rw [readItems_cons_eq_ok_iff, List.forall₂_cons_left_iff]
      refine exists_congr fun a => exists_congr fun bs => ?_
      rw [hread, ih]

/-- **A list is not read because of the first item that is not.** -/
theorem readItems_eq_error_iff {index : Nat} {items : List Value} {e : ε} :
    readItems read index items = .error e ↔ ∃ before v after, items = before ++ v :: after ∧
      (∀ b ∈ before, ∃ a, R b a) ∧ read (index + before.length) v = .error e := by
  induction items generalizing index with
  | nil => simp [readItems]
  | cons v vs ih =>
      rw [readItems_cons_eq_error_iff]
      constructor
      · rintro (h | ⟨⟨a, ha⟩, h⟩)
        · exact ⟨[], v, vs, rfl, by simp, h⟩
        · obtain ⟨before, w, after, rfl, hbefore, hw⟩ := ih.1 h
          refine ⟨v :: before, w, after, rfl, ?_, ?_⟩
          · simpa using ⟨⟨a, (hread _ _ _).1 ha⟩, hbefore⟩
          · rwa [List.length_cons, Nat.add_comm before.length, ← Nat.add_assoc]
      · rintro ⟨before, w, after, heq, hbefore, hw⟩
        cases before with
        | nil =>
            obtain ⟨rfl, rfl⟩ : v = w ∧ vs = after := by simpa using heq
            exact .inl hw
        | cons b before =>
            obtain ⟨rfl, rfl⟩ : v = b ∧ vs = before ++ w :: after := by simpa using heq
            obtain ⟨⟨a, ha⟩, hrest⟩ := List.forall_mem_cons.1 hbefore
            refine .inr ⟨⟨a, (hread _ _ _).2 ha⟩, ih.2 ⟨before, w, after, rfl, hrest, ?_⟩⟩
            rwa [List.length_cons, Nat.add_comm before.length, ← Nat.add_assoc] at hw

end

/-! ### Reading rules -/

theorem readBranch_eq_ok_iff (path : Path) (destination : String) (index : Nat) (v : Value)
    (branch : BranchRule) :
    readBranch path destination index v = .ok branch ↔ IsBranch v branch := by
  constructor
  · intro h
    cases v with
    | mapping pairs =>
        obtain rfl : BranchRule.mk _ _ = branch := by simpa [readBranch] using h
        exact .mk (scalarText_eq_iff.1 rfl) (scalarText_eq_iff.1 rfl)
    | scalar text => simp [readBranch] at h
    | sequence items => simp [readBranch] at h
  · rintro ⟨hname, hgo⟩
    rw [readBranch, scalarText_eq_iff.2 hname, scalarText_eq_iff.2 hgo]

/-- A branch is not read only for its kind. -/
theorem readBranch_eq_error_iff (path : Path) (destination : String) (index : Nat) (v : Value)
    (e : RulesError) :
    readBranch path destination index v = .error e ↔
      NoMapping v ∧ e = .branchNotMapping path destination index (Value.kind (some v)) := by
  cases v with
  | mapping pairs => simp [readBranch, NoMapping]
  | scalar text => simp [readBranch, NoMapping, eq_comm]
  | sequence items => simp [readBranch, NoMapping, eq_comm]

section

variable {path : Path} {index : Nat} {pairs : List (String × Value)} {destination : String}

/-- Without a destination the rest of a rule is not looked at. -/
theorem readRule_of_not_names (h : ∀ destination, ¬Names pairs destination) :
    readRule path index (.mapping pairs) = .error (.noDestination path index) :=
  if_pos (not_names_iff.1 h)

/-- Without a list the branches are not looked at. -/
theorem readRule_of_not_lists (h : Names pairs destination)
    (hitems : ∀ items, ¬Lists (get? pairs "branches") items) :
    readRule path index (.mapping pairs) = .error (.branchesNotList path destination) := by
  obtain ⟨rfl, hne⟩ := names_iff.1 h
  refine (if_neg hne).trans ?_
  rw [items?_eq_none_iff.2 hitems]

/-- With a destination and a list the branches decide. -/
theorem readRule_of_lists (h : Names pairs destination) {items : List Value}
    (hitems : Lists (get? pairs "branches") items) :
    readRule path index (.mapping pairs) =
      (readItems (readBranch path destination) 0 items).map (RepositoryRule.mk destination) := by
  obtain ⟨rfl, hne⟩ := names_iff.1 h
  refine (if_neg hne).trans ?_
  rw [items?_eq_some_iff.2 hitems]
  dsimp only
  cases readItems (readBranch path (scalarText (get? pairs "destination"))) 0 items <;> rfl

end

/-- **A rule is read exactly if it is one.** -/
theorem readRule_eq_ok_iff (path : Path) (index : Nat) (v : Value) (rule : RepositoryRule) :
    readRule path index v = .ok rule ↔ IsRule v rule := by
  constructor
  · intro h
    cases v with
    | scalar text => simp [readRule] at h
    | sequence items => simp [readRule] at h
    | mapping pairs =>
        by_cases hnames : ∃ destination, Names pairs destination
        · obtain ⟨destination, hdestination⟩ := hnames
          by_cases hlists : ∃ items, Lists (get? pairs "branches") items
          · obtain ⟨items, hitems⟩ := hlists
            rw [readRule_of_lists hdestination hitems] at h
            obtain ⟨branches, hbranches, rfl⟩ := map_eq_ok_iff.1 h
            exact .mk hdestination hitems
              ((readItems_eq_ok_iff (readBranch_eq_ok_iff path destination)).1 hbranches)
          · rw [readRule_of_not_lists hdestination (not_exists.1 hlists)] at h
            simp at h
        · rw [readRule_of_not_names (not_exists.1 hnames)] at h
          simp at h
  · rintro ⟨hdestination, hitems, hbranches⟩
    rw [readRule_of_lists hdestination hitems]
    exact map_eq_ok_iff.2
      ⟨_, (readItems_eq_ok_iff (readBranch_eq_ok_iff path _)).2 hbranches, rfl⟩

/-- **A rule is not read exactly if it offends**, and then for its offence. -/
theorem readRule_eq_error_iff (path : Path) (index : Nat) (v : Value) (e : RulesError) :
    readRule path index v = .error e ↔ RuleOffends path index v e := by
  constructor
  · intro h
    cases v with
    | scalar text =>
        obtain rfl : RulesError.ruleNotMapping .. = e := by simpa [readRule] using h
        exact .kind nofun
    | sequence items =>
        obtain rfl : RulesError.ruleNotMapping .. = e := by simpa [readRule] using h
        exact .kind nofun
    | mapping pairs =>
        by_cases hnames : ∃ destination, Names pairs destination
        · obtain ⟨destination, hdestination⟩ := hnames
          by_cases hlists : ∃ items, Lists (get? pairs "branches") items
          · obtain ⟨items, hitems⟩ := hlists
            rw [readRule_of_lists hdestination hitems, map_eq_error_iff,
              readItems_eq_error_iff (readBranch_eq_ok_iff path destination)] at h
            obtain ⟨before, v, after, rfl, hbefore, hv⟩ := h
            obtain ⟨hkind, rfl⟩ := (readBranch_eq_error_iff ..).1 hv
            rw [Nat.zero_add]
            exact .branch hdestination hitems hbefore hkind
          · rw [readRule_of_not_lists hdestination (not_exists.1 hlists)] at h
            obtain rfl : RulesError.branchesNotList .. = e := by simpa using h
            exact .branches hdestination (not_exists.1 hlists)
        · rw [readRule_of_not_names (not_exists.1 hnames)] at h
          obtain rfl : RulesError.noDestination .. = e := by simpa using h
          exact .destination (not_exists.1 hnames)
  · rintro (⟨h⟩ | ⟨h⟩ | ⟨hdestination, h⟩ | ⟨hdestination, hitems, hbefore, h⟩)
    · cases v with
      | scalar text => rfl
      | sequence items => rfl
      | mapping pairs => exact absurd rfl (h pairs)
    · exact readRule_of_not_names h
    · exact readRule_of_not_lists hdestination h
    · rw [readRule_of_lists hdestination hitems, map_eq_error_iff,
        readItems_eq_error_iff (readBranch_eq_ok_iff path _)]
      refine ⟨_, _, _, rfl, hbefore, (readBranch_eq_error_iff ..).2 ⟨h, ?_⟩⟩
      rw [Nat.zero_add]

/-! ### Reading documents -/

/-- **The rules are read exactly from the documents of the grammar.** -/
theorem ofDocument_eq_ok_iff (path : Path) {v : Option Value} {rules : List RepositoryRule} :
    ofDocument path v = .ok rules ↔ IsDocument v rules := by
  constructor
  · intro h
    match v with
    | none =>
        obtain rfl : [] = rules := by simpa [ofDocument] using h
        exact .nothing
    | some (.scalar text) => simp [ofDocument] at h
    | some (.sequence items) => simp [ofDocument] at h
    | some (.mapping pairs) =>
        rw [ofDocument] at h
        cases hitems : items? (get? pairs "rules") with
        | none => simp [hitems] at h
        | some items =>
            simp only [hitems] at h
            exact .mapping (items?_eq_some_iff.1 hitems)
              ((readItems_eq_ok_iff (readRule_eq_ok_iff path)).1 h)
  · rintro (_ | ⟨hitems, hrules⟩)
    · rfl
    · rw [ofDocument, items?_eq_some_iff.2 hitems]
      exact (readItems_eq_ok_iff (readRule_eq_ok_iff path)).2 hrules

/-- **Everything else is refused for its first offence.** -/
theorem ofDocument_eq_error_iff {path : Path} {v : Option Value} {e : RulesError} :
    ofDocument path v = .error e ↔ Offends path v e := by
  constructor
  · intro h
    match v with
    | none => simp [ofDocument] at h
    | some (.scalar text) =>
        obtain rfl : RulesError.notMapping .. = e := by simpa [ofDocument] using h
        exact .kind nofun
    | some (.sequence items) =>
        obtain rfl : RulesError.notMapping .. = e := by simpa [ofDocument] using h
        exact .kind nofun
    | some (.mapping pairs) =>
        rw [ofDocument] at h
        cases hitems : items? (get? pairs "rules") with
        | none =>
            obtain rfl : RulesError.notList .. = e := by simpa [hitems] using h
            exact .rules (items?_eq_none_iff.1 hitems)
        | some items =>
            simp only [hitems] at h
            obtain ⟨before, w, after, rfl, hbefore, hw⟩ :=
              (readItems_eq_error_iff (readRule_eq_ok_iff path)).1 h
            rw [Nat.zero_add, readRule_eq_error_iff] at hw
            exact .rule (items?_eq_some_iff.1 hitems) hbefore hw
  · rintro (⟨h⟩ | ⟨h⟩ | ⟨hitems, hbefore, h⟩)
    · rename_i w
      cases w with
      | scalar text => rfl
      | sequence items => rfl
      | mapping pairs => exact absurd rfl (h pairs)
    · rw [ofDocument, items?_eq_none_iff.2 h]
    · rw [ofDocument, items?_eq_some_iff.2 hitems]
      refine (readItems_eq_error_iff (readRule_eq_ok_iff path)).2 ⟨_, _, _, rfl, hbefore, ?_⟩
      rwa [Nat.zero_add, readRule_eq_error_iff]

/-! ### Loading rules -/

/-- **Loading rules accepts the documents of the grammar and nothing else.**  Whatever value a
document has, the rules are those that it stands for by the grammar; otherwise the error is its first
offence. -/
theorem loadRules_iff {m : Machine} {path path' : Path} {v : Option Value}
    (h : Loader.Delivers m path path' v) :
    (∀ rules, ((loadRules path).perform m).1 = .ok rules ↔ IsDocument v rules) ∧
    (∀ f, ((loadRules path).perform m).1 = .error f ↔
      ∃ e, f = .rules e ∧ Offends path' v e) := by
  rw [h.loadRules]
  cases hread : ofDocument path' v with
  | ok rules =>
      refine ⟨fun rules' => ?_, fun f => ?_⟩
      · simp [Except.mapError, ← ofDocument_eq_ok_iff path', hread]
      · simp [Except.mapError, ← ofDocument_eq_error_iff, hread]
  | error e =>
      refine ⟨fun rules' => ?_, fun f => ?_⟩
      · simp [Except.mapError, ← ofDocument_eq_ok_iff path', hread]
      · simp [Except.mapError, ← ofDocument_eq_error_iff, hread, eq_comm]

namespace Sample

/-- Rules for one fork, and a second rule that only has branches. -/
def flawedText : String := Bootstrap.Sample.rulesText ++ "- branches: ~\n"

/-- A document with these rules. -/
def document (rules : List Value) : Option Value := some (.mapping [("rules", .sequence rules)])

/-- The rule for the fork. -/
def fork : Value :=
  .mapping [("destination", .scalar "fork"),
    ("branches", .sequence [.mapping [("name", .scalar "main"), ("go", .scalar "1.9")]])]

/-- The rule that only has branches. -/
def unnamed : Value := .mapping [("branches", .scalar "~")]

theorem parse_rulesText : Yaml.parse Bootstrap.Sample.rulesText = .ok (document [fork]) := by
  rw [Yaml.parse_eq_document (by decide +kernel)]
  cbv

theorem parse_flawedText : Yaml.parse flawedText = .ok (document [fork, unnamed]) := by
  rw [Yaml.parse_eq_document (by decide +kernel)]
  cbv

theorem isRule_fork : IsRule fork ⟨"fork", [⟨"main", "1.9"⟩]⟩ :=
  .mk (names_iff.2 (by decide)) (.sequence _) (.cons ⟨.text (by decide), .text (by decide)⟩ .nil)

end Sample

open Loader.Sample Sample in
/-- One rule is as it should be, and a second one behind it has no destination. -/
theorem loadRules_iff_sample :
    (Loader.Delivers (holding Bootstrap.Sample.rulesText) path path (document [fork]) ∧
      ((loadRules path).perform (holding Bootstrap.Sample.rulesText)).1 =
        .ok [⟨"fork", [⟨"main", "1.9"⟩]⟩]) ∧
    (Loader.Delivers (holding flawedText) path path (document [fork, unnamed]) ∧
      ((loadRules path).perform (holding flawedText)).1 =
        .error (.rules (.noDestination path 1))) := by
  have h := delivers_holding (by decide) parse_rulesText
  have hflawed := delivers_holding (by decide) parse_flawedText
  refine ⟨⟨h, ((loadRules_iff h).1 _).2 ?_⟩, hflawed, ((loadRules_iff hflawed).2 _).2 ⟨_, rfl, ?_⟩⟩
  · exact .mapping (.sequence _) (.cons isRule_fork .nil)
  · have hitems : Lists (get? [("rules", .sequence [fork, unnamed])] "rules")
        ([fork] ++ unnamed :: []) := .sequence _
    exact .rule hitems (List.forall_mem_singleton.2 ⟨_, isRule_fork⟩)
      (.destination (not_names_iff.2 (by decide)))

end Provision.Rules
