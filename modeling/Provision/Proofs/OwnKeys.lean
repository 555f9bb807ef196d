/-
**Documents are read by their own keys.**

Other programs share the documents, and keep things of their own in them.  What is read there depends
on the few keys that belong to the reader and on nothing else: other keys may come, go and change,
the pairs of a mapping may stand in another order, and what is left out may as well be blank.  Any
number of such edits, anywhere in the document, leaves what is loaded as it is, be it rules, a
configuration or the error for a document that is neither.

One edit of a mapping leaves what stands under the keys that are read alike.  A reader takes what is
alike for the same, and this is carried from branches to rules and from rules to documents, because an
edit in an item of a list is an edit by the keys of this item.

Main definitions:

* `Provision.Yaml.Value.Reorders` — one mapping, at any depth, with its pairs in another order;
* `Provision.Yaml.Value.Edit` — **one edit that leaves the own keys of a mapping alone**;
* `Provision.Yaml.Value.Agree`, `Provision.Yaml.Value.Alike` — what an edit may change under a key
  and in a value;
* `Provision.Rules.BranchEdit`, `Provision.Rules.RuleEdit`, `Provision.Rules.DocumentEdit`,
  `Provision.Config.DocumentEdit` — the edits of the documents and of their parts.

Main results:

* `Provision.Yaml.Value.Edit.alike` — an edited value is alike;
* `Provision.Rules.readBranch_of_alike`, `Provision.Rules.readRule_of_alike` — **alike branches and
  rules are the same**;
* `Provision.Rules.ofDocument_of_edits`, `Provision.Config.ofDocument_of_edits` — an edited document
  is read as before;
* `Provision.Loader.loads_by_own_keys` — **edits beside the own keys change nothing that is loaded**.
-/

import Provision.Proofs.Documents

set_option relaxedAutoImplicit false
set_option autoImplicit false

namespace Provision

namespace Yaml.Value

/-! ### Pairs of a mapping -/

/-- A pair between others is met where no earlier one has its key. -/
theorem get?_between (before after : List (String × Value)) (k key : String) (v : Value) :
    get? (before ++ (k, v) :: after) key =
      (get? before key).or (if key = k then some v else get? after key) := by
  rw [get?, List.lookup_append, List.lookup_cons]
  by_cases h : key = k
  · simp [h, get?]
  · simp [h, beq_false_of_ne h, get?]

/-- A pair under another key is not met at all. -/
theorem get?_between_of_ne (before after : List (String × Value)) {k key : String} (v : Value)
    (h : key ≠ k) : get? (before ++ (k, v) :: after) key = get? (before ++ after) key := by
  rw [get?_between, if_neg h, get?, get?, get?, List.lookup_append]

/-- If each key is there once, a key has the value of its pair. -/
theorem get?_eq_some_iff_mem {pairs : List (String × Value)} (hkeys : (pairs.map Prod.fst).Nodup)
    {key : String} {v : Value} : get? pairs key = some v ↔ (key, v) ∈ pairs := by
  induction pairs with
  | nil => simp [get?]
  | cons pair pairs ih =>
      obtain ⟨k, w⟩ := pair
      rw [List.map_cons, List.nodup_cons] at hkeys
      have hstep := get?_between [] pairs k key w
      rw [List.nil_append] at hstep
      rw [hstep, List.mem_cons]
      by_cases h : key = k
      · subst h
        have hout : (key, v) ∉ pairs := fun hmem => hkeys.1 (List.mem_map.2 ⟨_, hmem, rfl⟩)
        simp [get?, hout, eq_comm]
      · simp [get?, h, ← ih hkeys.2]

/-- **The order of the pairs does not matter.** -/
theorem get?_eq_of_perm {pairs pairs' : List (String × Value)}
    (hkeys : (pairs.map Prod.fst).Nodup) (hperm : pairs.Perm pairs') (key : String) :
    get? pairs key = get? pairs' key := by
  have hkeys' : (pairs'.map Prod.fst).Nodup := (hperm.map Prod.fst).nodup hkeys
  refine Option.ext fun v => ?_
  rw [get?_eq_some_iff_mem hkeys, get?_eq_some_iff_mem hkeys', hperm.mem_iff]

/-! ### Edits -/

/-- **Another order**: the pairs of one mapping, at any depth, change places.  A mapping has each key
once. -/
inductive Reorders : Value → Value → Prop where
  | pairs {pairs pairs' : List (String × Value)} (hkeys : (pairs.map Prod.fst).Nodup)
      (hperm : pairs.Perm pairs') : Reorders (.mapping pairs) (.mapping pairs')
  | value {before after : List (String × Value)} {key : String} {v w : Value}
      (h : Reorders v w) :
      Reorders (.mapping (before ++ (key, v) :: after)) (.mapping (before ++ (key, w) :: after))
  | item {before after : List Value} {v w : Value} (h : Reorders v w) :
      Reorders (.sequence (before ++ v :: after)) (.sequence (before ++ w :: after))

/-- **One edit of a mapping whose own keys are `own`.**  Another key comes or has its value changed,
an own key that is missing comes with a blank value, an item in the list under a key is edited in its
turn, or the order changes; `sub` says how items are edited.  The other way round keys go. -/
inductive Edit (own : List String) (sub : String → Value → Value → Prop) : Value → Value → Prop where
  | add {before after : List (String × Value)} {key : String} {v : Value} (hkey : key ∉ own) :
      Edit own sub (.mapping (before ++ after)) (.mapping (before ++ (key, v) :: after))
  | change {before after : List (String × Value)} {key : String} {v w : Value} (hkey : key ∉ own) :
      Edit own sub (.mapping (before ++ (key, v) :: after)) (.mapping (before ++ (key, w) :: after))
  | fill {before after : List (String × Value)} {key : String} {v : Value} (hkey : key ∈ own)
      (hmissing : get? (before ++ after) key = none) (hblank : Blank (some v)) :
      Edit own sub (.mapping (before ++ after)) (.mapping (before ++ (key, v) :: after))
  | item {before after : List (String × Value)} {key : String} {earlier later : List Value}
      {v w : Value} (h : sub key v w) :
      Edit own sub (.mapping (before ++ (key, .sequence (earlier ++ v :: later)) :: after))
        (.mapping (before ++ (key, .sequence (earlier ++ w :: later)) :: after))
  | reorder {v w : Value} (h : Reorders v w) : Edit own sub v w

/-! ### What edits leave alike -/

/-- What stands under an own key before and after an edit: the same, something blank, a mapping where
there was one, or a list with an edited item. -/
inductive Agree (sub : Value → Value → Prop) : Option Value → Option Value → Prop where
  | same (v : Option Value) : Agree sub v v
  | blank {v w : Option Value} (hv : Blank v) (hw : Blank w) : Agree sub v w
  | mappings (pairs pairs' : List (String × Value)) :
      Agree sub (some (.mapping pairs)) (some (.mapping pairs'))
  | item {earlier later : List Value} {v w : Value} (h : sub v w) :
      Agree sub (some (.sequence (earlier ++ v :: later))) (some (.sequence (earlier ++ w :: later)))

/-- Values before and after an edit: mappings that agree under each own key, or just lists. -/
inductive Alike (own : List String) (sub : String → Value → Value → Prop) : Value → Value → Prop where
  | mapping {pairs pairs' : List (String × Value)}
      (h : ∀ key ∈ own, Agree (sub key) (get? pairs key) (get? pairs' key)) :
      Alike own sub (.mapping pairs) (.mapping pairs')
  | sequence (items items' : List Value) : Alike own sub (.sequence items) (.sequence items')

section

variable {own : List String} {sub : String → Value → Value → Prop}

/-- Values that agree do so between other pairs. -/
theorem Agree.between {sub : Value → Value → Prop} {k key : String} {v w : Value}
    (before after : List (String × Value)) (h : key = k → Agree sub (some v) (some w)) :
    Agree sub (get? (before ++ (k, v) :: after) key) (get? (before ++ (k, w) :: after) key) := by
  rw [get?_between, get?_between]
  cases get? before key with
  | some u => exact .same _
  | none =>
      by_cases hk : key = k
      · simpa [hk] using h hk
      · simpa [hk] using Agree.same _

/-- Another order leaves a value alike, as long as items in another order are edited items. -/
theorem Reorders.alike (hsub : ∀ key v w, Reorders v w → sub key v w) {v w : Value}
    (h : Reorders v w) : Alike own sub v w := by
  cases h with
  | pairs hkeys hperm =>
      refine .mapping fun key _ => ?_
      rw [get?_eq_of_perm hkeys hperm]
      exact .same _
  | item h => exact .sequence _ _
  | value h =>
      refine .mapping fun key _ => Agree.between _ _ fun _ => ?_
      cases h with
      | pairs hkeys hperm => exact .mappings _ _
      | value h => exact .mappings _ _
      | item h => exact .item (hsub _ _ _ h)

/-- **An edited value is alike.**  Its items are edited or in another order. -/
theorem Edit.alike {v w : Value} (h : Edit own sub v w) :
    Alike own (fun key v w => sub key v w ∨ Reorders v w) v w := by
  cases h with
  | add hkey =>
      refine .mapping fun key hown => ?_
      rw [get?_between_of_ne _ _ _ (ne_of_mem_of_not_mem hown hkey)]
      exact .same _
  | change hkey =>
      refine .mapping fun key hown => ?_
      have hne := ne_of_mem_of_not_mem hown hkey
      rw [get?_between_of_ne _ _ _ hne, get?_between_of_ne _ _ _ hne]
      exact .same _
  | @fill before after k v hkey hmissing hblank =>
      refine .mapping fun key hown => ?_
      by_cases hk : key = k
      · subst hk
        have hbefore : get? before key = none := by
          rw [get?, List.lookup_append, Option.or_eq_none_iff] at hmissing
          exact hmissing.1
        rw [hmissing, get?_between, hbefore, if_pos rfl]
        exact .blank .missing hblank
      · rw [get?_between_of_ne _ _ _ hk]
        exact .same _
  | item h =>
      refine .mapping fun key _ => Agree.between _ _ fun hk => ?_
      subst hk
      exact .item (.inl h)
  | reorder h => exact h.alike fun _ _ _ => .inr

end

/-! ### What readers see -/

section

variable {sub : Value → Value → Prop} {v w : Option Value}

theorem Agree.scalarText (h : Agree sub v w) : scalarText v = scalarText w := by
  cases h with
  | same v => rfl
  | blank hv hw => rw [hv.scalarText, hw.scalarText]
  | mappings pairs pairs' => rfl
  | item h => rfl

/-- There is a list in both or, with the same kind of value, in neither. -/
theorem Agree.items (h : Agree sub v w) :
    (Rules.items? v = none ∧ Rules.items? w = none ∧ kind v = kind w) ∨
      ∃ items items', Rules.items? v = some items ∧ Rules.items? w = some items' ∧
        List.Forall₂ (fun v w => v = w ∨ sub v w) items items' := by
  have hsame : ∀ items : List Value, List.Forall₂ (fun v w => v = w ∨ sub v w) items items :=
    fun items => List.forall₂_same.2 fun _ _ => .inl rfl
  cases h with
  | same v =>
      cases hitems : Rules.items? v with
      | none => exact .inl ⟨rfl, rfl, rfl⟩
      | some items => exact .inr ⟨items, items, rfl, rfl, hsame items⟩
  | blank hv hw => exact .inr ⟨[], [], hv.items, hw.items, .nil⟩
  | mappings pairs pairs' => exact .inl ⟨rfl, rfl, rfl⟩
  | item h =>
      exact .inr ⟨_, _, rfl, rfl, List.rel_append (hsame _) (.cons (.inr h) (hsame _))⟩

end

end Yaml.Value

open Yaml Yaml.Value

/-! ### Rules -/

namespace Rules

/-- Items that are read alike make lists that are read alike. -/
theorem readItems_congr {ε α : Type} {read : Nat → Value → Except ε α} {items items' : List Value}
    (h : List.Forall₂ (fun v w => ∀ index, read index v = read index w) items items') (index : Nat) :
    readItems read index items = readItems read index items' := by
  induction h generalizing index with
  | nil => rfl
  | cons h _ ih => rw [readItems, readItems, h, ih]

/-- One edit of a branch. -/
def BranchEdit : Value → Value → Prop := Value.Edit ["name", "go"] fun _ _ _ => False

/-- One edit of a rule, which may be an edit of one of its branches. -/
def RuleEdit : Value → Value → Prop :=
  Value.Edit ["destination", "branches"] fun key v w => key = "branches" ∧ BranchEdit v w

/-- **One edit of a document**, which may be an edit of one of its rules. -/
def DocumentEdit : Value → Value → Prop :=
  Value.Edit ["rules"] fun key v w => key = "rules" ∧ RuleEdit v w

variable {v w : Value}

/-- **Alike branches are the same branch.** -/
theorem readBranch_of_alike {sub : String → Value → Value → Prop}
    (h : Alike ["name", "go"] sub v w) (path : Path) (destination : String) (index : Nat) :
    readBranch path destination index v = readBranch path destination index w := by
  cases h with
  | sequence items items' => rfl
  | mapping h =>
      rw [readBranch, readBranch, (h "name" (by decide)).scalarText, (h "go" (by decide)).scalarText]

theorem readBranch_of_edit (h : BranchEdit v w) (path : Path) (destination : String) (index : Nat) :
    readBranch path destination index v = readBranch path destination index w :=
  readBranch_of_alike h.alike path destination index

/-- **Alike rules are the same rule**, if items under their branches are edited branches. -/
theorem readRule_of_alike {sub : String → Value → Value → Prop}
    (hsub : ∀ v w, sub "branches" v w → BranchEdit v w)
    (h : Alike ["destination", "branches"] sub v w) (path : Path) (index : Nat) :
    readRule path index v = readRule path index w := by
  cases h with
  | sequence items items' => rfl
  | @mapping pairs pairs' h =>
      rw [readRule, readRule, (h "destination" (by decide)).scalarText]
      split
      · rfl
      obtain ⟨hv, hw, -⟩ | ⟨items, items', hv, hw, hitems⟩ := (h "branches" (by decide)).items
      · rw [hv, hw]
      · rw [hv, hw]
        simp only
        rw [readItems_congr (hitems.imp fun v w hvw index => ?_)]
        obtain rfl | hvw := hvw
        · rfl
        · exact readBranch_of_edit (hsub v w hvw) path _ index

theorem readRule_of_edit (h : RuleEdit v w) (path : Path) (index : Nat) :
    readRule path index v = readRule path index w := by
  refine readRule_of_alike (fun v w hvw => ?_) h.alike path index
  obtain ⟨-, hbranch⟩ | horder := hvw
  · exact hbranch
  · exact .reorder horder

theorem ofDocument_of_edit (h : DocumentEdit v w) (path : Path) :
    ofDocument path (some v) = ofDocument path (some w) := by
  cases h.alike with
  | sequence items items' => rfl
  | mapping hown =>
      rw [ofDocument, ofDocument]
      obtain ⟨hv, hw, hkind⟩ | ⟨items, items', hv, hw, hitems⟩ := (hown "rules" (by decide)).items
      · simp only [hv, hw, hkind]
      · simp only [hv, hw]
        refine readItems_congr (hitems.imp fun v w hvw index => ?_) 0
        obtain rfl | ⟨-, hrule⟩ | horder := hvw
        · rfl
        · exact readRule_of_edit hrule path index
        · exact readRule_of_edit (.reorder horder) path index

/-- **An edited document holds the same rules**, or is refused for the same reason, after any number
of edits. -/
theorem ofDocument_of_edits (h : Relation.EqvGen DocumentEdit v w) (path : Path) :
    ofDocument path (some v) = ofDocument path (some w) :=
  congrArg (Quot.lift (fun v => ofDocument path (some v)) fun _ _ hedit =>
    ofDocument_of_edit hedit path) (Quot.eqvGen_sound h)

end Rules

/-! ### The configuration -/

namespace Config

/-- The keys of a configuration. -/
def keys : List String :=
  ["source-org", "source-repo", "target-org", "github-host", "base-package", "rules-file"]

/-- **One edit of a configuration**; there are no lists in it. -/
def DocumentEdit : Value → Value → Prop := Value.Edit keys fun _ _ _ => False

variable {v w : Value}

theorem ofDocument_of_edit (h : DocumentEdit v w) (path : Path) :
    ofDocument path (some v) = ofDocument path (some w) := by
  cases h.alike with
  | sequence items items' => rfl
  | @mapping pairs pairs' hown =>
      have htext : ∀ key ∈ keys, scalarText (get? pairs key) = scalarText (get? pairs' key) :=
        fun key hkey => (hown key hkey).scalarText
      simp only [keys, List.forall_mem_cons] at htext
      obtain ⟨horg, hrepo, htarget, hhost, hbase, hrules, -⟩ := htext
      rw [ofDocument, ofDocument, ofPairs, ofPairs, horg, hrepo, htarget, hhost, hbase, hrules]

/-- **An edited document holds the same configuration** after any number of edits. -/
theorem ofDocument_of_edits (h : Relation.EqvGen DocumentEdit v w) (path : Path) :
    ofDocument path (some v) = ofDocument path (some w) :=
  congrArg (Quot.lift (fun v => ofDocument path (some v)) fun _ _ hedit =>
    ofDocument_of_edit hedit path) (Quot.eqvGen_sound h)

end Config

/-! ### Loading -/

namespace Loader

/-- **Shared documents are read by their own keys only.**  If the values of two documents differ by
any number of edits beside the keys of the rules, the same rules are loaded from both, or the same
error comes from both; and so it is with configurations. -/
theorem loads_by_own_keys {m m' : Machine} {path path' : Path} {v w : Value}
    (h : Delivers m path path' (some v)) (h' : Delivers m' path path' (some w)) :
    (Relation.EqvGen Rules.DocumentEdit v w →
      ((loadRules path).perform m).1 = ((loadRules path).perform m').1) ∧
    (Relation.EqvGen Config.DocumentEdit v w →
      ((loadConfig path).perform m).1 = ((loadConfig path).perform m').1) := by
  rw [h.loadRules, h'.loadRules, h.loadConfig, h'.loadConfig]
  exact ⟨fun hedits => by rw [Rules.ofDocument_of_edits hedits],
    fun hedits => by rw [Config.ofDocument_of_edits hedits]⟩

namespace Sample

/-- A document with rules and a part of a configuration. -/
def sharedText : String :=
  "rules:\n- destination: fork\n  branches:\n  - go: 1.9\nsource-org: acme\n"

/-- The document in another order, with an owner for the branch and a null for the target. -/
def editedText : String :=
  "source-org: acme\nrules:\n- destination: fork\n  branches:\n  - by: me\n    go: 1.9\ntarget-org: ~\n"

/-- Rules for one fork whose branch has these pairs. -/
def rulesOf (branch : List (String × Value)) : Value :=
  .sequence [.mapping [("destination", .scalar "fork"), ("branches", .sequence [.mapping branch])]]

/-- The rules of the document. -/
def rules : Value := rulesOf [("go", .scalar "1.9")]

/-- The rules of the edited document. -/
def ownedRules : Value := rulesOf [("by", .scalar "me"), ("go", .scalar "1.9")]

/-- The value of the document. -/
def shared : Value := .mapping [("rules", rules), ("source-org", .scalar "acme")]

/-- The value of the edited document. -/
def edited : Value :=
  .mapping [("source-org", .scalar "acme"), ("rules", ownedRules), ("target-org", .scalar "~")]

theorem parse_sharedText : Yaml.parse sharedText = .ok (some shared) := by
  rw [Yaml.parse_eq_document (by decide +kernel)]
  cbv

theorem parse_editedText : Yaml.parse editedText = .ok (some edited) := by
  rw [Yaml.parse_eq_document (by decide +kernel)]
  cbv

/-- The pairs of the document in the other order. -/
theorem reorders : Reorders (.mapping [("rules", ownedRules), ("source-org", .scalar "acme")])
    (.mapping [("source-org", .scalar "acme"), ("rules", ownedRules)]) :=
  .pairs (by decide) (.swap _ _ _)

/-- The owner, the order and the null are edits of rules, -/
theorem rulesEdits : Relation.EqvGen Rules.DocumentEdit shared edited := by
  have howner : Rules.DocumentEdit shared
      (.mapping [("rules", ownedRules), ("source-org", .scalar "acme")]) :=
    @Value.Edit.item _ _ [] _ _ [] [] _ _ ⟨rfl, @Value.Edit.item _ _ [_] [] _ [] [] _ _ ⟨rfl,
      @Value.Edit.add _ _ [] [_] "by" (.scalar "me") (by decide)⟩⟩
  have hnull : Rules.DocumentEdit
      (.mapping [("source-org", .scalar "acme"), ("rules", ownedRules)]) edited :=
    @Value.Edit.add _ _ [_, _] [] "target-org" (.scalar "~") (by decide)
  exact .trans _ _ _ (.rel _ _ howner) (.trans _ _ _ (.rel _ _ (.reorder reorders)) (.rel _ _ hnull))

/-- and edits of a configuration. -/
theorem configEdits : Relation.EqvGen Config.DocumentEdit shared edited := by
  have hrules : Config.DocumentEdit shared
      (.mapping [("rules", ownedRules), ("source-org", .scalar "acme")]) :=
    @Value.Edit.change _ _ [] [_] "rules" rules ownedRules (by decide)
  have hnull : Config.DocumentEdit
      (.mapping [("source-org", .scalar "acme"), ("rules", ownedRules)]) edited :=
    @Value.Edit.fill _ _ [_, _] [] "target-org" (.scalar "~") (by decide) rfl (.null (by decide))
  exact .trans _ _ _ (.rel _ _ hrules) (.trans _ _ _ (.rel _ _ (.reorder reorders)) (.rel _ _ hnull))

end Sample

/-- The document and the edited document give the same rules and the same configuration. -/
theorem loads_by_own_keys_sample :
    Sample.shared ≠ Sample.edited ∧
    ((loadRules Sample.path).perform (Sample.holding Sample.sharedText)).1 =
      ((loadRules Sample.path).perform (Sample.holding Sample.editedText)).1 ∧
    ((loadConfig Sample.path).perform (Sample.holding Sample.sharedText)).1 =
      ((loadConfig Sample.path).perform (Sample.holding Sample.editedText)).1 := by
  have h := Sample.delivers_holding (by decide) Sample.parse_sharedText
  have h' := Sample.delivers_holding (by decide) Sample.parse_editedText
  have hloads := loads_by_own_keys h h'
  exact ⟨by simp [Sample.shared, Sample.edited], hloads.1 Sample.rulesEdits,
    hloads.2 Sample.configEdits⟩

end Loader

end Provision
