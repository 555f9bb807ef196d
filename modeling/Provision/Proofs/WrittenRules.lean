/-
**Writing rules.**

Rules can be written as a document of one line for each key, and what is written is read back as it
was: the texts stay as they are, whatever number, date or truth value they look like.  The texts must
be words, since other texts could be read as something else or end too early.

Main definitions:

* `Provision.IsPlain` — the texts that can be written as they are;
* `Provision.Rules.lines`, `Provision.Rules.text` — **rules as a text**;
* `Provision.Rules.IsWritable` — rules whose texts are words.

Main results:

* `Provision.Rules.tokens_text` — the tokens of written rules;
* `Provision.Rules.parse_text` — the value of written rules;
* `Provision.Rules.loadRules_text` — **written rules are read back**.
-/

import Provision.Proofs.Depths
import Provision.Proofs.Outlines
import Provision.Proofs.RuleGrammar
import Provision.Proofs.Versions

set_option relaxedAutoImplicit false
set_option autoImplicit false

namespace Provision

open Yaml

/-- **A text that can be written as it is**: a word that does not mean null. -/
structure IsPlain (s : String) : Prop where
  word : IsWord s.toList
  notNull : s ∉ nullTexts

instance (s : String) : Decidable (IsPlain s) :=
  decidable_of_iff (IsWord s.toList ∧ s ∉ nullTexts) ⟨fun h => ⟨h.1, h.2⟩, fun h => ⟨h.1, h.2⟩⟩

/-! ### Rules as a text -/

/-- The lines of a branch. -/
def BranchRule.lines (branch : BranchRule) : List String :=
  ("  - name: " ++ branch.name) ::
    if branch.goVersion = "" then [] else ["    go: " ++ branch.goVersion]

/-- The lines of a rule. -/
def RepositoryRule.lines (rule : RepositoryRule) : List String :=
  ("- destination: " ++ rule.destination) ::
    if rule.branches = [] then [] else "  branches:" :: rule.branches.flatMap BranchRule.lines

namespace Rules

/-- The lines of rules. -/
def lines (rules : List RepositoryRule) : List String :=
  "rules:" :: rules.flatMap RepositoryRule.lines

/-- **Rules as a text.** -/
def text (rules : List RepositoryRule) : String := "\n".intercalate (lines rules)

/-- **All texts of the rules are words**; a version may be left out. -/
def IsWritable (rules : List RepositoryRule) : Prop :=
  ∀ rule ∈ rules, IsPlain rule.destination ∧ ∀ branch ∈ rule.branches,
    IsPlain branch.name ∧ (branch.goVersion = "" ∨ IsPlain branch.goVersion)

instance (rules : List RepositoryRule) : Decidable (IsWritable rules) :=
  inferInstanceAs (Decidable (∀ rule ∈ rules, _))

end Rules

/-! ### The text as an outline -/

/-- A branch as a part of an outline. -/
def BranchRule.outline (branch : BranchRule) : List Char :=
  branch.lines.flatMap fun l => '\n' :: l.toList

def RepositoryRule.outline (rule : RepositoryRule) : List Char :=
  rule.lines.flatMap fun l => '\n' :: l.toList

theorem Rules.toList_text (rules : List RepositoryRule) :
    (text rules).toList = "rules".toList ++ ':' :: rules.flatMap RepositoryRule.outline := by
  have hlines : ∀ (l : String) (ls : List String), ("\n".intercalate (l :: ls)).toList =
      l.toList ++ ls.flatMap fun l => '\n' :: l.toList := by
    intro l ls
    induction ls generalizing l with
    | nil => simp
    | cons l' ls ih => simp [String.intercalate_cons_cons, ih]
  rw [text, lines, hlines, List.flatMap_assoc]
  rfl

theorem BranchRule.outline_eq (branch : BranchRule) (tail : List Char) :
    branch.outline ++ tail = Reader.line 1 ('-' :: ' ' :: ("name".toList ++ ':' :: ' ' ::
      (branch.name.toList ++ (if branch.goVersion = "" then tail else
        Reader.line 2 ("go".toList ++ ':' :: ' ' :: (branch.goVersion.toList ++ tail)))))) := by
  by_cases hgo : branch.goVersion = "" <;>
    simp [outline, lines, hgo, Reader.line, String.toList_append, List.replicate_succ]

theorem RepositoryRule.outline_eq (rule : RepositoryRule) (tail : List Char) :
    rule.outline ++ tail = Reader.line 0 ('-' :: ' ' :: ("destination".toList ++ ':' :: ' ' ::
      (rule.destination.toList ++ (if rule.branches = [] then tail else
        Reader.line 1 ("branches".toList ++ ':' ::
          (rule.branches.flatMap BranchRule.outline ++ tail)))))) := by
  have hflat : (rule.branches.flatMap fun branch => branch.lines.flatMap fun l => '\n' :: l.toList) =
      rule.branches.flatMap BranchRule.outline := rfl
  by_cases hbranches : rule.branches = [] <;>
    simp [outline, lines, hbranches, Reader.line, String.toList_append, List.replicate_succ,
      List.flatMap_assoc, hflat]

/-! ### Tokens and values -/

/-- The pairs of a branch, with their tokens. -/
def BranchRule.pairs (branch : BranchRule) : List (String × List Token × Value) :=
  ("name", [.scalar branch.name], .scalar branch.name) ::
    if branch.goVersion = "" then []
    else [("go", [.scalar branch.goVersion], .scalar branch.goVersion)]

/-- A branch, with its tokens. -/
def BranchRule.item (branch : BranchRule) : List Token × Value := mappingItem branch.pairs

/-- The pairs of a rule, with their tokens. -/
def RepositoryRule.pairs (rule : RepositoryRule) : List (String × List Token × Value) :=
  ("destination", [.scalar rule.destination], .scalar rule.destination) ::
    if rule.branches = [] then []
    else [("branches", entryTokens (rule.branches.map BranchRule.item),
      .sequence ((rule.branches.map BranchRule.item).map Prod.snd))]

/-- A rule, with its tokens. -/
def RepositoryRule.item (rule : RepositoryRule) : List Token × Value := mappingItem rule.pairs

/-- The pair of the document, with its tokens; without rules the value is left out. -/
def Rules.pairs (rules : List RepositoryRule) : List (String × List Token × Value) :=
  [("rules", entryTokens (rules.map RepositoryRule.item), if rules = [] then absent
    else .sequence ((rules.map RepositoryRule.item).map Prod.snd))]

open Reader

variable {tail : List Char} {done : List Token} {r : Reader}

theorem isWord_name : IsWord "name".toList := by decide +kernel

theorem isWord_go : IsWord "go".toList := by decide +kernel

theorem isWord_destination : IsWord "destination".toList := by decide +kernel

theorem isWord_branches : IsWord "branches".toList := by decide +kernel

theorem isWord_rules : IsWord "rules".toList := by decide +kernel

/-- The tokens of a branch. -/
theorem BranchRule.behind {branch : BranchRule} (hname : IsPlain branch.name)
    (hgo : branch.goVersion = "" ∨ IsPlain branch.goVersion)
    (h : Behind (branch.outline ++ tail) 1 done r) (htail : Continues 1 tail) :
    ∃ r', Reads r r' ∧ Behind tail 1 (done ++ .blockEntry :: branch.item.1) r' := by
  rw [outline_eq] at h
  by_cases hempty : branch.goVersion = ""
  · rw [if_pos hempty] at h
    obtain ⟨r', hreads, h'⟩ := h.entry isWord_name (by simp) hname.word (htail.mono (by decide))
    refine ⟨r', hreads, ?_⟩
    -- the block that began behind the hyphen ends with the line
    have hclosed := h'.close
    simpa [item, mappingItem, pairs, pairTokens, hempty] using hclosed
  · rw [if_neg hempty] at h
    have hword := (hgo.resolve_left hempty).word
    obtain ⟨r₁, hreads, h₁⟩ := h.entry isWord_name (by simp) hname.word
      (continues_line (Nat.le_refl 2) (isWord_go.opens _))
    obtain ⟨r₂, hreads', h₂⟩ := h₁.pair isWord_go (by simp) hword (htail.mono (by decide))
    refine ⟨r₂, hreads.trans hreads', ?_⟩
    have hclosed := h₂.close
    simpa [item, mappingItem, pairs, pairTokens, hempty] using hclosed

theorem BranchRule.continues (branch : BranchRule) (tail : List Char) :
    Continues 1 (branch.outline ++ tail) := by
  rw [outline_eq]
  exact continues_line (Nat.le_refl 1) .entry

/-- The tokens of a rule. -/
theorem RepositoryRule.behind {rule : RepositoryRule} (hdestination : IsPlain rule.destination)
    (hbranches : ∀ branch ∈ rule.branches,
      IsPlain branch.name ∧ (branch.goVersion = "" ∨ IsPlain branch.goVersion))
    (h : Behind (rule.outline ++ tail) 0 done r) (htail : Continues 0 tail) :
    ∃ r', Reads r r' ∧ Behind tail 0 (done ++ .blockEntry :: rule.item.1) r' := by
  rw [outline_eq] at h
  by_cases hempty : rule.branches = []
  · rw [if_pos hempty] at h
    obtain ⟨r', hreads, h'⟩ :=
      h.entry isWord_destination (by simp) hdestination.word (htail.mono (by decide))
    refine ⟨r', hreads, ?_⟩
    have hclosed := h'.close
    simpa [item, mappingItem, pairs, pairTokens, hempty] using hclosed
  · rw [if_neg hempty] at h
    obtain ⟨r₁, hreads₁, h₁⟩ := h.entry isWord_destination (by simp) hdestination.word
      (continues_line (Nat.le_refl 1) (isWord_branches.opens _))
    have htail' : Continues 1 tail := htail.mono (by decide)
    obtain ⟨r₂, hreads₂, h₂⟩ := h₁.heading isWord_branches (by simp)
      (continues_flatMap (fun branch _ => branch.continues) htail')
    obtain ⟨r₃, hreads₃, h₃⟩ := h₂.flatMap (fun branch => .blockEntry :: branch.item.1)
      (fun branch _ => branch.continues) (fun branch hbranch _ _ _ h htail =>
        BranchRule.behind (hbranches branch hbranch).1 (hbranches branch hbranch).2 h htail) htail'
    refine ⟨r₃, hreads₁.trans (hreads₂.trans hreads₃), ?_⟩
    -- the branches stand at the column of the keys, so that their list has no end of its own
    have hclosed := h₃.close
    simpa [item, mappingItem, pairs, pairTokens, entryTokens, List.flatMap_map, hempty] using hclosed

theorem RepositoryRule.continues (rule : RepositoryRule) (tail : List Char) :
    Continues 0 (rule.outline ++ tail) := by
  rw [outline_eq]
  exact continues_line (Nat.le_refl 0) .entry

/-! ### The characters of the text -/

/-- The characters of documents that files keep as they are. -/
def isKept (c : Char) : Bool := isAllowed c && c ≠ '\r'

theorem all_word {w : List Char} (h : IsWord w) : w.all isKept = true := by
  refine List.all_eq_true.2 fun c hc => ?_
  have hchar := h.chars c hc
  simp [isKept, isAllowed_of_isWordChar hchar, ne_of_isWordChar hchar (x := '\r') (by decide)]

theorem all_line (depth : Nat) (content : List Char) :
    (line depth content).all isKept = content.all isKept := by
  have hspaces : (List.replicate (2 * depth) ' ').all isKept = true := by
    refine List.all_eq_true.2 fun c hc => ?_
    rw [List.eq_of_mem_replicate hc]
    rfl
  rw [line, List.all_cons, List.all_append, hspaces]
  rfl

theorem BranchRule.all_outline {branch : BranchRule} (hname : IsPlain branch.name)
    (hgo : branch.goVersion = "" ∨ IsPlain branch.goVersion) :
    branch.outline.all isKept = true := by
  have hmarks : isKept '-' = true ∧ isKept ' ' = true ∧ isKept ':' = true := by decide
  rw [← List.append_nil branch.outline, outline_eq]
  by_cases hempty : branch.goVersion = ""
  · simp only [if_pos hempty, all_line, List.all_cons, List.all_append, all_word isWord_name,
      all_word hname.word, hmarks, List.all_nil, Bool.and_self]
  · simp only [if_neg hempty, all_line, List.all_cons, List.all_append, all_word isWord_name,
      all_word hname.word, all_word isWord_go, all_word (hgo.resolve_left hempty).word, hmarks,
      List.all_nil, Bool.and_self]

theorem RepositoryRule.all_outline {rule : RepositoryRule} (hdestination : IsPlain rule.destination)
    (hbranches : ∀ branch ∈ rule.branches,
      IsPlain branch.name ∧ (branch.goVersion = "" ∨ IsPlain branch.goVersion)) :
    rule.outline.all isKept = true := by
  have hmarks : isKept '-' = true ∧ isKept ' ' = true ∧ isKept ':' = true := by decide
  rw [← List.append_nil rule.outline, outline_eq]
  by_cases hempty : rule.branches = []
  · simp only [if_pos hempty, all_line, List.all_cons, List.all_append, all_word isWord_destination,
      all_word hdestination.word, hmarks, List.all_nil, Bool.and_self]
  · have hall : (rule.branches.flatMap BranchRule.outline).all isKept = true := by
      rw [List.all_flatMap, List.all_eq_true]
      exact fun branch hbranch =>
        BranchRule.all_outline (hbranches branch hbranch).1 (hbranches branch hbranch).2
    simp only [if_neg hempty, all_line, List.all_cons, List.all_append, all_word isWord_destination,
      all_word hdestination.word, all_word isWord_branches, hall, hmarks, List.all_nil, Bool.and_self]

namespace Rules

/-- All characters of written rules are kept as they are. -/
theorem all_text {rules : List RepositoryRule} (h : IsWritable rules) :
    (text rules).toList.all isKept = true := by
  have hall : (rules.flatMap RepositoryRule.outline).all isKept = true := by
    rw [List.all_flatMap, List.all_eq_true]
    exact fun rule hrule => RepositoryRule.all_outline (h rule hrule).1 (h rule hrule).2
  rw [toList_text, List.all_append, List.all_cons, all_word isWord_rules, hall]
  rfl

/-- **The tokens of written rules.** -/
theorem tokens_text {rules : List RepositoryRule} (h : IsWritable rules) {fin : List Char}
    (hfin : fin = [] ∨ fin = ['\n']) :
    tokens ((text rules).toList ++ fin) = ⟨(mappingItem (pairs rules)).1, none⟩ := by
  have hallowed : ((text rules).toList ++ fin).all isAllowed = true := by
    have htext : (text rules).toList.all isAllowed = true :=
      List.all_eq_true.2 fun c hc => (Bool.and_eq_true_iff.1 (List.all_eq_true.1 (all_text h) c hc)).1
    rw [List.all_append, htext]
    rcases hfin with rfl | rfl <;> rfl
  have htail : Continues 0 fin := by
    rcases hfin with rfl | rfl
    · exact .nothing
    · exact .line (n := 0) (by decide) .nothing
  have hcontinues : Continues 0 (rules.flatMap RepositoryRule.outline ++ fin) :=
    continues_flatMap (fun rule _ => rule.continues) htail
  obtain ⟨r₁, hreads₁, h₁⟩ := Behind.start isWord_rules (by simp) hcontinues
  obtain ⟨r₂, hreads₂, h₂⟩ := h₁.flatMap (fun rule => .blockEntry :: rule.item.1)
    (fun rule _ => rule.continues) (fun rule hrule _ _ _ h' htail =>
      RepositoryRule.behind (h rule hrule).1 (h rule hrule).2 h' htail) htail
  have htext : (text rules).toList ++ fin =
      "rules".toList ++ ':' :: (rules.flatMap RepositoryRule.outline ++ fin) := by
    simp [toList_text]
  have hstart : Cursor.start ((text rules).toList ++ fin) =
      ⟨"rules".toList ++ ':' :: (rules.flatMap RepositoryRule.outline ++ fin), 0, 0, 0⟩ := by
    rw [htext, Cursor.start, if_neg (by simp)]
  have henough : ("rules".toList ++ ':' :: (rules.flatMap RepositoryRule.outline ++ fin)).length <
      ((text rules).toList ++ fin).length + 1 := by
    rw [htext]
    exact Nat.lt_succ_self _
  obtain ⟨fuel, hfuel, hread⟩ := (hreads₁.trans hreads₂).exists_fuel henough
  rw [tokens, if_pos hallowed, hstart, hread, h₂.readAll hfin (by omega)]
  simp [mappingItem, pairs, pairTokens, entryTokens, List.flatMap_map]

end Rules

/-! ### The value of the text -/

theorem yields_text (s : String) : YieldsBehindColon [.scalar s] (.scalar s) :=
  (yields_scalar s).behindColon (by simp [mappingEnds])

/-- The tokens of a branch have a value, -/
theorem BranchRule.yields (branch : BranchRule) : Yields branch.item.1 branch.item.2 := by
  refine yields_mapping fun pair hpair => ?_
  rcases List.mem_cons.1 hpair with rfl | hpair
  · exact yields_text _
  · by_cases hempty : branch.goVersion = ""
    · simp [hempty] at hpair
    · rw [if_neg hempty] at hpair
      obtain rfl := List.mem_singleton.1 hpair
      exact yields_text _

/-- and so do those of a rule. -/
theorem RepositoryRule.yields (rule : RepositoryRule) : Yields rule.item.1 rule.item.2 := by
  refine yields_mapping fun pair hpair => ?_
  rcases List.mem_cons.1 hpair with rfl | hpair
  · exact yields_text _
  · by_cases hempty : rule.branches = []
    · simp [hempty] at hpair
    · rw [if_neg hempty] at hpair
      obtain rfl := List.mem_singleton.1 hpair
      have hne : rule.branches.map BranchRule.item ≠ [] := by simpa using hempty
      refine yieldsBehindColon_entries hne fun item hitem => ?_
      obtain ⟨branch, -, rfl⟩ := List.mem_map.1 hitem
      exact ⟨branch.yields, _, _, rfl, by simp⟩

namespace Rules

/-- The value of written rules. -/
theorem yields (rules : List RepositoryRule) :
    Yields (mappingItem (pairs rules)).1 (mappingItem (pairs rules)).2 := by
  refine yields_mapping fun pair hpair => ?_
  obtain rfl := List.mem_singleton.1 hpair
  by_cases hempty : rules = []
  -- nothing stands behind the colon then
  · simpa [hempty, entryTokens] using yieldsBehindColon_nil
  · dsimp only
    rw [if_neg hempty]
    have hne : rules.map RepositoryRule.item ≠ [] := by simpa using hempty
    refine yieldsBehindColon_entries hne fun item hitem => ?_
    obtain ⟨rule, -, rfl⟩ := List.mem_map.1 hitem
    exact ⟨rule.yields, _, _, rfl, by simp⟩

end Rules

/-! ### The room for the text -/

/-- The tokens of a branch take little room, -/
theorem BranchRule.takes (branch : BranchRule) : Takes 2 branch.item.1 := by
  refine takes_mapping (n := 0) fun pair hpair => ?_
  obtain ⟨s, hs⟩ : ∃ s, pair.2.1 = [.scalar s] := by
    simp only [pairs, List.mem_cons] at hpair
    rcases hpair with rfl | hpair
    · exact ⟨_, rfl⟩
    · split at hpair
      · simp at hpair
      · obtain rfl := List.mem_singleton.1 hpair
        exact ⟨_, rfl⟩
  rw [hs]
  exact (takes_scalar 0 s).behindColon

/-- and so do those of a rule. -/
theorem RepositoryRule.takes (rule : RepositoryRule) : Takes 7 rule.item.1 := by
  refine takes_mapping (n := 5) fun pair hpair => ?_
  simp only [pairs, List.mem_cons] at hpair
  rcases hpair with rfl | hpair
  · exact (takes_scalar 5 _).behindColon
  · split at hpair
    · simp at hpair
    · obtain rfl := List.mem_singleton.1 hpair
      refine takesBehindColon_entries (n := 2) fun item hitem => ?_
      obtain ⟨branch, -, rfl⟩ := List.mem_map.1 hitem
      exact branch.takes

namespace Rules

/-- The tokens of written rules take little room, however many rules there are. -/
theorem takes (rules : List RepositoryRule) : Takes 12 (mappingItem (pairs rules)).1 := by
  refine takes_mapping (n := 10) fun pair hpair => ?_
  obtain rfl := List.mem_singleton.1 hpair
  refine takesBehindColon_entries (n := 7) fun item hitem => ?_
  obtain ⟨rule, -, rfl⟩ := List.mem_map.1 hitem
  exact rule.takes

/-- **Written rules are read as the value that stands for them.** -/
theorem parse_text {rules : List RepositoryRule} (h : IsWritable rules) {fin : String}
    (hfin : fin = "" ∨ fin = "\n") :
    parse (text rules ++ fin) = .ok (some (mappingItem (pairs rules)).2) := by
  have hchars : fin.toList = [] ∨ fin.toList = ['\n'] := by rcases hfin with rfl | rfl <;> simp
  rw [parse_eq, String.toList_append, tokens_text h hchars,
    TokenStream.value_eq ((takes rules).goesTooDeep (by decide) none)]
  exact document_of_yields (yields rules) (by simp) (by simp)

end Rules

/-! ### The rules of the value -/

open Rules Value

theorem IsPlain.not_blank {s : String} (h : IsPlain s) : ¬Blank (some (.scalar s)) := by
  obtain ⟨c, rest, hs, -⟩ := h.word.head
  rintro (_ | _ | hnull)
  · simp at hs
  · exact h.notNull hnull

/-- The value of a branch stands for the branch, -/
theorem BranchRule.isBranch {branch : BranchRule} (hname : IsPlain branch.name)
    (hgo : branch.goVersion = "" ∨ IsPlain branch.goVersion) : IsBranch branch.item.2 branch := by
  obtain ⟨name, go⟩ := branch
  by_cases hempty : go = ""
  · subst hempty
    exact .mk (.text hname.notNull) (.blank .missing)
  · have hpairs : pairValues (BranchRule.pairs ⟨name, go⟩) [] =
        [("name", .scalar name), ("go", .scalar go)] := by
      simp [BranchRule.pairs, hempty, pairValues, Value.insert]
    rw [item, mappingItem, hpairs]
    exact .mk (.text hname.notNull) (.text (hgo.resolve_left hempty).notNull)

/-- and that of a rule for the rule. -/
theorem RepositoryRule.isRule {rule : RepositoryRule} (hdestination : IsPlain rule.destination)
    (hbranches : ∀ branch ∈ rule.branches,
      IsPlain branch.name ∧ (branch.goVersion = "" ∨ IsPlain branch.goVersion)) :
    IsRule rule.item.2 rule := by
  obtain ⟨destination, branches⟩ := rule
  have hitems : List.Forall₂ IsBranch ((branches.map BranchRule.item).map Prod.snd) branches := by
    rw [List.map_map, List.forall₂_map_left_iff, List.forall₂_same]
    exact fun branch hbranch =>
      BranchRule.isBranch (hbranches branch hbranch).1 (hbranches branch hbranch).2
  by_cases hempty : branches = []
  · subst hempty
    exact .mk (.mk rfl hdestination.not_blank) (.blank .missing) .nil
  · have hpairs : pairValues (RepositoryRule.pairs ⟨destination, branches⟩) [] =
        [("destination", .scalar destination),
          ("branches", .sequence ((branches.map BranchRule.item).map Prod.snd))] := by
      simp [RepositoryRule.pairs, hempty, pairValues, Value.insert]
    rw [item, mappingItem, hpairs]
    exact .mk (.mk rfl hdestination.not_blank) (.sequence _) hitems

namespace Rules

theorem isDocument {rules : List RepositoryRule} (h : IsWritable rules) :
    IsDocument (some (mappingItem (pairs rules)).2) rules := by
  have hitems : List.Forall₂ IsRule ((rules.map RepositoryRule.item).map Prod.snd) rules := by
    rw [List.map_map, List.forall₂_map_left_iff, List.forall₂_same]
    exact fun rule hrule => RepositoryRule.isRule (h rule hrule).1 (h rule hrule).2
  by_cases hempty : rules = []
  · subst hempty
    exact .mapping (.blank .empty) .nil
  · have hpairs : pairValues (pairs rules) [] =
        [("rules", .sequence ((rules.map RepositoryRule.item).map Prod.snd))] := by
      simp [pairs, hempty, pairValues, Value.insert]
    rw [mappingItem, hpairs]
    exact .mapping (.sequence _) hitems

/-- **Written rules are read back.**  A file with the text of rules, with or without the end of its last
line, gives the rules, text for text; and the versions that these ask for are the default and behind it
the others, each where it is named first. -/
theorem loadRules_text {m : Machine} {path path' : Path} {rules : List RepositoryRule} {fin : String}
    (h : IsWritable rules) (hfin : fin = "" ∨ fin = "\n")
    (hpath : path.expandHome m.homes = some path')
    (hread : m.files.read path'.toString = .ok (text rules ++ fin).toUTF8) :
    ((loadRules path).perform m).1 = .ok rules ∧
      goVersions rules = "1.10.2" :: ((named rules).filter (· ≠ "1.10.2")).eraseDups := by
  have hreturn : '\r' ∉ (text rules ++ fin).toList := by
    rw [String.toList_append, List.mem_append, not_or]
    refine ⟨fun hmem => ?_, by rcases hfin with rfl | rfl <;> simp⟩
    simpa [isKept] using List.all_eq_true.1 (all_text h) _ hmem
  have hdelivers : Loader.Delivers m path path' (some (mappingItem (pairs rules)).2) :=
    ⟨hpath, _, _, hread, Loader.decode?_toUTF8 hreturn, parse_text h hfin⟩
  refine ⟨?_, goVersions_eq rules _⟩
  rw [hdelivers.loadRules, (ofDocument_eq_ok_iff path').2 (isDocument h)]
  rfl

namespace Sample

/-- Rules whose texts look like numbers, a date and a truth value. -/
def rules : List RepositoryRule :=
  [⟨"api", [⟨"master", "1.10"⟩, ⟨"release-1.9", ""⟩, ⟨"2001-01-01", "0x1F"⟩]⟩, ⟨"yes", []⟩,
    ⟨"1_0", [⟨"master", "1.10.2"⟩, ⟨"0", "1.10"⟩]⟩]

end Sample

/-- The texts stay as they are. -/
theorem loadRules_text_sample :
    IsWritable Sample.rules ∧
      ((loadRules Loader.Sample.path).perform
        (Loader.Sample.holding (text Sample.rules ++ "\n"))).1 = .ok Sample.rules ∧
      goVersions Sample.rules = ["1.10.2", "1.10", "0x1F"] := by
  have hwritable : IsWritable Sample.rules := by decide +kernel
  obtain ⟨hload, -⟩ := loadRules_text (m := Loader.Sample.holding (text Sample.rules ++ "\n"))
    hwritable (.inr rfl) (Loader.Sample.expandHome_path _) (Loader.Sample.read_holding _)
  exact ⟨hwritable, hload, by decide⟩

end Rules

end Provision
