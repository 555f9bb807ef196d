/-
**The versions that rules ask for.**

The versions are gathered branch by branch, and each is compared with those gathered before it.  What
comes of this can be said without the gathering: the default stands first, and behind it stand the other
versions that the branches name, each where it is named first.

The list is thus an ordered set, which grows only at its end: rules that are appended add the versions
that are new, and rules that name no new version add nothing.

Main definitions:

* `Provision.Rules.named` — the versions that the branches name, in the order of the document.

Main results:

* `Provision.Rules.foldl_addVersion` — gathering versions;
* `Provision.Rules.goVersions_eq` — **the default and the first occurrences of the others**;
* `Provision.Rules.idxOf_eraseDups_lt_iff` — first occurrences stand in the order of the list;
* `Provision.Rules.goVersions_first_occurrences` — **the versions are an ordered set**, and what
  appending rules does to it.
-/

import Mathlib.Data.List.Induction
import Provision.Rules

set_option relaxedAutoImplicit false
set_option autoImplicit false

namespace Provision.Rules

/-- **The versions that the branches of the rules name**, in the order of the document. -/
def named (rules : List RepositoryRule) : List String :=
  (rules.flatMap fun rule => rule.branches.map (·.goVersion)).filter (· ≠ "")

/-- **Gathering versions** behind others keeps the first occurrence of each that is not among them. -/
theorem foldl_addVersion (versions more : List String) :
    more.foldl addVersion versions =
      versions ++ ((more.filter (· ≠ "")).filter (· ∉ versions)).eraseDups := by
  induction more generalizing versions with
  | nil => simp
  | cons v more ih =>
      rw [List.foldl_cons, ih, addVersion]
      by_cases hempty : v = ""
      · simp [hempty]
      by_cases hold : v ∈ versions
      · simp [hempty, hold]
      -- the version is new, and later ones are compared with it too
      have hlater : (more.filter (· ≠ "")).filter (· ∉ versions ++ [v]) =
          ((more.filter (· ≠ "")).filter (· ∉ versions)).filter (fun w => !w == v) := by
        rw [List.filter_filter, List.filter_filter, List.filter_filter]
        refine List.filter_congr fun w _ => ?_
        by_cases hw : w = v
        · simp [hw]
        · have hb : (w == v) = false := by simpa using hw
          simp [hw, hb]
      rw [if_pos ⟨hempty, hold⟩, hlater]
      simp [hempty, hold, List.eraseDups_cons]

/-- **The versions of the rules are the default and the first occurrences of the others.** -/
theorem goVersions_eq (rules : List RepositoryRule) (default : String) :
    goVersions rules default = default :: ((named rules).filter (· ≠ default)).eraseDups := by
  have hflat : goVersions rules default =
      (rules.flatMap fun rule => rule.branches.map (·.goVersion)).foldl addVersion [default] := by
    simp only [goVersions, List.foldl_flatMap, List.foldl_map]
  rw [hflat, foldl_addVersion, named]
  simp

/-- **The versions are the default and the versions that are named, each where it stands first.** -/
theorem goVersions_eq_eraseDups (rules : List RepositoryRule) (default : String) :
    goVersions rules default = (default :: named rules).eraseDups := by
  rw [goVersions_eq, List.eraseDups_cons]
  congr 2
  refine List.filter_congr fun v _ => ?_
  by_cases h : v = default <;> simp [h]

/-! ### What is named -/

theorem named_append (rules more : List RepositoryRule) :
    named (rules ++ more) = named rules ++ named more := by
  simp [named]

theorem mem_named {rules : List RepositoryRule} {v : String} :
    v ∈ named rules ↔ v ≠ "" ∧ ∃ rule ∈ rules, ∃ branch ∈ rule.branches, branch.goVersion = v := by
  simp [named, and_comm]

/-! ### First occurrences -/

/-- One more version is kept behind the others if it is new. -/
theorem eraseDups_concat (l : List String) (a : String) :
    (l ++ [a]).eraseDups = if a ∈ l then l.eraseDups else l.eraseDups ++ [a] := by
  rw [List.eraseDups_append]
  by_cases h : a ∈ l <;> simp [List.removeAll, h, List.eraseDups_cons]

theorem nodup_eraseDups (l : List String) : l.eraseDups.Nodup := by
  induction l using List.reverseRecOn with
  | nil => simp
  | append_singleton l a ih =>
      rw [eraseDups_concat]
      split
      · exact ih
      · next h =>
        refine List.nodup_append.2 ⟨ih, by simp, fun b hb c hc => ?_⟩
        rw [List.mem_singleton.1 hc]
        rintro rfl
        exact h (List.mem_eraseDups.1 hb)

theorem idxOf_concat_of_notMem {l : List String} {v : String} (hv : v ∉ l) (a : String) :
    (l ++ [a]).idxOf v = if a = v then l.length else l.length + 1 := by
  rw [List.idxOf_append, if_neg hv, List.idxOf_cons, List.idxOf_nil]
  by_cases h : a = v
  · simp [h]
  · simp [h, beq_false_of_ne h, Nat.add_comm]

/-- One more element changes the order of two only if it is the first occurrence of the one. -/
theorem idxOf_concat_lt_iff (v w a : String) (l : List String) :
    (l ++ [a]).idxOf v < (l ++ [a]).idxOf w ↔
      l.idxOf v < l.idxOf w ∨ (v ∉ l ∧ w ∉ l ∧ a = v ∧ w ≠ v) := by
  have hin : ∀ u ∈ l, l.idxOf u < l.length ∧ (l ++ [a]).idxOf u = l.idxOf u := fun u hu =>
    ⟨List.idxOf_lt_length_of_mem hu, by rw [List.idxOf_append, if_pos hu]⟩
  have hout : ∀ u, u ∉ l → l.idxOf u = l.length := fun u hu => List.idxOf_eq_length hu
  by_cases hv : v ∈ l <;> by_cases hw : w ∈ l
  · simp [hv, hin v hv, hin w hw]
  · have := hin v hv
    rw [(hin v hv).2, idxOf_concat_of_notMem hw, hout w hw]
    simp only [hv, not_true_eq_false, false_and, or_false]
    split <;> omega
  · have := hin w hw
    rw [(hin w hw).2, idxOf_concat_of_notMem hv, hout v hv]
    simp only [hw, not_true_eq_false, false_and, and_false, or_false]
    split <;> omega
  · rw [idxOf_concat_of_notMem hv, idxOf_concat_of_notMem hw, hout v hv, hout w hw]
    by_cases hav : a = v <;> by_cases haw : a = w <;> simp_all [eq_comm]

/-- **First occurrences stand in the order of the list.** -/
theorem idxOf_eraseDups_lt_iff (v w : String) (l : List String) :
    l.eraseDups.idxOf v < l.eraseDups.idxOf w ↔ l.idxOf v < l.idxOf w := by
  induction l using List.reverseRecOn with
  | nil => simp
  | append_singleton l a ih =>
      rw [eraseDups_concat, idxOf_concat_lt_iff]
      split
      · next h =>
        rw [ih]
        refine (or_iff_left ?_).symm
        rintro ⟨hv, -, rfl, -⟩
        exact hv h
      · rw [idxOf_concat_lt_iff, ih, List.mem_eraseDups, List.mem_eraseDups]

/-! ### The versions as an ordered set -/

theorem mem_goVersions {rules : List RepositoryRule} {default v : String} :
    v ∈ goVersions rules default ↔ v = default ∨ v ∈ named rules := by
  rw [goVersions_eq_eraseDups, List.mem_eraseDups, List.mem_cons]

/-- Rules that are appended add the versions that are new, behind the others. -/
theorem goVersions_append (rules more : List RepositoryRule) (default : String) :
    goVersions (rules ++ more) default =
      goVersions rules default ++ ((named more).removeAll (default :: named rules)).eraseDups := by
  rw [goVersions_eq_eraseDups, named_append, ← List.cons_append, List.eraseDups_append,
    ← goVersions_eq_eraseDups]

/-- Rules that name no new version add nothing. -/
theorem goVersions_append_of_known {rules more : List RepositoryRule} {default : String}
    (h : ∀ v ∈ named more, v ∈ goVersions rules default) :
    goVersions (rules ++ more) default = goVersions rules default := by
  have hnone : (named more).removeAll (default :: named rules) = [] := by
    rw [List.removeAll, List.filter_eq_nil_iff]
    intro v hv
    simpa [or_iff_not_imp_left] using mem_goVersions.1 (h v hv)
  rw [goVersions_append, hnone]
  simp

/-- **The versions are an ordered set.**  They are what is left of the default and the versions that
are named, in the order of the document, when each is kept where it stands first: the default is the
first of them, none stands twice, the default and the non-empty versions of the branches are all of
them, and any two stand in the order of their first occurrences.  Rules that are appended only append
to the set, and they leave it as it is if it holds their versions already. -/
theorem goVersions_first_occurrences (rules : List RepositoryRule) (default : String) :
    goVersions rules default = (default :: named rules).eraseDups ∧
      (goVersions rules default).head? = some default ∧
      (goVersions rules default).Nodup ∧
      (∀ v, v ∈ goVersions rules default ↔ v = default ∨
        (v ≠ "" ∧ ∃ rule ∈ rules, ∃ branch ∈ rule.branches, branch.goVersion = v)) ∧
      (∀ v w, (goVersions rules default).idxOf v < (goVersions rules default).idxOf w ↔
        (default :: named rules).idxOf v < (default :: named rules).idxOf w) ∧
      (∀ more, goVersions rules default <+: goVersions (rules ++ more) default) ∧
      ∀ more, (∀ rule ∈ more, ∀ branch ∈ rule.branches, branch.goVersion ≠ "" →
          branch.goVersion ∈ goVersions rules default) →
        goVersions (rules ++ more) default = goVersions rules default := by
  have heq := goVersions_eq_eraseDups rules default
  refine ⟨heq, ?_, ?_, ?_, ?_, ?_, ?_⟩
  · rw [goVersions_eq, List.head?_cons]
  · exact heq ▸ nodup_eraseDups _
  · intro v
    rw [mem_goVersions, mem_named]
  · intro v w
    rw [heq, idxOf_eraseDups_lt_iff]
  · intro more
    exact goVersions_append rules more default ▸ List.prefix_append _ _
  · intro more hknown
    refine goVersions_append_of_known fun v hv => ?_
    obtain ⟨hne, rule, hrule, branch, hbranch, rfl⟩ := mem_named.1 hv
    exact hknown rule hrule branch hbranch hne

namespace Sample

/-- Rules whose branches name the default, a version twice, and none. -/
def versioned : List RepositoryRule :=
  [⟨"a", [⟨"master", "1.9"⟩, ⟨"release", ""⟩]⟩, ⟨"b", [⟨"master", "1.10"⟩, ⟨"release", "1.9"⟩]⟩]

theorem goVersions_first_occurrences_versioned :
    goVersions versioned "1.10" = ["1.10", "1.9"] ∧
      goVersions (versioned ++ versioned) "1.10" = ["1.10", "1.9"] := by
  have hlist : goVersions versioned "1.10" = ["1.10", "1.9"] := by decide
  obtain ⟨-, -, -, -, -, -, hknown⟩ := goVersions_first_occurrences versioned "1.10"
  exact ⟨hlist, (hknown versioned (by decide)).trans hlist⟩

end Sample

end Provision.Rules
