/-
**Which value takes precedence.**

An entry of the configuration may be given on the command line, by the document, or not at all; the
command line comes first, and an empty text there is as good as none.  Host and base package have a
default.  That of the base package is made of the other entries as they are in effect, so that it comes
after all of them, and the layout comes after it; a path in the environment is read in that layout and
comes before all that names a file with rules.

This is said here entry by entry, without resolving anything: what an entry is in effect, which
configuration with which layout is in effect, and what is lacking where there is none.  Resolving a
configuration answers exactly by the one and fails exactly by the other.  In what it answers nothing is
left to be given or derived, so that resolving it once more changes nothing.

Main definitions:

* `Provision.Config.Given`, `Provision.Config.Defaulted` — what an entry is in effect;
* `Provision.Config.InEffect` — **the configuration and the layout that are in effect**;
* `Provision.Config.Lacks` — what is lacking, the source before the target before the rules file.

Main results:

* `Provision.Config.given_iff`, `Provision.Config.defaulted_iff` — one entry;
* `Provision.Config.resolve_eq` — resolving is a check of three entries;
* `Provision.Config.resolve_by_precedence` — **resolving follows the precedence**, and once is enough.
-/

import Provision.Proofs.Paths
import Provision.Proofs.RuleGrammar
import Provision.Proofs.Validation

set_option relaxedAutoImplicit false
set_option autoImplicit false

namespace Provision

/-! ### Paths with a text -/

namespace Path

/-- Only a single component without a text is written as nothing. -/
theorem toString_eq_empty_iff {p : Path} :
    p.toString = "" ↔ p.anchor = .relative ∧ p.parts = [""] := by
  obtain ⟨anchor, parts⟩ := p
  cases anchor with
  | relative =>
      match parts with
      | [] => simp [toString]
      | [w] => simp [toString, Anchor.text]
      | w :: v :: rest =>
          simp [toString, Anchor.text, String.intercalate_cons_cons, String.append_eq_empty_iff]
  | root => simp [toString, Anchor.text, String.append_eq_empty_iff]
  | doubleRoot => simp [toString, Anchor.text, String.append_eq_empty_iff]

/-- What lies below a path that has a text has one. -/
theorem toString_child_ne_empty {p : Path} (h : p.toString ≠ "") (s : String) :
    (p.child s).toString ≠ "" := by
  have hclean := clean_ofString s
  rw [Ne, toString_eq_empty_iff, child]
  by_cases ha : (ofString s).anchor = .relative
  · rw [join_of_relative ha]
    rintro ⟨hanchor, hparts⟩
    -- the one component comes from the path, which has a text, or from what was read
    rcases List.append_eq_singleton_iff.1 hparts with ⟨-, hread⟩ | ⟨hown, -⟩
    · exact (hclean "" (by simp [hread])).1 rfl
    · exact h (toString_eq_empty_iff.2 ⟨hanchor, hown⟩)
  · rw [join_of_absolute ha]
    exact fun hempty => ha hempty.1

end Path

/-- What lies below the directory of a repository has a text, whatever the root is. -/
theorem Layout.toString_repoDir_child_ne_empty (l : Layout) (name s : String) :
    ((l.repoDir name).child s).toString ≠ "" := by
  have hsrc : (l.root.child "src").toString ≠ "" := by
    have hread : Path.ofString "src" = ⟨.relative, ["src"]⟩ := by decide
    rw [Ne, Path.toString_eq_empty_iff, Path.child, hread, Path.join_of_relative rfl]
    rintro ⟨-, hparts⟩
    rcases List.append_eq_singleton_iff.1 hparts with ⟨-, h⟩ | ⟨-, h⟩ <;> simp at h
  exact Path.toString_child_ne_empty (Path.toString_child_ne_empty
    (Path.toString_child_ne_empty hsrc l.basePackage) name) s

namespace Config

open Yaml Yaml.Value

/-! ### One entry -/

/-- **What an entry is in effect**: what is given for it on the command line, else the text in the
document under its key. -/
inductive Given (pairs : List (String × Value)) (key : String) : Option String → String → Prop where
  | override {s : String} (htext : s ≠ "") : Given pairs key (some s) s
  | document {given : Option String} {s : String} (hgiven : given = none ∨ given = some "")
      (hkey : get? pairs key = some (.scalar s)) (htext : ¬Blank (some (.scalar s))) :
      Given pairs key given s

/-- What an entry is in effect that has a default. -/
inductive Defaulted (pairs : List (String × Value)) (key : String) (given : Option String)
    (default : String) : String → Prop where
  | given {s : String} (h : Given pairs key given s) : Defaulted pairs key given default s
  | missing (h : ∀ s, ¬Given pairs key given s) : Defaulted pairs key given default default

section

variable {pairs : List (String × Value)} {key s default : String} {given : Option String}

/-- What is not given, or given as an empty text, overrides nothing. -/
theorem override_of_blank (h : given = none ∨ given = some "") (value : String) :
    override given value = value := by
  rcases h with rfl | rfl <;> rfl

/-- **The entry in effect is the text that is given by the command line or else by the document.** -/
theorem given_iff :
    Given pairs key given s ↔ override given (scalarText (get? pairs key)) = s ∧ s ≠ "" := by
  constructor
  · rintro (⟨htext⟩ | ⟨hgiven, hkey, htext⟩)
    · exact ⟨if_neg htext, htext⟩
    · have hs : s ≠ "" := fun hempty => htext (hempty ▸ .empty)
      refine ⟨?_, hs⟩
      rw [override_of_blank hgiven, scalarText_eq_iff_of_ne hs, hkey]
      exact ⟨rfl, htext⟩
  · rintro ⟨htext, hs⟩
    by_cases hgiven : given = none ∨ given = some ""
    · rw [override_of_blank hgiven, scalarText_eq_iff_of_ne hs] at htext
      exact .document hgiven htext.1 (htext.1 ▸ htext.2)
    · match given with
      | none => simp at hgiven
      | some t =>
          have ht : t ≠ "" := by simpa using hgiven
          obtain rfl : t = s := by rwa [override, if_neg ht] at htext
          exact .override ht

/-- An entry is missing exactly if it is an empty text once it is read. -/
theorem not_given_iff :
    (∀ s, ¬Given pairs key given s) ↔ override given (scalarText (get? pairs key)) = "" := by
  constructor
  · intro h
    by_contra hne
    exact h _ (given_iff.2 ⟨rfl, hne⟩)
  · intro h s hs
    obtain ⟨htext, hne⟩ := given_iff.1 hs
    exact hne (htext.symm.trans h)

/-- **An entry with a default** is the default exactly if it is missing. -/
theorem defaulted_iff :
    Defaulted pairs key given default s ↔
      orElse (override given (scalarText (get? pairs key))) default = s := by
  by_cases hmissing : override given (scalarText (get? pairs key)) = ""
  · have hnone := not_given_iff.2 hmissing
    rw [hmissing, orElse, if_pos rfl]
    constructor
    · rintro (h | -)
      · exact absurd h (hnone s)
      · rfl
    · rintro rfl
      exact .missing hnone
  · rw [orElse, if_neg hmissing]
    constructor
    · rintro (h | h)
      · exact (given_iff.1 h).1
      · exact absurd (not_given_iff.1 h) hmissing
    · rintro rfl
      exact .given (given_iff.2 ⟨rfl, hmissing⟩)

end

/-! ### What is in effect, and what is lacking -/

/-- **The configuration and the layout in effect**, from the pairs of a document, the command line,
the root of the workspace and the environment.  The base package is derived from the entries in
effect, and the path in the environment is read in the layout in effect. -/
structure InEffect (pairs : List (String × Value)) (o : Overrides) (root : Path) (env : Environment)
    (c : Config) (layout : Layout) : Prop where
  sourceOrg : Given pairs "source-org" o.sourceOrg c.sourceOrg
  sourceRepo : Given pairs "source-repo" o.sourceRepo c.sourceRepo
  targetOrg : Given pairs "target-org" o.targetOrg c.targetOrg
  githubHost : Defaulted pairs "github-host" o.githubHost "github.com" c.githubHost
  basePackage : Defaulted pairs "base-package" o.basePackage
    (if c.sourceRepo = "kubernetes" then "k8s.io" else c.githubHost ++ "/" ++ c.targetOrg)
    c.basePackage
  /-- The environment comes first, then the command line, then the document. -/
  rulesFile : if env.value "RULE_FILE_PATH" = "" then Given pairs "rules-file" o.rulesFile c.rulesFile
    else c.rulesFile = ((layout.repoDir c.sourceRepo).child (env.value "RULE_FILE_PATH")).toString
  layout : layout = ⟨root, c.basePackage⟩

/-- **What is lacking**: the first of the source, the target and the rules file of which there is
nothing. -/
inductive Lacks (pairs : List (String × Value)) (o : Overrides) (env : Environment) :
    ConfigError → Prop where
  | source (h : (∀ s, ¬Given pairs "source-repo" o.sourceRepo s) ∨
      ∀ s, ¬Given pairs "source-org" o.sourceOrg s) : Lacks pairs o env .missingSource
  | target {repo org : String} (hrepo : Given pairs "source-repo" o.sourceRepo repo)
      (horg : Given pairs "source-org" o.sourceOrg org)
      (h : ∀ s, ¬Given pairs "target-org" o.targetOrg s) : Lacks pairs o env .missingTarget
  | rulesFile {repo org target : String} (hrepo : Given pairs "source-repo" o.sourceRepo repo)
      (horg : Given pairs "source-org" o.sourceOrg org)
      (htarget : Given pairs "target-org" o.targetOrg target)
      (hpath : env.value "RULE_FILE_PATH" = "")
      (h : ∀ s, ¬Given pairs "rules-file" o.rulesFile s) : Lacks pairs o env .missingRulesFile

/-! ### Resolving -/

/-- The rules file: the path in the source repository if there is one, else what is given. -/
def rulesFileIn (layout : Layout) (repo path given : String) : String :=
  if path = "" then given else ((layout.repoDir repo).child path).toString

theorem rulesFileIn_eq_empty_iff {layout : Layout} {repo path given : String} :
    rulesFileIn layout repo path given = "" ↔ path = "" ∧ given = "" := by
  unfold rulesFileIn
  split
  · next hpath => simp [hpath]
  · next hpath => simp [hpath, layout.toString_repoDir_child_ne_empty]

/-- **Resolving is a check of three entries**, one after the other, of the completed configuration. -/
theorem resolve_eq (c : Config) (o : Overrides) (root : Path) (path : String) :
    c.resolve o root path =
      if (c.complete o).sourceRepo = "" ∨ (c.complete o).sourceOrg = "" then .error .missingSource
      else if (c.complete o).targetOrg = "" then .error .missingTarget
      else if rulesFileIn ⟨root, (c.complete o).basePackage⟩ (c.complete o).sourceRepo path
        (override o.rulesFile c.rulesFile) = "" then .error .missingRulesFile
      else .ok ({ c.complete o with
        rulesFile := rulesFileIn ⟨root, (c.complete o).basePackage⟩ (c.complete o).sourceRepo path
          (override o.rulesFile c.rulesFile) }, ⟨root, (c.complete o).basePackage⟩) := by
  have hfile : (c.complete o).rulesFile = c.rulesFile := rfl
  unfold resolve rulesFileIn
  dsimp only
  rw [hfile]
  by_cases hsource : (c.complete o).sourceRepo = "" ∨ (c.complete o).sourceOrg = ""
  · rw [if_pos hsource, if_pos hsource]
    rfl
  rw [if_neg hsource, if_neg hsource]
  by_cases htarget : (c.complete o).targetOrg = ""
  · rw [if_pos htarget, if_pos htarget]
    rfl
  rw [if_neg htarget, if_neg htarget]
  -- the check of the rules file comes behind the choice of it
  by_cases hpath : path = ""
  · simp only [if_pos hpath]
    split <;> rfl
  · simp only [if_neg hpath]
    split <;> rfl

/-- What resolving answers is the completed configuration with the rules file that is chosen. -/
theorem eq_of_resolve {c c' : Config} {o : Overrides} {root : Path} {path : String} {layout : Layout}
    (h : c.resolve o root path = .ok (c', layout)) :
    c' = { c.complete o with
      rulesFile := rulesFileIn ⟨root, (c.complete o).basePackage⟩ (c.complete o).sourceRepo path
        (override o.rulesFile c.rulesFile) } ∧ layout = ⟨root, (c.complete o).basePackage⟩ := by
  rw [resolve_eq] at h
  split at h
  · simp at h
  split at h
  · simp at h
  split at h
  · simp at h
  obtain ⟨rfl, rfl⟩ : _ = c' ∧ _ = layout := by simpa using h
  exact ⟨rfl, rfl⟩

/-! ### Once is enough -/

/-- A complete configuration is complete already. -/
theorem complete_of_isComplete {c : Config} (h : c.IsComplete) : c.complete {} = c := by
  obtain ⟨-, -, -, hhost, hpackage, -⟩ := h
  simp [complete, override, orElse, hhost, hpackage]

/-- **A configuration in effect stays in effect.** -/
theorem resolve_of_isComplete {c : Config} (h : c.IsComplete) (root : Path) {path : String}
    (hfile : rulesFileIn ⟨root, c.basePackage⟩ c.sourceRepo path c.rulesFile = c.rulesFile) :
    c.resolve {} root path = .ok (c, ⟨root, c.basePackage⟩) := by
  have hgiven : override ({} : Overrides).rulesFile c.rulesFile = c.rulesFile := rfl
  rw [resolve_eq, complete_of_isComplete h, hgiven, hfile, if_neg (not_or.2 ⟨h.sourceRepo, h.sourceOrg⟩),
    if_neg h.targetOrg, if_neg h.rulesFile]

/-- What is in effect is complete, and its rules file is the one that is chosen. -/
theorem rulesFileIn_of_resolve {c c' : Config} {o : Overrides} {root : Path} {path : String}
    {layout : Layout} (h : c.resolve o root path = .ok (c', layout)) :
    rulesFileIn ⟨root, c'.basePackage⟩ c'.sourceRepo path c'.rulesFile = c'.rulesFile := by
  obtain ⟨rfl, -⟩ := eq_of_resolve h
  dsimp only
  unfold rulesFileIn
  split
  · rfl
  · rfl

/-! ### Precedence -/

section

variable {pairs : List (String × Value)} {o : Overrides} {root : Path} {env : Environment}

/-- The rules file in effect is the one that is chosen, if there is one. -/
theorem rulesFileIn_iff {layout : Layout} {repo path file : String} :
    (if path = "" then Given pairs "rules-file" o.rulesFile file
      else file = ((layout.repoDir repo).child path).toString) ↔
      rulesFileIn layout repo path (override o.rulesFile (scalarText (get? pairs "rules-file"))) =
        file ∧ file ≠ "" := by
  unfold rulesFileIn
  by_cases hpath : path = ""
  · rw [if_pos hpath, if_pos hpath, given_iff]
  · rw [if_neg hpath, if_neg hpath]
    constructor
    · rintro rfl
      exact ⟨rfl, layout.toString_repoDir_child_ne_empty repo path⟩
    · rintro ⟨rfl, -⟩
      rfl

/-- **What is in effect is what resolving answers.** -/
theorem inEffect_iff {c : Config} {layout : Layout} :
    InEffect pairs o root env c layout ↔
      (ofPairs pairs).resolve o root (env.value "RULE_FILE_PATH") = .ok (c, layout) := by
  rw [resolve_eq]
  constructor
  · rintro ⟨horg, hrepo, htarget, hhost, hpackage, hfile, rfl⟩
    rw [given_iff] at horg hrepo htarget
    rw [defaulted_iff] at hhost hpackage
    rw [rulesFileIn_iff] at hfile
    -- the base package is derived from the other entries, which are the same by now
    have hd : (ofPairs pairs).complete o =
        { c with rulesFile := scalarText (get? pairs "rules-file") } := by
      simp only [complete, ofPairs, horg.1, hrepo.1, htarget.1, hhost, derivedPackage, defaultHost,
        kubernetesRepo, kubernetesPackage, hpackage]
    rw [hd, if_neg (not_or.2 ⟨hrepo.2, horg.2⟩), if_neg htarget.2]
    dsimp only
    rw [show (ofPairs pairs).rulesFile = scalarText (get? pairs "rules-file") from rfl, hfile.1,
      if_neg hfile.2]
  · intro h
    split at h
    · simp at h
    next hsource =>
    split at h
    · simp at h
    next htarget =>
    split at h
    · simp at h
    next hfile =>
    obtain ⟨rfl, rfl⟩ : _ = c ∧ _ = layout := by simpa using h
    obtain ⟨hrepo, horg⟩ := not_or.1 hsource
    exact ⟨given_iff.2 ⟨rfl, horg⟩, given_iff.2 ⟨rfl, hrepo⟩, given_iff.2 ⟨rfl, htarget⟩,
      defaulted_iff.2 rfl, defaulted_iff.2 rfl, rulesFileIn_iff.2 ⟨rfl, hfile⟩, rfl⟩

/-- **What is lacking is what resolving fails with.** -/
theorem lacks_iff {e : ConfigError} :
    Lacks pairs o env e ↔
      (ofPairs pairs).resolve o root (env.value "RULE_FILE_PATH") = .error e := by
  rw [resolve_eq]
  have hrepo : ((ofPairs pairs).complete o).sourceRepo =
      override o.sourceRepo (scalarText (get? pairs "source-repo")) := rfl
  have horg : ((ofPairs pairs).complete o).sourceOrg =
      override o.sourceOrg (scalarText (get? pairs "source-org")) := rfl
  have htarget : ((ofPairs pairs).complete o).targetOrg =
      override o.targetOrg (scalarText (get? pairs "target-org")) := rfl
  have hfile : (ofPairs pairs).rulesFile = scalarText (get? pairs "rules-file") := rfl
  rw [hrepo, horg, htarget, hfile]
  constructor
  · rintro (hsource | ⟨hrepo', horg', htarget'⟩ | ⟨hrepo', horg', htarget', hpath, hfile'⟩)
    · rw [not_given_iff, not_given_iff] at hsource
      rw [if_pos hsource]
    · rw [given_iff] at hrepo' horg'
      rw [not_given_iff] at htarget'
      rw [hrepo'.1, horg'.1, if_neg (not_or.2 ⟨hrepo'.2, horg'.2⟩), if_pos htarget']
    · rw [given_iff] at hrepo' horg' htarget'
      rw [not_given_iff] at hfile'
      rw [hrepo'.1, horg'.1, htarget'.1, if_neg (not_or.2 ⟨hrepo'.2, horg'.2⟩), if_neg htarget'.2,
        if_pos (rulesFileIn_eq_empty_iff.2 ⟨hpath, hfile'⟩)]
  · intro h
    split at h
    · next hsource =>
      obtain rfl : .missingSource = e := by simpa using h
      exact .source (hsource.imp not_given_iff.2 not_given_iff.2)
    next hsource =>
    obtain ⟨hrepo', horg'⟩ := not_or.1 hsource
    split at h
    · next htarget' =>
      obtain rfl : .missingTarget = e := by simpa using h
      exact .target (given_iff.2 ⟨rfl, hrepo'⟩) (given_iff.2 ⟨rfl, horg'⟩)
        (not_given_iff.2 htarget')
    next htarget' =>
    split at h
    · next hfile' =>
      obtain rfl : .missingRulesFile = e := by simpa using h
      obtain ⟨hpath, hnone⟩ := rulesFileIn_eq_empty_iff.1 hfile'
      exact .rulesFile (given_iff.2 ⟨rfl, hrepo'⟩) (given_iff.2 ⟨rfl, horg'⟩)
        (given_iff.2 ⟨rfl, htarget'⟩) hpath (not_given_iff.2 hnone)
    · simp at h

/-- **Resolving follows the precedence.**  It fails exactly with what is lacking, and otherwise answers
the configuration and the layout that are in effect; resolving that configuration once more, with
nothing on the command line, answers the same. -/
theorem resolve_by_precedence (pairs : List (String × Value)) (o : Overrides) (root : Path)
    (env : Environment) :
    (∀ e, (ofPairs pairs).resolve o root (env.value "RULE_FILE_PATH") = .error e ↔
      Lacks pairs o env e) ∧
    (∀ c layout, (ofPairs pairs).resolve o root (env.value "RULE_FILE_PATH") = .ok (c, layout) ↔
      InEffect pairs o root env c layout) ∧
    ∀ c layout, (ofPairs pairs).resolve o root (env.value "RULE_FILE_PATH") = .ok (c, layout) →
      c.resolve {} root (env.value "RULE_FILE_PATH") = .ok (c, layout) := by
  refine ⟨fun e => lacks_iff.symm, fun c layout => inEffect_iff.symm, fun c layout h => ?_⟩
  obtain ⟨hcomplete, rfl⟩ := isComplete_of_resolve h
  exact resolve_of_isComplete hcomplete root (rulesFileIn_of_resolve h)

end

namespace Sample

/-- A document that leaves the host to the default and names a target and a rules file. -/
def pairs : List (String × Value) :=
  [("source-repo", .scalar "widgets"), ("source-org", .scalar "acme"), ("target-org", .scalar "old"),
    ("github-host", .scalar "~"), ("rules-file", .scalar "rules.yaml")]

/-- Another target is given. -/
def overrides : Overrides := { targetOrg := some "pub", sourceRepo := some "" }

/-- The rules are in the source repository. -/
def environment : Environment := [("RULE_FILE_PATH", "staging/rules.yaml")]

/-- The configuration that is in effect. -/
def config : Config where
  sourceOrg := "acme"
  sourceRepo := "widgets"
  targetOrg := "pub"
  githubHost := "github.com"
  basePackage := "github.com/pub"
  rulesFile := "/go/src/github.com/pub/widgets/staging/rules.yaml"

end Sample

/-- The base package is made of the default host and the target that is given, and the rules file is
looked for below it. -/
theorem resolve_by_precedence_sample :
    (ofPairs Sample.pairs).resolve Sample.overrides (Path.ofString "/go")
      (Sample.environment.value "RULE_FILE_PATH") =
        .ok (Sample.config, ⟨Path.ofString "/go", "github.com/pub"⟩) ∧
    InEffect Sample.pairs Sample.overrides (Path.ofString "/go") Sample.environment Sample.config
      ⟨Path.ofString "/go", "github.com/pub"⟩ ∧
    Sample.config.resolve {} (Path.ofString "/go") (Sample.environment.value "RULE_FILE_PATH") =
      .ok (Sample.config, ⟨Path.ofString "/go", "github.com/pub"⟩) := by
  have h : (ofPairs Sample.pairs).resolve Sample.overrides (Path.ofString "/go")
      (Sample.environment.value "RULE_FILE_PATH") =
        .ok (Sample.config, ⟨Path.ofString "/go", "github.com/pub"⟩) := by
    cbv
  obtain ⟨-, hresolve, honce⟩ := resolve_by_precedence Sample.pairs Sample.overrides
    (Path.ofString "/go") Sample.environment
  exact ⟨h, (hresolve _ _).1 h, honce _ _ h⟩

end Config

end Provision
