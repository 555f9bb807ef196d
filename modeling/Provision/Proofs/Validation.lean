/-
**Nothing happens before the input is valid.**

A run reads its command line, its configuration and its rules before it does anything.  If one of
them is not accepted, for whatever reason, no command has been launched and no file has changed.
Turned around: a run that has launched a command or changed a file works with a plan in which
nothing is missing.

Main definitions:

* `Provision.Config.IsComplete`, `Provision.RepositoryRule.IsNamed` — a configuration without an
  empty entry, and a rule with a destination;
* `Provision.Bootstrap.Plan.IsValid` — **a plan in which nothing is missing**.

Main results:

* `Provision.Config.isComplete_of_resolve` — the configuration in effect is complete;
* `Provision.Rules.isNamed_of_ofDocument` — all rules that are read have a destination;
* `Provision.Bootstrap.isValid_of_prepare` — a plan is valid;
* `Provision.Bootstrap.nothing_happens_before_validation` — **without a valid plan nothing
  happens**.
-/

import Provision.Proofs.Preparation

set_option relaxedAutoImplicit false
set_option autoImplicit false

namespace Provision

open Step

/-! ### The configuration -/

namespace Config

/-- **No entry of the configuration is empty.** -/
structure IsComplete (c : Config) : Prop where
  sourceOrg : c.sourceOrg ≠ ""
  sourceRepo : c.sourceRepo ≠ ""
  targetOrg : c.targetOrg ≠ ""
  githubHost : c.githubHost ≠ ""
  basePackage : c.basePackage ≠ ""
  rulesFile : c.rulesFile ≠ ""

theorem orElse_ne_empty {value default : String} (h : default ≠ "") : orElse value default ≠ "" := by
  unfold orElse
  split
  · exact h
  · assumption

theorem derivedPackage_ne_empty (c : Config) : c.derivedPackage ≠ "" := by
  unfold derivedPackage
  split
  · decide
  -- there is a slash in it
  · simp [String.append_eq_empty_iff]

/-- Host and base package are never missing, because both have a default. -/
theorem complete_ne_empty (c : Config) (overrides : Overrides) :
    (c.complete overrides).githubHost ≠ "" ∧ (c.complete overrides).basePackage ≠ "" := by
  unfold complete
  exact ⟨orElse_ne_empty (by decide), orElse_ne_empty (derivedPackage_ne_empty _)⟩

/-- **The configuration in effect is complete**, and the layout is for its base package. -/
theorem isComplete_of_resolve {c c' : Config} {overrides : Overrides} {root : Path}
    {ruleFilePath : String} {layout : Layout}
    (h : c.resolve overrides root ruleFilePath = .ok (c', layout)) :
    c'.IsComplete ∧ layout = ⟨root, c'.basePackage⟩ := by
  obtain ⟨hhost, hpackage⟩ := c.complete_ne_empty overrides
  unfold resolve at h
  dsimp only at h
  generalize c.complete overrides = d at h hhost hpackage
  -- one check after the other has been passed
  split at h
  · simp [bind, Except.bind] at h
  next hsource =>
  split at h
  · simp [bind, Except.bind] at h
  next htarget =>
  obtain ⟨hrepo, horg⟩ := not_or.1 hsource
  -- where the rules file comes from does not matter for the other entries
  have hdone : ∀ file : String,
      (if file = "" then throw ConfigError.missingRulesFile
        else pure ({ d with rulesFile := file }, ⟨root, d.basePackage⟩) :
          Except ConfigError (Config × Layout)) = .ok (c', layout) →
      c'.IsComplete ∧ layout = ⟨root, c'.basePackage⟩ := by
    intro file h
    split at h
    · simp at h
    next hfile =>
    obtain ⟨rfl, rfl⟩ : _ = c' ∧ _ = layout := by simpa [pure, Except.pure] using h
    exact ⟨⟨horg, hrepo, htarget, hhost, hpackage, hfile⟩, rfl⟩
  by_cases hpath : ruleFilePath = ""
  · simp only [hpath, if_true] at h
    exact hdone _ h
  · simp only [hpath, if_false] at h
    exact hdone _ h

end Config

/-! ### The rules -/

theorem scalarText_not_mem_nullTexts {v : Option Yaml.Value} (h : scalarText v ≠ "") :
    scalarText v ∉ nullTexts := by
  match v with
  | some (.scalar text) =>
      by_cases hnull : text ∈ nullTexts
      · simp [scalarText, hnull] at h
      · simp [scalarText, hnull]
  | none | some (.sequence _) | some (.mapping _) => simp [scalarText] at h

/-- **The rule has a destination**: a text that neither is empty nor means null. -/
def RepositoryRule.IsNamed (r : RepositoryRule) : Prop :=
  r.destination ≠ "" ∧ r.destination ∉ nullTexts

namespace Rules

/-- What holds of every item that is read holds of all items of a list. -/
theorem forall_of_readItems {ε α : Type} {read : Nat → Yaml.Value → Except ε α} {good : α → Prop}
    (hread : ∀ index v a, read index v = .ok a → good a) {index : Nat} {vs : List Yaml.Value}
    {as : List α} (h : readItems read index vs = .ok as) : ∀ a ∈ as, good a := by
  induction vs generalizing index as with
  | nil =>
      obtain rfl : [] = as := by simpa [readItems] using h
      simp
  | cons v vs ih =>
      unfold readItems at h
      cases hv : read index v with
      | error e => simp [hv, bind, Except.bind] at h
      | ok a =>
          cases hvs : readItems read (index + 1) vs with
          | error e => simp [hv, hvs, bind, Except.bind] at h
          | ok rest =>
              obtain rfl : a :: rest = as := by
                simpa [hv, hvs, bind, Except.bind, pure, Except.pure] using h
              intro x hx
              rcases List.mem_cons.1 hx with rfl | hx
              · exact hread index v x hv
              · exact ih hvs x hx

theorem isNamed_of_readRule {path : Path} {index : Nat} {v : Yaml.Value} {r : RepositoryRule}
    (h : readRule path index v = .ok r) : r.IsNamed := by
  cases v with
  | scalar text => simp [readRule] at h
  | sequence items => simp [readRule] at h
  | mapping pairs =>
      simp only [readRule] at h
      split at h
      · simp at h
      next hdestination =>
      split at h
      · simp at h
      next vs _ =>
      cases hbranches : readItems
          (readBranch path (scalarText (Yaml.Value.get? pairs "destination"))) 0 vs with
      | error e => simp [hbranches, bind, Except.bind] at h
      | ok branches =>
          obtain rfl : _ = r := by
            simpa [hbranches, bind, Except.bind, pure, Except.pure] using h
          exact ⟨hdestination, scalarText_not_mem_nullTexts hdestination⟩

/-- **All rules that are read have a destination.** -/
theorem isNamed_of_ofDocument {path : Path} {v : Option Yaml.Value} {rules : List RepositoryRule}
    (h : ofDocument path v = .ok rules) : ∀ r ∈ rules, r.IsNamed := by
  unfold ofDocument at h
  split at h
  · obtain rfl : [] = rules := by simpa using h
    simp
  · dsimp only at h
    split at h
    · simp at h
    · exact forall_of_readItems (fun _ _ _ => isNamed_of_readRule) h
  · simp at h

end Rules

theorem isNamed_of_loadRules {path : Path} {rules : List RepositoryRule} {m m' : Machine}
    (h : (loadRules path).perform m = (.ok rules, m')) : ∀ r ∈ rules, r.IsNamed := by
  obtain ⟨path, m₁, -, h⟩ := perform_bind_eq_ok.1 h
  obtain ⟨v, m₂, -, h⟩ := perform_bind_eq_ok.1 h
  split at h
  · next rules' hread =>
    obtain ⟨rfl, -⟩ : rules' = rules ∧ m₂ = m' := by simpa using h
    exact Rules.isNamed_of_ofDocument hread
  · simp at h

/-! ### The plan -/

namespace Bootstrap

/-- **Nothing is missing in a plan**: its configuration is complete, its layout is for the base
package of the configuration, and each of its rules has a destination. -/
structure Plan.IsValid (p : Plan) : Prop where
  config : p.config.IsComplete
  layout : p.layout.basePackage = p.config.basePackage
  rules : ∀ r ∈ p.rules, r.IsNamed

theorem isComplete_of_complete {a : Arguments} {read : Config} {m m' : Machine} {config : Config}
    {layout : Layout} (h : (complete a read).perform m = (.ok (config, layout), m')) :
    config.IsComplete ∧ layout.basePackage = config.basePackage := by
  obtain ⟨_, m₂, -, h⟩ := perform_bind_eq_ok.1 h
  obtain ⟨root, m₃, -, h⟩ := perform_bind_eq_ok.1 h
  split at h
  · next result hresolve =>
    obtain ⟨rfl, -⟩ : result = (config, layout) ∧ m₃ = m' := by simpa using h
    obtain ⟨hcomplete, rfl⟩ := Config.isComplete_of_resolve hresolve
    exact ⟨hcomplete, rfl⟩
  · simp at h

theorem isComplete_of_configure {a : Arguments} {m m' : Machine} {config : Config} {layout : Layout}
    (h : (configure a).perform m = (.ok (config, layout), m')) :
    config.IsComplete ∧ layout.basePackage = config.basePackage := by
  unfold configure at h
  split at h
  · obtain ⟨read, m₁, -, h⟩ := perform_bind_eq_ok.1 h
    exact isComplete_of_complete h
  · obtain ⟨read, m₁, -, h⟩ := perform_bind_eq_ok.1 h
    exact isComplete_of_complete h

/-- **A plan is valid.** -/
theorem isValid_of_prepare {a : Arguments} {m m' : Machine} {p : Plan}
    (h : (prepare a).perform m = (.ok p, m')) : p.IsValid := by
  simp only [prepare, perform_bind_eq_ok, perform_debug, perform_get, perform_info, perform_pure,
    Prod.mk.injEq, Except.ok.injEq] at h
  obtain ⟨_, _, -, _, _, -, ⟨config, layout⟩, m₁, hconfigure, _, _, -, _, _, -, rules, m₂, hload, _,
    _, -, rfl, -⟩ := h
  obtain ⟨hcomplete, hlayout⟩ := isComplete_of_configure hconfigure
  exact ⟨hcomplete, hlayout, isNamed_of_loadRules hload⟩

/-! ### Runs without a plan -/

/-- A run without a plan launches nothing and changes no file. -/
theorem run_of_error {words : List String} {a : Arguments} (hread : Arguments.read words = .run a)
    {m m₁ : Machine} {f : Failure}
    (hprepare : (prepare a).perform { m with log := [] } = (.error f, m₁)) :
    (run words m).2.launches = m.launches ∧ (run words m).2.files = m.files ∧
      (run words m).1.exit = (conclude m₁ (.error f)).1 := by
  obtain ⟨records, hquiet⟩ := quiet_prepare a { m with log := [] }
  rw [hprepare] at hquiet
  have hsetUp : (setUp a).perform { m with log := [] } = (.error f, m₁) :=
    perform_bind_error hprepare
  rw [run_machine hread, run_exit hread, hsetUp]
  dsimp only at hquiet ⊢
  rw [hquiet]
  exact ⟨rfl, rfl, rfl⟩

theorem conclude_ne_dismissed (m : Machine) (r : Except Failure Unit) (code : Nat) :
    (conclude m r).1 ≠ .dismissed code := by
  cases r with
  | ok u => simp [conclude]
  | error f => cases f <;> simp [conclude, Failure.isReported]

/-- **Nothing happens before the input is valid.**  A run that its command line ends, or that does
not get its configuration or its rules, launches nothing and changes no file; it returns 2 if that
is an error of the configuration or the rules.  Any run that does launch a command or change a file
has a valid plan. -/
theorem nothing_happens_before_validation (words : List String) (m : Machine) :
    (∀ code, (run words m).1.exit = .dismissed code →
      (run words m).2.launches = m.launches ∧ (run words m).2.files = m.files) ∧
    (∀ a f m₁, Arguments.read words = .run a →
      (prepare a).perform { m with log := [] } = (.error f, m₁) →
      (run words m).2.launches = m.launches ∧ (run words m).2.files = m.files ∧
        ((∃ e, f = .config e) ∨ (∃ e, f = .rules e) → (run words m).1.exit = .returned 2)) ∧
    ((run words m).2.launches ≠ m.launches ∨ (run words m).2.files ≠ m.files →
      ∃ a p m₁, Arguments.read words = .run a ∧
        (prepare a).perform { m with log := [] } = (.ok p, m₁) ∧ p.IsValid) := by
  refine ⟨?_, ?_, ?_⟩
  · intro code hexit
    cases hread : Arguments.read words with
    | help => simp [run, hread]
    | wrong e => simp [run, hread]
    | run a =>
        -- the work of a run never ends with a dismissal
        rw [run_exit hread] at hexit
        exact absurd hexit (conclude_ne_dismissed _ _ code)
  · intro a f m₁ hread hprepare
    obtain ⟨hlaunches, hfiles, hexit⟩ := run_of_error hread hprepare
    refine ⟨hlaunches, hfiles, ?_⟩
    rw [hexit]
    rintro (⟨e, rfl⟩ | ⟨e, rfl⟩)
    · rfl
    · rfl
  · intro hchanged
    cases hread : Arguments.read words with
    | help => simp [run, hread] at hchanged
    | wrong e => simp [run, hread] at hchanged
    | run a =>
        rcases hprepare : (prepare a).perform { m with log := [] } with ⟨f | p, m₁⟩
        · obtain ⟨hlaunches, hfiles, -⟩ := run_of_error hread hprepare
          simp [hlaunches, hfiles] at hchanged
        · exact ⟨a, p, m₁, rfl, hprepare, isValid_of_prepare hprepare⟩

namespace Sample

/-- A command line whose rules are not there. -/
def unruled : List String :=
  ["--source-repo", "widgets", "--source-org", "acme", "--target-org", "pub",
    "--rules-file", "/nowhere"]

/-- Whether it is the rules that have failed. -/
def blamesRules : Except Failure Plan → Bool
  | .error (.rules _) => true
  | _ => false

end Sample

/-- Asking for help, naming rules that are not there, and a run with everything it needs. -/
theorem nothing_happens_before_validation_sample :
    ((run ["--help"] Sample.machine).1.exit = .dismissed 0 ∧
      (run ["--help"] Sample.machine).2.launches = Sample.machine.launches ∧
      (run ["--help"] Sample.machine).2.files = Sample.machine.files) ∧
    ((run Sample.unruled Sample.machine).1.exit = .returned 2 ∧
      (run Sample.unruled Sample.machine).2.launches = Sample.machine.launches ∧
      (run Sample.unruled Sample.machine).2.files = Sample.machine.files) ∧
    ((run Sample.words Sample.machine).2.launches ≠ Sample.machine.launches ∧
      ∃ a p m₁, Arguments.read Sample.words = .run a ∧
        (prepare a).perform { Sample.machine with log := [] } = (.ok p, m₁) ∧ p.IsValid) := by
  have hhelp : (run ["--help"] Sample.machine).1.exit = .dismissed 0 := by decide +kernel
  have hlaunched : (run Sample.words Sample.machine).2.launches ≠ Sample.machine.launches := by
    decide +kernel
  have hread : Arguments.read Sample.unruled =
      .run { Sample.arguments with rulesFile := .given "/nowhere" } := by decide +kernel
  -- what fails is the loading of the rules
  have hrules : Sample.blamesRules ((prepare { Sample.arguments with
      rulesFile := .given "/nowhere" }).perform { Sample.machine with log := [] }).1 = true := by
    decide +kernel
  refine ⟨⟨hhelp, ?_⟩, ?_, hlaunched, ?_⟩
  · exact (nothing_happens_before_validation ["--help"] Sample.machine).1 0 hhelp
  · rcases hprepare : (prepare { Sample.arguments with rulesFile := .given "/nowhere" }).perform
      { Sample.machine with log := [] } with ⟨f | p, m₁⟩
    · rw [hprepare] at hrules
      obtain ⟨e, rfl⟩ : ∃ e, f = .rules e := by
        cases f <;> simp [Sample.blamesRules] at hrules ⊢
      obtain ⟨hlaunches, hfiles, hexit⟩ :=
        (nothing_happens_before_validation Sample.unruled Sample.machine).2.1 _ _ _ hread hprepare
      exact ⟨hexit (Or.inr ⟨e, rfl⟩), hlaunches, hfiles⟩
    · rw [hprepare] at hrules
      simp [Sample.blamesRules] at hrules
  · exact (nothing_happens_before_validation Sample.words Sample.machine).2.2 (Or.inl hlaunched)

end Bootstrap

end Provision
