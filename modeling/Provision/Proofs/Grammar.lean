/-
**The commands of a run.**

The commands that a run launches follow one grammar.  First come the downloads of the versions that
are missing, then what builds the tools, then what clones the source repository, then what clones or
refreshes the forks.  A run that returns zero has launched all of them; any other run stops
somewhere on the way.

Main definitions:

* `Provision.Bootstrap.Plan.Grammar` — **the commands of a run, block by block**.

Main results:

* `Provision.Rules.nodup_goVersions` — no version is asked for twice;
* `Provision.Bootstrap.Plan.chosen_of_word` — the downloads are for some of the versions, in order;
* `Provision.Bootstrap.run_follows_grammar` — **a run launches the commands of the grammar**.
-/

import Provision.Proofs.Tasks

set_option relaxedAutoImplicit false
set_option autoImplicit false

namespace Provision

/-! ### Versions -/

namespace Rules

theorem nodup_addVersion {versions : List String} (h : versions.Nodup) (v : String) :
    (addVersion versions v).Nodup := by
  unfold addVersion
  split
  · next hv => exact List.nodup_append.2 ⟨h, by simp, by rintro a ha b hb rfl; simp_all⟩
  · exact h

/-- **No version is asked for twice.** -/
theorem nodup_goVersions (rules : List RepositoryRule) : (goVersions rules).Nodup := by
  refine List.foldlRecOn rules _ (by simp) fun versions h rule _ => ?_
  exact List.foldlRecOn rule.branches _ h fun versions h branch _ => nodup_addVersion h _

theorem exists_addVersion_cons (first : String) (others : List String) (v : String) :
    ∃ others', addVersion (first :: others) v = first :: others' := by
  unfold addVersion
  split
  · exact ⟨others ++ [v], rfl⟩
  · exact ⟨others, rfl⟩

/-- **The default version comes first.** -/
theorem exists_goVersions_eq (rules : List RepositoryRule) :
    ∃ others, goVersions rules = defaultGoVersion :: others := by
  refine List.foldlRecOn (motive := fun versions => ∃ others, versions = defaultGoVersion :: others)
    rules _ ⟨[], rfl⟩ fun versions h rule _ => ?_
  refine List.foldlRecOn (motive := fun versions => ∃ others, versions = defaultGoVersion :: others)
    rule.branches _ h ?_
  rintro _ ⟨others, rfl⟩ branch -
  exact exists_addVersion_cons _ others branch.goVersion

end Rules

namespace Bootstrap

namespace Plan

/-- The downloads of a list of versions are for some of them, in the same order. -/
theorem chosen_of_word {p : Plan} {versions : List String} {m : Machine} {wanted : List Command}
    (h : p.Word (versions.map .toolchain) m wanted) :
    ∃ chosen : List (String × Nat), (chosen.map Prod.fst).Sublist versions ∧
      wanted = chosen.map fun x => Toolchain.download x.1 p.layout.root x.2 := by
  induction versions generalizing m wanted with
  | nil => exact ⟨[], by simp, h⟩
  | cons version versions ih =>
      obtain ⟨first, rest, rfl, hfirst, hrest⟩ := h
      obtain ⟨chosen, hsub, rfl⟩ := ih hrest
      simp only [Block] at hfirst
      split at hfirst
      · obtain ⟨n, rfl⟩ := hfirst
        exact ⟨(version, n) :: chosen, hsub.cons_cons version, rfl⟩
      · subst hfirst
        exact ⟨chosen, hsub.cons version, rfl⟩

/-- **The commands of a run that has the plan `p` on the machine `m`**, block by block.  What each
task finds when its turn comes decides what it launches. -/
structure Grammar (p : Plan) (m : Machine) (go tools source forks : List Command) : Prop where
  /-- Each distribution that is missing is downloaded. -/
  distributions : p.Word p.toolchains m go
  /-- The downloads are for some of the versions that the rules ask for, each once and in order. -/
  chosen : ∃ chosen : List (String × Nat),
    (chosen.map Prod.fst).Sublist (Rules.goVersions p.rules) ∧ (chosen.map Prod.fst).Nodup ∧
      go = chosen.map fun x => Toolchain.download x.1 p.layout.root x.2
  /-- Each tool that is wanted and not found is built. -/
  dependencyManagers : p.Word p.tools (p.turn (p.toolchains ++ [.link, .base]) m) tools
  /-- The source repository is cloned if it is missing. -/
  sourceRepository : p.Block (p.turn (p.toolchains ++ [.link, .base] ++ p.tools) m) .source source
  /-- Each fork is cloned or refreshed. -/
  forkRepositories :
    p.Word p.forks (p.turn (p.toolchains ++ [.link, .base] ++ p.tools ++ [.source]) m) forks

theorem turn_append (p : Plan) (ts us : List Task) (m : Machine) :
    p.turn (ts ++ us) m = p.turn us (p.turn ts m) := by
  simp [turn]

/-- The commands of all tasks fall into the blocks of the grammar. -/
theorem grammar_of_word {p : Plan} {m : Machine} {wanted : List Command}
    (h : p.Word p.tasks m wanted) :
    ∃ go tools source forks, wanted = go ++ tools ++ source ++ forks ∧
      p.Grammar m go tools source forks := by
  obtain ⟨go, _, rfl, hgo, h⟩ := word_append.1 h
  obtain ⟨quiet, _, rfl, hquiet, h⟩ := word_append.1 h
  obtain ⟨tools, _, rfl, htools, h⟩ := word_append.1 h
  obtain ⟨source, forks, rfl, hsource, hforks⟩ := word_append.1 h
  -- the link and the directory of the repositories need no command
  obtain rfl : quiet = [] := by
    obtain ⟨_, _, rfl, rfl, _, _, rfl, rfl, rfl⟩ := hquiet
    rfl
  obtain ⟨chosen, hsub, hchosen⟩ := chosen_of_word hgo
  refine ⟨go, tools, source, forks, by simp, hgo, ⟨chosen, hsub, ?_, hchosen⟩, ?_, ?_, ?_⟩
  · exact hsub.nodup (Rules.nodup_goVersions p.rules)
  · rwa [turn_append]
  · obtain ⟨_, _, rfl, hblock, rfl⟩ := hsource
    rw [turn_append, turn_append, List.append_nil]
    exact hblock
  · rwa [turn_append, turn_append, turn_append]

end Plan

/-- **A run launches the commands of the grammar**, in this order, and stops somewhere on the way
unless it returns zero.  Each download is launched in a directory that was made for it. -/
theorem run_follows_grammar {words : List String} {a : Arguments}
    (hread : Arguments.read words = .run a) (hdry : a.dryRun = false) {m m₁ : Machine} {p : Plan}
    (hplan : (prepare a).perform { m with log := [] } = (.ok p, m₁)) :
    (p.arguments = a ∧ p.environment = m.environment) ∧
      ∃ new go tools source forks,
        (run words m).2.launches = m.launches ++ new ∧
        p.Grammar m₁ go tools source forks ∧
        new.map (·.command) <+: go ++ tools ++ source ++ forks ∧
        ((run words m).1.exit = .returned 0 →
          new.map (·.command) = go ++ tools ++ source ++ forks) ∧
        ∀ l ∈ new, l.command ∈ go → l.Staged := by
  obtain ⟨wanted, hword, new, hnew⟩ := follows_setUp hdry hplan
  obtain ⟨go, tools, source, forks, rfl, hgrammar⟩ := Plan.grammar_of_word hword
  have hp := plan_of_prepare hplan
  refine ⟨hp, new, go, tools, source, forks, ?_, hgrammar, hnew.commands, ?_, ?_⟩
  · rw [run_machine hread]
    exact hnew.continues.launches
  · intro hexit
    rw [run_exit hread] at hexit
    exact hnew.complete () (result_of_returned_zero hexit)
  · intro l hl hgo
    refine hnew.staged l hl ?_
    obtain ⟨chosen, -, -, rfl⟩ := hgrammar.chosen
    obtain ⟨x, -, hx⟩ := List.mem_map.1 hgo
    rw [← hx]
    exact Toolchain.isDownload_download ..

/-- On the small machine everything is missing and every command succeeds. -/
theorem run_follows_grammar_sample :
    ∃ p m₁, (prepare Sample.arguments).perform Sample.machine = (.ok p, m₁) ∧
      Rules.goVersions p.rules = ["1.10.2", "1.9"] ∧ Rules.destinations p.rules = ["fork"] ∧
      ∃ new go tools source forks,
        (run Sample.words Sample.machine).2.launches = new ∧
        p.Grammar m₁ go tools source forks ∧
        new.map (·.command) = go ++ tools ++ source ++ forks ∧ new.length = 12 := by
  have hasked : ((prepare Sample.arguments).perform Sample.machine).1.toOption.map
      (fun p => (Rules.goVersions p.rules, Rules.destinations p.rules)) =
      some (["1.10.2", "1.9"], ["fork"]) := by decide +kernel
  obtain ⟨hreturned, hlength, -⟩ := Sample.run_words
  obtain ⟨p, hprepared, hboth⟩ := Option.map_eq_some_iff.1 hasked
  obtain ⟨hversions, hforks⟩ := Prod.mk.inj hboth
  have hplan := Step.perform_of_toOption hprepared
  obtain ⟨-, new, go, tools, source, forks, hnew, hgrammar, -, hall, -⟩ :=
    @run_follows_grammar Sample.words Sample.arguments Sample.read_words rfl Sample.machine _ p hplan
  have hlaunches : launchesOf Sample.words Sample.machine = new := by
    rw [launchesOf, hnew, List.drop_left]
  rw [hlaunches] at hlength
  exact ⟨p, _, hplan, hversions, hforks, new, go, tools, source, forks, hnew, hgrammar,
    hall hreturned, hlength⟩

end Bootstrap

end Provision
