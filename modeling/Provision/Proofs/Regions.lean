/-
**The two regions of a workspace.**

Right below the root of a workspace stand the link and the Go distributions, and next to them the
directory that holds all sources.  The two regions have nothing in common: no path of a distribution is
the path of sources, or lies above it or below it.  It is the components that decide this, and not the
texts; the text of the root may hold repeated slashes or dots, and so may the names.

Where a repository is cloned is worked out twice: by the layout, from the base package, and by the tool
that fetches it, from its address.  A base package that is derived from host and organisation makes the
two agree, because a slash between two texts is read as a step from the one to the other.

Main definitions:

* `Provision.Path.Apart` — paths of which neither lies at or above the other;
* `Provision.Layout.sourcePaths`, `Provision.Layout.toolchainPaths` — the paths of a layout;
* `Provision.Layout.Beside` — paths right below the root, beside the sources;
* `Provision.Layout.Parted` — **the regions of a layout**.

Main results:

* `Provision.Path.child_slash` — **a slash in a text is a step down**;
* `Provision.Layout.Beside.apart` — what is beside the sources is apart from them;
* `Provision.Layout.repoDir_eq_packageDir`, `Provision.Layout.packageDir_of_url` — where a repository
  is, by the base package and by its address;
* `Provision.Layout.regions` — **the regions are disjoint, and the paths agree**.
-/

import Provision.Proofs.Containment
import Provision.Proofs.Keeping
import Provision.Proofs.Precedence

set_option relaxedAutoImplicit false
set_option autoImplicit false

namespace Provision

/-! ### Texts with a slash -/

namespace Path

theorem components_slash (s t : List Char) :
    components (s ++ '/' :: t) = components s ++ components t := by
  simp only [components, Text.pieces_append, List.filter_append, List.map_append]

/-- A text is a relative path unless it begins with a slash. -/
theorem anchorOf_eq_relative_iff {s : List Char} :
    anchorOf s = .relative ↔ s.head? ≠ some '/' := by
  unfold anchorOf
  split <;> simp_all [List.head?_eq_some_iff]

theorem anchor_eq_relative_iff {s : String} :
    (ofString s).anchor = .relative ↔ s.toList.head? ≠ some '/' := by
  rw [ofString_eq, anchorOf_eq_relative_iff]

/-- **A slash between two texts is read as a step from the one to the other.** -/
theorem ofString_slash {s : String} (hne : s ≠ "") (hs : (ofString s).anchor = .relative)
    (t : String) :
    ofString (s ++ "/" ++ t) = ⟨.relative, (ofString s).parts ++ (ofString t).parts⟩ := by
  have htext : (s ++ "/" ++ t).toList = s.toList ++ '/' :: t.toList := by simp
  have hhead : s.toList.head? ≠ some '/' := anchor_eq_relative_iff.1 hs
  -- the first character of the whole is that of the first text, which has one
  have hanchor : anchorOf (s.toList ++ '/' :: t.toList) = .relative := by
    obtain ⟨c, chars, hchars⟩ := List.exists_cons_of_ne_nil (l := s.toList) (by simpa using hne)
    rw [hchars] at hhead ⊢
    exact anchorOf_eq_relative_iff.2 hhead
  rw [ofString_eq, htext, hanchor, components_slash, ofString_eq s, ofString_eq t]

/-- **A slash in a text is a step down.** -/
theorem child_slash (p : Path) {s t : String} (hne : s ≠ "") (hs : (ofString s).anchor = .relative)
    (ht : (ofString t).anchor = .relative) : p.child (s ++ "/" ++ t) = (p.child s).child t := by
  simp only [child, ofString_slash hne hs, join_of_relative hs, join_of_relative ht,
    join_of_relative (q := ⟨.relative, _⟩) rfl, List.append_assoc]

/-- **Paths that are apart**: neither lies at the other or above it. -/
def Apart (p q : Path) : Prop := ¬p.parts <+: q.parts ∧ ¬q.parts <+: p.parts

theorem relative_of_not_leaves {s : String} (h : ¬Leaves s) : (ofString s).anchor = .relative :=
  not_not.1 (not_or.1 h).1

end Path

namespace Layout

variable {l : Layout} {q s : Path} {version : String}

/-! ### Beside the sources -/

/-- The paths of a layout that lead to sources: those of the base package, of a repository and of a
package. -/
def sourcePaths (l : Layout) (name importPath : String) : List Path :=
  [l.baseRepoPath, l.repoDir name, l.packageDir importPath]

/-- The paths of a layout that lead to Go distributions. -/
def toolchainPaths (l : Layout) (version : String) : List Path := [l.goLink, l.goDir version]

/-- A path right below the root, beside the sources. -/
def Beside (l : Layout) (q : Path) : Prop :=
  q.anchor = l.root.anchor ∧ ∃ w, w ≠ "src" ∧ q.parts = l.root.parts ++ [w]

theorem parts_goLink (l : Layout) : l.goLink = ⟨l.root.anchor, l.root.parts ++ ["go"]⟩ :=
  Path.child_of_isPart _ Toolchain.isPart_go

theorem parts_goDir (l : Layout) (h : '/' ∉ version.toList) :
    l.goDir version = ⟨l.root.anchor, l.root.parts ++ ["go-" ++ version]⟩ :=
  Path.child_of_isPart _ (Toolchain.isPart_goName h)

theorem beside_of_mem_toolchainPaths (h : '/' ∉ version.toList) (hq : q ∈ l.toolchainPaths version) :
    l.Beside q := by
  rcases List.mem_cons.1 hq with rfl | hq
  · rw [parts_goLink]
    exact ⟨rfl, "go", by decide, rfl⟩
  · rw [List.mem_singleton.1 hq, parts_goDir l h]
    refine ⟨rfl, _, fun hsrc => ?_, rfl⟩
    have := congrArg (fun w => w.toList.head?) hsrc
    simp at this

/-- What is beside the sources is not the directory of the sources. -/
theorem Beside.ne_src (h : l.Beside q) : q ≠ l.root.child "src" := by
  obtain ⟨-, w, hw, hparts⟩ := h
  rw [Path.child_of_isPart _ ⟨by decide, by decide, by decide⟩]
  rintro rfl
  exact hw (by simpa using hparts.symm)

/-- **What is beside the sources is apart from them.** -/
theorem Beside.apart (h : l.Beside q) (hs : l.InSources s) : q.Apart s := by
  obtain ⟨-, w, hw, hparts⟩ := h
  obtain ⟨-, names, -, hsource⟩ := hs
  rw [Path.Apart, hparts, hsource, List.prefix_append_right_inj, List.prefix_append_right_inj,
    List.cons_prefix_cons, List.cons_prefix_cons]
  exact ⟨fun h => hw h.1, fun h => hw h.1.symm⟩

/-- Distributions of different versions have different directories. -/
theorem goDir_injective {other : String} (h : '/' ∉ version.toList) (hother : '/' ∉ other.toList)
    (heq : l.goDir version = l.goDir other) : version = other := by
  rw [parts_goDir l h, parts_goDir l hother] at heq
  have hname : "go-" ++ version = "go-" ++ other := by simpa using heq
  exact (String.append_right_inj _).1 hname

theorem goLink_ne_goDir (l : Layout) (h : '/' ∉ version.toList) : l.goLink ≠ l.goDir version := by
  rw [parts_goLink, parts_goDir l h]
  intro heq
  exact Toolchain.goName_ne version (by decide) (by simpa using heq : "go" = "go-" ++ version).symm

/-! ### Sources -/

theorem inSources_of_mem_sourcePaths {name importPath : String}
    (hpackage : ¬Path.Leaves l.basePackage) (hname : ¬Path.Leaves name)
    (himport : ¬Path.Leaves importPath) (hs : s ∈ l.sourcePaths name importPath) :
    l.InSources s := by
  have hbase : l.InSources l.baseRepoPath := l.inSources_packageDir hpackage
  simp only [sourcePaths, List.mem_cons, List.not_mem_nil, or_false] at hs
  rcases hs with rfl | rfl | rfl
  · exact hbase
  · exact hbase.child hname
  · exact l.inSources_packageDir himport

/-- **A repository is where the package is that is named by the base package and the repository.** -/
theorem repoDir_eq_packageDir {name : String} (hne : l.basePackage ≠ "")
    (hpackage : (Path.ofString l.basePackage).anchor = .relative)
    (hname : (Path.ofString name).anchor = .relative) :
    l.repoDir name = l.packageDir (l.basePackage ++ "/" ++ name) :=
  (Path.child_slash _ hne hpackage hname).symm

/-- **A repository is where its address says**, if the base package is made of host and
organisation. -/
theorem packageDir_of_url {host org name : String} (hhost : host ≠ "")
    (hrelative : host.toList.head? ≠ some '/') (hpackage : l.basePackage = host ++ "/" ++ org)
    (hname : (Path.ofString name).anchor = .relative) :
    ∃ rest, Git.url host org name = "https://" ++ rest ∧ l.repoDir name = l.packageDir rest := by
  have hanchor : (Path.ofString l.basePackage).anchor = .relative := by
    rw [hpackage, Path.ofString_slash hhost (Path.anchor_eq_relative_iff.2 hrelative)]
  have hne : l.basePackage ≠ "" := by simp [hpackage]
  refine ⟨l.basePackage ++ "/" ++ name, ?_, repoDir_eq_packageDir hne hanchor hname⟩
  simp only [Git.url, hpackage, String.append_assoc]

end Layout

/-- A base package that is given nowhere is made of host and organisation, unless the source repository
has one of its own. -/
theorem Config.basePackage_of_resolve {c c' : Config} {o : Overrides} {root : Path} {path : String}
    {layout : Layout} (h : c.resolve o root path = .ok (c', layout))
    (hderived : override o.basePackage c.basePackage = "") (hrepo : c'.sourceRepo ≠ "kubernetes") :
    c'.basePackage = c'.githubHost ++ "/" ++ c'.targetOrg := by
  obtain ⟨rfl, -⟩ := eq_of_resolve h
  dsimp only at hrepo ⊢
  have hcomplete : (c.complete o).basePackage = (c.complete o).derivedPackage := by
    simp only [complete, hderived, orElse, if_pos]
    rfl
  exact hcomplete.trans (if_neg hrepo)

namespace Layout

/-! ### The regions -/

/-- **The regions of a layout**, for one repository and one package. -/
structure Parted (l : Layout) (name importPath : String) : Prop where
  /-- Sources lie at or below the directory `src` of the root. -/
  sources : ∀ s ∈ l.sourcePaths name importPath, l.InSources s
  /-- The link and the distributions stand right below the root, beside that directory. -/
  toolchains : ∀ version, '/' ∉ version.toList → ∀ q ∈ l.toolchainPaths version,
    l.Beside q ∧ q ≠ l.root.child "src"
  link : ∀ version, '/' ∉ version.toList → l.goLink ≠ l.goDir version
  versions : ∀ version other, '/' ∉ version.toList → '/' ∉ other.toList →
    l.goDir version = l.goDir other → version = other
  /-- No path of the one region lies at, above or below a path of the other. -/
  apart : ∀ version, '/' ∉ version.toList → ∀ q ∈ l.toolchainPaths version,
    ∀ s ∈ l.sourcePaths name importPath, q.Apart s
  /-- A repository is a package by its import path. -/
  repository : l.repoDir name = l.packageDir (l.basePackage ++ "/" ++ name)

/-- **The regions of a layout are disjoint, and its paths agree.**  A base package, a repository and a
package whose names stay below the directory that they are added to lie in the sources, and the link
and the distributions lie beside them.  A repository is where the package is that its base package and
its name make; and where the base package is derived from a host that does not begin with a slash, it is
where its address says. -/
theorem regions :
    (∀ (l : Layout) (name importPath : String), l.basePackage ≠ "" →
      ¬Path.Leaves l.basePackage → ¬Path.Leaves name → ¬Path.Leaves importPath →
        l.Parted name importPath) ∧
    ∀ (c c' : Config) (o : Overrides) (root : Path) (path : String) (layout : Layout),
      c.resolve o root path = .ok (c', layout) →
        Config.override o.basePackage c.basePackage = "" → c'.sourceRepo ≠ "kubernetes" →
        c'.githubHost.toList.head? ≠ some '/' →
        ∀ name, (Path.ofString name).anchor = .relative →
          ∃ rest, Git.url c'.githubHost c'.targetOrg name = "https://" ++ rest ∧
            layout.repoDir name = layout.packageDir rest := by
  constructor
  · intro l name importPath hne hpackage hname himport
    have hsources : ∀ s ∈ l.sourcePaths name importPath, l.InSources s := fun s hs =>
      inSources_of_mem_sourcePaths hpackage hname himport hs
    have hbeside : ∀ version, '/' ∉ version.toList → ∀ q ∈ l.toolchainPaths version, l.Beside q :=
      fun version hversion q hq => beside_of_mem_toolchainPaths hversion hq
    exact {
      sources := hsources
      toolchains := fun version hversion q hq =>
        ⟨hbeside version hversion q hq, (hbeside version hversion q hq).ne_src⟩
      link := fun version hversion => l.goLink_ne_goDir hversion
      versions := fun version other hversion hother => goDir_injective hversion hother
      apart := fun version hversion q hq s hs => (hbeside version hversion q hq).apart (hsources s hs)
      repository := repoDir_eq_packageDir hne (Path.relative_of_not_leaves hpackage)
        (Path.relative_of_not_leaves hname) }
  · intro c c' o root path layout hresolve hderived hrepo hhost name hname
    obtain ⟨hcomplete, rfl⟩ := Config.isComplete_of_resolve hresolve
    exact packageDir_of_url hcomplete.githubHost hhost
      (Config.basePackage_of_resolve hresolve hderived hrepo) hname

/-- A root whose text begins with two slashes, and names with slashes and dots to spare; and a
configuration with a host and a target whose texts meet in more than one slash. -/
theorem regions_sample :
    (⟨Path.ofString "//srv/./work/", "./github.com//pub/"⟩ : Layout).Parted "fork/." "golang.org/x" ∧
    ∃ rest, Git.url "./git.example/" "/pub" "fork" = "https://" ++ rest ∧
      (⟨Path.ofString "/go", "./git.example///pub"⟩ : Layout).repoDir "fork" =
        (⟨Path.ofString "/go", "./git.example///pub"⟩ : Layout).packageDir rest := by
  refine ⟨regions.1 _ _ _ (by decide) (by decide) (by decide) (by decide), ?_⟩
  exact regions.2 { sourceOrg := "acme", sourceRepo := "widgets", githubHost := "./git.example/" }
    { sourceOrg := "acme", sourceRepo := "widgets", targetOrg := "/pub", githubHost := "./git.example/",
      basePackage := "./git.example///pub", rulesFile := "rules.yaml" }
    { targetOrg := some "/pub", rulesFile := some "rules.yaml" } (Path.ofString "/go") "" _
    (by cbv) (by decide) (by decide) (by decide) "fork" (by decide)

end Layout

end Provision
