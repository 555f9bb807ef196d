/-
**Closed trees.**

In a file tree as there are, everything lies in a directory.  Then there is nothing below a location
where there is nothing, so that a new directory changes one location only, and what is moved can be
told apart from what was in its place.

Main definitions:

* `Provision.Tree.Closed` — **everything lies in a directory**;
* `Provision.Tree.Grown` — a tree that has some directories more;
* `Provision.Entry.SameKind`, `Provision.Tree.Kept` — **what was there is still there**, though a file
  may hold something else.

Main results:

* `Provision.Tree.Closed.above`, `Provision.Tree.Closed.below` — what is above something and below
  nothing;
* `Provision.Tree.get?_move` — **what is where after a move**;
* `Provision.Tree.get?_makeDirectory_of_missing`, `Provision.Tree.Closed.makeDirectory` — a new
  directory;
* `Provision.Tree.Closed.erase`, `Provision.Tree.Closed.put` — one entry less, and one more;
* `Provision.Tree.Kept.erase`, `Provision.Tree.kept_erase` — what is kept without one entry.
-/

import Provision.FileSystem.Tree

set_option relaxedAutoImplicit false
set_option autoImplicit false

namespace Provision

/-! ### Kinds of entries -/

/-- Entries of the same kind: files may hold different contents, but a link has the same text. -/
def Entry.SameKind : Entry → Entry → Prop
  | directory, directory => True
  | file _ _, file _ _ => True
  | link s, link t => s = t
  | _, _ => False

theorem Entry.SameKind.refl (e : Entry) : e.SameKind e := by
  cases e with
  | directory => trivial
  | file content executable => trivial
  | link text => rfl

namespace Entry.SameKind

variable {e e' e'' : Entry} {text : String}

theorem of_directory (h : directory.SameKind e) : e = .directory := by
  cases e <;> first | rfl | exact h.elim

theorem of_link (h : (link text).SameKind e) : e = .link text := by
  cases e with
  | directory => exact h.elim
  | file content executable => exact h.elim
  | link text' =>
      obtain rfl : text = text' := h
      rfl

theorem trans (h : e.SameKind e') (h' : e'.SameKind e'') : e.SameKind e'' := by
  cases e with
  | directory => rwa [h.of_directory] at h'
  | link text => rwa [h.of_link] at h'
  | file content executable =>
      cases e' with
      | directory => exact h.elim
      | link text => exact h.elim
      | file content' executable' => cases e'' <;> trivial

theorem isDirectory_eq (h : e.SameKind e') : e'.isDirectory = e.isDirectory := by
  cases e <;> cases e' <;> first | rfl | exact h.elim

/-- What is no link is of the kind of no link. -/
theorem ne_link (h : e.SameKind e') (he : ∀ text, e ≠ .link text) (text : String) :
    e' ≠ .link text := by
  rintro rfl
  cases e <;> first | exact h.elim | exact he _ rfl

/-- Without links there are two kinds. -/
theorem of_isDirectory_eq (h : e'.isDirectory = e.isDirectory) (he : ∀ text, e ≠ .link text)
    (he' : ∀ text, e' ≠ .link text) : e.SameKind e' := by
  cases e with
  | directory =>
      obtain rfl := isDirectory_iff.1 h
      trivial
  | file content executable =>
      cases e' with
      | directory => simp [isDirectory] at h
      | file content' executable' => trivial
      | link text => exact absurd rfl (he' text)
  | link text => exact absurd rfl (he text)

end Entry.SameKind

/-- Whether the entry is a file. -/
def Entry.isFile : Entry → Bool
  | file _ _ => true
  | _ => false

namespace Tree

variable {t t' t'' : Tree} {p q : Location}

/-! ### Entries -/

theorem isSome_get?_of_mem {x : Location × Entry} (h : x ∈ t.entries) : (t.get? x.1).isSome := by
  by_cases hx : x.1 = []
  · simp [hx]
  · rw [get?_of_ne hx, Option.isSome_iff_ne_none]
    intro hnone
    have := List.lookup_eq_none_iff.1 hnone x h
    simp at this

theorem mem_of_get? {e : Entry} (hq : q ≠ []) (h : t.get? q = some e) : (q, e) ∈ t.entries := by
  rw [get?_of_ne hq] at h
  obtain ⟨before, after, hsplit, -⟩ := List.lookup_eq_some_iff.1 h
  rw [hsplit]
  simp

/-- The root is never missing. -/
theorem ne_root_of_missing (h : t.get? q = none) : q ≠ [] := by
  rintro rfl
  simp at h

/-- The root is no link, so that a link is one of the entries. -/
theorem mem_of_link {text : String} (h : t.get? q = some (.link text)) :
    (q, .link text) ∈ t.entries := by
  refine mem_of_get? ?_ h
  rintro rfl
  simp at h

/-! ### Closed trees -/

/-- **A closed tree**: everything lies in a directory. -/
def Closed (t : Tree) : Prop :=
  ∀ p name, (t.get? (p ++ [name])).isSome → t.get? p = some .directory

/-- Closedness can be read off the entries. -/
theorem closed_iff :
    t.Closed ↔ ∀ x ∈ t.entries, x.1 ≠ [] → t.get? x.1.dropLast = some .directory := by
  constructor
  · intro h x hx hne
    refine h x.1.dropLast (x.1.getLast hne) ?_
    rw [List.dropLast_concat_getLast]
    exact isSome_get?_of_mem hx
  · intro h p name hp
    obtain ⟨e, he⟩ := Option.isSome_iff_exists.1 hp
    have := h _ (mem_of_get? (by simp) he) (by simp)
    simpa using this

instance : Decidable t.Closed := decidable_of_iff _ closed_iff.symm

namespace Closed

/-- Above everything there is a directory. -/
theorem above (hc : t.Closed) {rest : Location} (hrest : rest ≠ [])
    (h : (t.get? (p ++ rest)).isSome) : t.get? p = some .directory := by
  -- going down from `p` name by name, what is below the next name makes it a directory
  induction rest generalizing p with
  | nil => exact absurd rfl hrest
  | cons name rest ih =>
      refine hc p name ?_
      by_cases hr : rest = []
      · simpa [hr] using h
      · have := ih (p := p ++ [name]) hr (by simpa using h)
        simp [this]

/-- Below a location without a directory there is nothing. -/
theorem below (hc : t.Closed) (hp : t.get? p ≠ some .directory) (hpq : p <+: q) (hne : q ≠ p) :
    t.get? q = none := by
  obtain ⟨rest, rfl⟩ := hpq
  cases h : t.get? (p ++ rest) with
  | none => rfl
  | some e =>
      have hrest : rest ≠ [] := by
        rintro rfl
        simp at hne
      exact absurd (hc.above hrest (by rw [h]; rfl)) hp

/-- At what is missing and below it there is nothing. -/
theorem none_of_prefix (hc : t.Closed) (hp : t.get? p = none) (hpq : p <+: q) : t.get? q = none := by
  by_cases hq : q = p
  · rw [hq, hp]
  · exact hc.below (by simp [hp]) hpq hq

end Closed

/-- A directory that holds nothing has nothing below. -/
theorem get?_of_not_hasBelow (h : t.hasBelow p = false) (hpq : p <+: q) (hne : q ≠ p) :
    t.get? q = none := by
  have hq : q ≠ [] := by
    rintro rfl
    exact hne (List.prefix_nil.1 hpq).symm
  cases hget : t.get? q with
  | none => rfl
  | some e =>
      have := List.any_eq_false.1 h _ (mem_of_get? hq hget)
      simp [hpq, hne] at this

/-! ### Moving -/

private theorem lookup_move {src dst : Location} (h₁ : ¬src <+: dst) (h₂ : ¬dst <+: src)
    (l : List (Location × Entry)) (q : Location) :
    (((l.filter fun x => !dst.isPrefixOf x.1).map fun x => (relocate src dst x.1, x.2)).lookup q) =
      if dst <+: q then l.lookup (src ++ q.drop dst.length)
      else if src <+: q then none else l.lookup q := by
  -- an entry is removed, moves or stays, by whether it lies in `dst`, in `src` or in neither
  induction l with
  | nil => simp
  | cons x l ih =>
      obtain ⟨k, e⟩ := x
      by_cases hk : dst <+: k
      -- the entry is removed, and nothing that moves comes from where it was
      · have hdrop : (!dst.isPrefixOf k) = false := by simpa using hk
        have hk₁ : src ++ q.drop dst.length ≠ k := by
          rintro rfl
          rcases List.prefix_or_prefix_of_prefix hk (List.prefix_append src _) with h | h
          · exact h₂ h
          · exact h₁ h
        rw [List.filter_cons_of_neg (by simp [hdrop]), ih]
        by_cases hdq : dst <+: q
        · simp [hdq, lookup_cons_eq_ite, hk₁]
        · have hk₂ : q ≠ k := by
            rintro rfl
            exact hdq hk
          simp [hdq, lookup_cons_eq_ite, hk₂]
      · have hkeep : (!dst.isPrefixOf k) = true := by
          simpa [← List.isPrefixOf_iff_prefix] using hk
        rw [List.filter_cons_of_pos (by simp [hkeep]), List.map_cons, lookup_cons_eq_ite, ih]
        by_cases hsk : src <+: k
        -- the entry moves
        · obtain ⟨rest, rfl⟩ := hsk
          have hrelocate : relocate src dst (src ++ rest) = dst ++ rest := by simp [relocate]
          rw [hrelocate]
          by_cases hdq : dst <+: q
          · obtain ⟨tail, rfl⟩ := hdq
            simp [lookup_cons_eq_ite]
          · have hq₁ : q ≠ dst ++ rest := by
              rintro rfl
              exact hdq (List.prefix_append dst rest)
            by_cases hsq : src <+: q
            · simp [hdq, hsq, hq₁]
            · have hq₂ : q ≠ src ++ rest := by
                rintro rfl
                exact hsq (List.prefix_append src rest)
              simp [hdq, hsq, hq₁, lookup_cons_eq_ite, hq₂]
        -- the entry stays
        · have hrelocate : relocate src dst k = k := by simp [relocate, hsk]
          rw [hrelocate]
          by_cases hdq : dst <+: q
          · have hq₁ : q ≠ k := by
              rintro rfl
              exact hk hdq
            have hq₂ : src ++ q.drop dst.length ≠ k := by
              rintro rfl
              exact hsk (List.prefix_append src _)
            simp [hdq, hq₁, lookup_cons_eq_ite, hq₂]
          · by_cases hsq : src <+: q
            · have hq₁ : q ≠ k := by
                rintro rfl
                exact hsk hsq
              simp [hdq, hsq, hq₁]
            · simp [hdq, hsq, lookup_cons_eq_ite]

/-- **What is where after a move**: what was at and below `src` is now at and below `dst`, and all
else is as it was. -/
theorem get?_move {src dst : Location} (h₁ : ¬src <+: dst) (h₂ : ¬dst <+: src) (q : Location) :
    (t.move src dst).get? q =
      if dst <+: q then t.get? (src ++ q.drop dst.length)
      else if src <+: q then none else t.get? q := by
  have hsrc : src ≠ [] := by rintro rfl; simp at h₁
  have hdst : dst ≠ [] := by rintro rfl; simp at h₂
  by_cases hq : q = []
  · subst hq
    simp [hsrc, hdst]
  · rw [get?_of_ne hq, get?_of_ne hq, get?_of_ne (by simp [hsrc]), move, eraseBelow]
    exact lookup_move h₁ h₂ t.entries q

/-! ### Trees that grow -/

/-- **A tree that has some directories more**, and is otherwise the same. -/
def Grown (t t' : Tree) : Prop :=
  ∀ q, t'.get? q = t.get? q ∨ (t.get? q = none ∧ t'.get? q = some .directory)

/-- A new directory adds itself and nothing else. -/
theorem get?_makeDirectory_of_missing (hc : t.Closed) (hne : p ≠ []) (hp : t.get? p = none)
    (q : Location) : (t.makeDirectory p).get? q = if q = p then some .directory else t.get? q := by
  rw [get?_makeDirectory t hne]
  by_cases hqp : q = p
  · simp [hqp]
  · by_cases hpre : p <+: q
    · simp [hqp, hpre, hc.below (by simp [hp]) hpre hqp]
    · simp [hqp, hpre]

/-- A new directory in a directory leaves the tree closed. -/
theorem Closed.makeDirectory (hc : t.Closed) {here : Location} {name : String}
    (hhere : t.get? here = some .directory) (hp : t.get? (here ++ [name]) = none) :
    (t.makeDirectory (here ++ [name])).Closed := by
  have hget := get?_makeDirectory_of_missing hc (by simp) hp
  intro q last hq
  rw [hget] at hq ⊢
  by_cases hqn : q = here ++ [name]
  · simp [hqn]
  -- what lies in `q` is the new directory itself, or was there before
  · rw [if_neg hqn]
    by_cases hlast : q ++ [last] = here ++ [name]
    · obtain ⟨rfl, -⟩ : q = here ∧ [last] = [name] := by simpa using hlast
      exact hhere
    · rw [if_neg hlast] at hq
      exact hc q last hq

/-- Removing what is no directory leaves the tree closed. -/
theorem Closed.erase (hc : t.Closed) {e : Entry} (hp : t.get? p = some e) (he : e ≠ .directory) :
    (t.erase p).Closed := by
  have hne : p ≠ [] := by
    rintro rfl
    exact he (by simpa using hp.symm)
  intro q name hq
  rw [get?_erase t hne] at hq ⊢
  split at hq
  · simp at hq
  · have hdirectory := hc q name hq
    have hqp : q ≠ p := by
      rintro rfl
      rw [hp] at hdirectory
      exact he (by simpa using hdirectory)
    rw [if_neg hqp, hdirectory]

/-- Anything new in a directory leaves the tree closed. -/
theorem Closed.put (hc : t.Closed) {here : Location} {name : String}
    (hhere : t.get? here = some .directory) (hp : t.get? (here ++ [name]) = none) (e : Entry) :
    (t.put (here ++ [name]) e).Closed := by
  intro q last hq
  rw [get?_put t (by simp)] at hq ⊢
  by_cases hlast : q ++ [last] = here ++ [name]
  · obtain ⟨rfl, -⟩ : q = here ∧ [last] = [name] := by simpa using hlast
    simp [hhere]
  · rw [if_neg hlast] at hq
    have hdirectory := hc q last hq
    have hqp : q ≠ here ++ [name] := by
      rintro rfl
      simp [hp] at hdirectory
    rw [if_neg hqp, hdirectory]

/-! ### Trees that keep what was there -/

/-- **What is in `t` is in `t'` as well**, as an entry of the same kind, except for files at places
that may be gone. -/
def Kept (gone : Location → Prop) (t t' : Tree) : Prop :=
  ∀ q e, t.get? q = some e →
    (∃ e', t'.get? q = some e' ∧ e.SameKind e') ∨ (gone q ∧ e.isFile = true)

/-- A tree that grows keeps what was there. -/
theorem Grown.kept (h : t.Grown t') : t.Kept (fun _ => False) t' := by
  intro q e hq
  rcases h q with hsame | ⟨hnone, -⟩
  · exact Or.inl ⟨e, hsame.trans hq, .refl e⟩
  · rw [hnone] at hq
    simp at hq

section

variable {gone : Location → Prop}

/-- What was a directory is one, for only files may be gone. -/
theorem Kept.directory (h : t.Kept gone t') (hq : t.get? q = some .directory) :
    t'.get? q = some .directory := by
  rcases h q _ hq with ⟨e, he, hkind⟩ | ⟨-, hfile⟩
  · rw [he, hkind.of_directory]
  · simp [Entry.isFile] at hfile

/-- A link has the same text. -/
theorem Kept.link (h : t.Kept gone t') {text : String} (hq : t.get? q = some (.link text)) :
    t'.get? q = some (.link text) := by
  rcases h q _ hq with ⟨e, he, hkind⟩ | ⟨-, hfile⟩
  · rw [he, hkind.of_link]
  · simp [Entry.isFile] at hfile

theorem Kept.isSome (h : t.Kept gone t') (hgone : ¬gone q) (hq : (t.get? q).isSome) :
    (t'.get? q).isSome := by
  obtain ⟨e, he⟩ := Option.isSome_iff_exists.1 hq
  obtain ⟨e', he', -⟩ := (h q e he).resolve_right fun h => hgone h.1
  rw [he']
  rfl

end

/-- Without one place more, what was there is there as well. -/
theorem Kept.erase {gone : Location → Prop} (h : t.Kept gone t') (hp : p ≠ []) :
    (t.erase p).Kept gone (t'.erase p) := by
  intro q e hq
  rw [get?_erase t hp] at hq
  rw [get?_erase t' hp]
  split at hq
  · simp at hq
  · next hne =>
    rw [if_neg hne]
    exact h q e hq

/-- Without a file, what was there is there as well, but for the file. -/
theorem kept_erase {e : Entry} (hp : t.get? p = some e) (he : e.isFile = true) :
    t.Kept (· = p) (t.erase p) := by
  have hne : p ≠ [] := by
    rintro rfl
    obtain rfl : Entry.directory = e := by simpa using hp
    simp [Entry.isFile] at he
  intro q e' hq
  rw [get?_erase t hne]
  by_cases hqp : q = p
  · obtain rfl : e = e' := by
      rw [hqp, hp] at hq
      exact Option.some.inj hq
    exact Or.inr ⟨hqp, he⟩
  · rw [if_neg hqp]
    exact Or.inl ⟨e', hq, .refl e'⟩

end Tree

end Provision
