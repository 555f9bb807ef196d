/-
**Walks to a directory.**

The calls that make, replace or remove something walk to a directory and then use one more name in
it; the walk to the directory is a walk with a dot at its end.  These lemmas say how the two belong
together, that such a walk does end at a directory, and what becomes of a walk when the tree grows
or loses entries.  All of them are proved name by name, with what happens behind a link as an
assumption, and then by induction on the number of links.

Main results:

* `Provision.FileSystem.walk_snoc` — **a walk with one more name, from the walk to its directory**;
* `Provision.FileSystem.walk_append_of_ok`, `Provision.FileSystem.walk_names_of_ok` — a walk in two
  parts, and a walk without links;
* `Provision.FileSystem.walk_of_walk_dot`, `Provision.FileSystem.walk_dot_error` — a walk with a dot
  and the walk without it;
* `Provision.FileSystem.get?_of_walk_dot` — a walk with a dot ends at a directory;
* `Provision.FileSystem.walk_of_lost`, `Provision.FileSystem.walk_of_kept` — a walk in a tree that has
  changed.
-/

import Provision.FileSystem.Walk
import Provision.Proofs.Trees

set_option relaxedAutoImplicit false
set_option autoImplicit false

namespace Provision.FileSystem

variable {t t' : Tree} {follow : Bool} {here there : Location} {name : String}
  {names : List String}

/-- What happens behind a link. -/
abbrev Jump := Location → List String → Except Errno Location

/-! ### One more name -/

/-- **The end of a walk in a directory**: `directory` is the end of the walk to the directory, and
`result` that of the walk with `name` behind it. -/
def EndsIn (t : Tree) (follow : Bool) (name : String) (directory result : Except Errno Location) :
    Prop :=
  match directory with
  | .error e => result = .error e
  | .ok here =>
      match t.get? (here ++ [name]) with
      | none => result = .error .noEntry
      | some (.link _) => follow = false → result = .ok (here ++ [name])
      | some _ => result = .ok (here ++ [name])

theorem walkWith_snoc (hn : IsName name) {jump jump' : Jump}
    (hj : ∀ here names, EndsIn t follow name (jump here (names ++ ["."]))
      (jump' here (names ++ [name])))
    (here : Location) (names : List String) :
    EndsIn t follow name (walkWith t true jump here (names ++ ["."]))
      (walkWith t follow jump' here (names ++ [name])) := by
  obtain ⟨hn₁, hn₂, hn₃⟩ := hn
  have hn₃' : ¬maxNameBytes < name.utf8ByteSize := by omega
  -- without names left the two walks differ by `name` alone; behind a link `hj` takes over
  induction names generalizing here with
  | nil =>
      simp only [List.nil_append, walkWith, if_true, EndsIn, hn₁, hn₂, hn₃', if_false]
      cases hget : t.get? (here ++ [name]) with
      | none => rfl
      | some e =>
          cases e with
          | directory => rfl
          | file content executable => rfl
          | link text =>
              intro hfollow
              simp [hfollow]
  | cons n names ih =>
      simp only [List.cons_append, walkWith]
      by_cases h₁ : n = "."
      · simp only [h₁, if_true]
        exact ih here
      by_cases h₂ : n = ".."
      · simp only [h₂]
        exact ih here.dropLast
      by_cases h₃ : maxNameBytes < n.utf8ByteSize
      · simp [h₁, h₂, h₃, EndsIn]
      · simp only [h₁, h₂, h₃, if_false]
        cases t.get? (here ++ [n]) with
        | none => rfl
        | some e =>
            cases e with
            | directory => exact ih (here ++ [n])
            | file content executable => simp [EndsIn]
            | link text =>
                have h := hj (if startsAtRoot text.toList then [] else here)
                  (steps text.toList ++ names)
                simpa [List.append_assoc] using h

/-- **A walk with one more name follows from the walk to its directory.** -/
theorem walk_snoc (hn : IsName name) (links : Nat) (here : Location) (names : List String) :
    EndsIn t follow name (walk t true links here (names ++ ["."]))
      (walk t follow links here (names ++ [name])) := by
  induction links generalizing here names with
  | zero =>
      refine walkWith_snoc hn ?_ here names
      intro here names
      rfl
  | succ links ih => exact walkWith_snoc hn ih here names

/-! ### A walk in two parts -/

/-- **A walk from the end of another one**: `directory` is the end of the walk to a directory, and
`result` that of the walk with the names `rest` behind it. -/
def GoesOn (t : Tree) (follow : Bool) (rest : List String) (directory result : Except Errno Location) :
    Prop :=
  match directory with
  | .error e => result = .error e
  | .ok here => ∃ links, result = walk t follow links here rest

theorem walkWith_append {rest : List String} (hrest : rest ≠ []) {jump jump' : Jump}
    (hj : ∀ here names, GoesOn t follow rest (jump here (names ++ ["."]))
      (jump' here (names ++ rest)))
    (hend : ∀ here, ∃ links, walkWith t follow jump' here rest = walk t follow links here rest)
    (here : Location) (names : List String) :
    GoesOn t follow rest (walkWith t true jump here (names ++ ["."]))
      (walkWith t follow jump' here (names ++ rest)) := by
  induction names generalizing here with
  | nil => exact hend here
  | cons n names ih =>
      simp only [List.cons_append, walkWith]
      by_cases h₁ : n = "."
      · simp only [h₁, if_true]
        exact ih here
      by_cases h₂ : n = ".."
      · simp only [h₂]
        exact ih here.dropLast
      by_cases h₃ : maxNameBytes < n.utf8ByteSize
      · simp [h₁, h₂, h₃, GoesOn]
      · simp only [h₁, h₂, h₃, if_false]
        cases t.get? (here ++ [n]) with
        | none => rfl
        | some e =>
            cases e with
            | directory => exact ih (here ++ [n])
            | file content executable => simp [GoesOn, hrest]
            | link text =>
                have h := hj (if startsAtRoot text.toList then [] else here)
                  (steps text.toList ++ names)
                simpa [List.append_assoc, hrest] using h

/-- **A walk goes on from the end of its first part**, with what is left of the links. -/
theorem walk_append {rest : List String} (hrest : rest ≠ []) (links : Nat) (here : Location)
    (names : List String) :
    GoesOn t follow rest (walk t true links here (names ++ ["."]))
      (walk t follow links here (names ++ rest)) := by
  induction links generalizing here names with
  | zero =>
      refine walkWith_append hrest ?_ (fun here => ⟨0, rfl⟩) here names
      intro here names
      rfl
  | succ links ih => exact walkWith_append hrest ih (fun here => ⟨links + 1, rfl⟩) here names

/-- A walk that ends somewhere has passed the end of its first part. -/
theorem walk_append_of_ok {rest : List String} (hrest : rest ≠ []) {links : Nat}
    (h : walk t follow links here (names ++ rest) = .ok there) :
    ∃ mid links', walk t true links here (names ++ ["."]) = .ok mid ∧
      walk t follow links' mid rest = .ok there := by
  have hgoes : GoesOn t follow rest (walk t true links here (names ++ ["."])) (.ok there) := by
    rw [← h]
    exact walk_append hrest links here names
  cases hdirectory : walk t true links here (names ++ ["."]) with
  | error e => simp [hdirectory, GoesOn] at hgoes
  | ok mid =>
      rw [hdirectory] at hgoes
      obtain ⟨links', hrest'⟩ := hgoes
      exact ⟨mid, links', rfl, hrest'.symm⟩

/-- However many links are left, a walk goes name by name. -/
theorem exists_walkWith (t : Tree) (follow : Bool) (links : Nat) :
    ∃ jump, walk t follow links = walkWith t follow jump := by
  cases links with
  | zero => exact ⟨_, rfl⟩
  | succ links => exact ⟨_, rfl⟩

/-- **A walk that ends somewhere has found its first name.** -/
theorem walk_name_of_ok {links : Nat} {rest : List String} (hdot : name ≠ ".") (hdots : name ≠ "..")
    (h : walk t follow links here (name :: rest) = .ok there) :
    IsName name ∧ (t.get? (here ++ [name])).isSome := by
  obtain ⟨jump, hjump⟩ := exists_walkWith t follow links
  rw [hjump] at h
  simp only [walkWith, hdot, hdots, if_false] at h
  by_cases hlong : maxNameBytes < name.utf8ByteSize
  · simp [hlong] at h
  refine ⟨⟨hdot, hdots, by omega⟩, ?_⟩
  simp only [hlong, if_false] at h
  cases hget : t.get? (here ++ [name]) with
  | none => simp [hget] at h
  | some e => rfl

/-- **A name that is no link is entered or is the end**, if the walk ends somewhere. -/
theorem walk_cons_of_ok {links : Nat} {rest : List String} (hdot : name ≠ ".") (hdots : name ≠ "..")
    (hlink : ∀ text, t.get? (here ++ [name]) ≠ some (.link text))
    (h : walk t follow links here (name :: rest) = .ok there) :
    IsName name ∧ (t.get? (here ++ [name])).isSome ∧
      walk t follow links (here ++ [name]) rest = .ok there := by
  obtain ⟨hname, hthere⟩ := walk_name_of_ok hdot hdots h
  refine ⟨hname, hthere, ?_⟩
  have hshort := hname.2.2
  obtain ⟨jump, hjump⟩ := exists_walkWith t follow links
  rw [hjump] at h ⊢
  simp only [walkWith, hdot, hdots, Nat.not_lt.2 hshort, if_false] at h
  obtain ⟨e, hget⟩ := Option.isSome_iff_exists.1 hthere
  rw [hget] at h
  cases e with
  | directory => exact h
  | file content executable =>
      by_cases hrest : rest = []
      · subst hrest
        exact h
      · simp [hrest] at h
  | link text => exact absurd hget (hlink text)

/-- **A walk along names none of which is a link goes where the names say.** -/
theorem walk_names_of_ok {links : Nat} {rest : List String}
    (hnames : ∀ w ∈ names, w ≠ "." ∧ w ≠ "..")
    (hlinks : ∀ p, p <+: names → p ≠ [] → ∀ text, t.get? (here ++ p) ≠ some (.link text))
    (h : walk t follow links here (names ++ rest) = .ok there) :
    walk t follow links (here ++ names) rest = .ok there := by
  induction names generalizing here with
  | nil => simpa using h
  | cons w names ih =>
      obtain ⟨hdot, hdots⟩ := hnames w (by simp)
      have hfirst := hlinks [w] (by simp) (by simp)
      obtain ⟨-, -, hnext⟩ := walk_cons_of_ok hdot hdots hfirst h
      have hothers := ih (fun v hv => hnames v (by simp [hv])) (fun p hp hne text => ?_) hnext
      · simpa using hothers
      · simpa using hlinks (w :: p) (by simpa using hp) (by simp) text

/-! ### A dot at the end -/

/-- What a walk with a dot behind it says about the walk: it ends at the same place, and if it fails
then for the same reason or because its end is no directory. -/
def DotOf (plain dotted : Except Errno Location) : Prop :=
  match dotted with
  | .ok here => plain = .ok here
  | .error e => plain = .error e ∨ e = .notDirectory

theorem walkWith_dot {jump : Jump}
    (hj : ∀ here names, DotOf (jump here names) (jump here (names ++ ["."])))
    (here : Location) (names : List String) :
    DotOf (walkWith t true jump here names) (walkWith t true jump here (names ++ ["."])) := by
  induction names generalizing here with
  | nil => simp [walkWith, DotOf]
  | cons n names ih =>
      simp only [List.cons_append, walkWith]
      by_cases h₁ : n = "."
      · simp only [h₁, if_true]
        exact ih here
      by_cases h₂ : n = ".."
      · simp only [h₂]
        exact ih here.dropLast
      by_cases h₃ : maxNameBytes < n.utf8ByteSize
      · simp [h₁, h₂, h₃, DotOf]
      · simp only [h₁, h₂, h₃, if_false]
        cases t.get? (here ++ [n]) with
        | none => exact Or.inl rfl
        | some e =>
            cases e with
            | directory => exact ih (here ++ [n])
            | file content executable => simp [DotOf]
            | link text =>
                have h := hj (if startsAtRoot text.toList then [] else here)
                  (steps text.toList ++ names)
                simpa [List.append_assoc] using h

theorem walk_dot (links : Nat) (here : Location) (names : List String) :
    DotOf (walk t true links here names) (walk t true links here (names ++ ["."])) := by
  induction links generalizing here names with
  | zero =>
      refine walkWith_dot ?_ here names
      intro here names
      exact Or.inl rfl
  | succ links ih => exact walkWith_dot ih here names

theorem walk_of_walk_dot {links : Nat}
    (h : walk t true links here (names ++ ["."]) = .ok there) :
    walk t true links here names = .ok there := by
  have hdot := walk_dot links here names (t := t)
  rw [h] at hdot
  exact hdot

/-- A walk that ends somewhere ends there with a dot as well, or what it ends at is no directory. -/
theorem walk_dot_error {links : Nat} {e : Errno} (h : walk t true links here names = .ok there)
    (hdot : walk t true links here (names ++ ["."]) = .error e) : e = .notDirectory := by
  have h' := walk_dot links here names (t := t)
  rw [hdot, h] at h'
  rcases h' with h' | h'
  · simp at h'
  · exact h'

/-! ### The end is a directory -/

theorem get?_dropLast (hc : t.Closed) (h : t.get? here = some .directory) :
    t.get? here.dropLast = some .directory := by
  by_cases hne : here = []
  · simp [hne]
  · refine hc here.dropLast (here.getLast hne) ?_
    rw [List.dropLast_concat_getLast, h]
    rfl

theorem walkWith_dot_directory (hc : t.Closed) {jump : Jump}
    (hj : ∀ here names there, t.get? here = some .directory →
      jump here (names ++ ["."]) = .ok there → t.get? there = some .directory)
    (here there : Location) (names : List String) (hhere : t.get? here = some .directory)
    (h : walkWith t true jump here (names ++ ["."]) = .ok there) :
    t.get? there = some .directory := by
  induction names generalizing here with
  | nil =>
      obtain rfl : here = there := by simpa [walkWith] using h
      exact hhere
  | cons n names ih =>
      simp only [List.cons_append, walkWith] at h
      by_cases h₁ : n = "."
      · simp only [h₁, if_true] at h
        exact ih here hhere h
      by_cases h₂ : n = ".."
      · simp only [h₂] at h
        exact ih here.dropLast (get?_dropLast hc hhere) h
      by_cases h₃ : maxNameBytes < n.utf8ByteSize
      · simp [h₁, h₂, h₃] at h
      · simp only [h₁, h₂, h₃, if_false] at h
        cases hget : t.get? (here ++ [n]) with
        | none => simp [hget] at h
        | some e =>
            rw [hget] at h
            cases e with
            | directory => exact ih (here ++ [n]) hget h
            | file content executable => simp at h
            | link text =>
                -- the walk goes on at the root or here, both of which are directories
                have hbase : t.get? (if startsAtRoot text.toList then [] else here) =
                    some .directory := by
                  split
                  · rfl
                  · exact hhere
                refine hj _ (steps text.toList ++ names) there hbase ?_
                simpa [List.append_assoc] using h

/-- **A walk with a dot at its end ends at a directory**, if it starts at one. -/
theorem get?_of_walk_dot (hc : t.Closed) {links : Nat} (hhere : t.get? here = some .directory)
    (h : walk t true links here (names ++ ["."]) = .ok there) :
    t.get? there = some .directory := by
  induction links generalizing here names there with
  | zero => exact walkWith_dot_directory hc (fun _ _ _ _ h => by simp at h) here there names hhere h
  | succ links ih =>
      exact walkWith_dot_directory hc (fun _ _ _ hhere h => ih hhere h) here there names hhere h

/-! ### Other trees -/

/-- `result'` is the end of a walk in another tree: the same as before, or some failure if `lost`. -/
def SameOrLost (lost : Prop) (result result' : Except Errno Location) : Prop :=
  ∀ there, result = .ok there → result' = .ok there ∨ (lost ∧ ∃ e, result' = .error e)

theorem walkWith_of_lost {lost : Prop}
    (ht : ∀ q, (t.get? q).isSome → t'.get? q = t.get? q ∨ (lost ∧ t'.get? q = none))
    {jump jump' : Jump} (hj : ∀ here names, SameOrLost lost (jump here names) (jump' here names))
    (here : Location) (names : List String) :
    SameOrLost lost (walkWith t follow jump here names) (walkWith t' follow jump' here names) := by
  induction names generalizing here with
  | nil =>
      intro there h
      exact Or.inl (by simpa [walkWith] using h)
  | cons n names ih =>
      simp only [walkWith]
      by_cases h₁ : n = "."
      · simp only [h₁, if_true]
        exact ih here
      by_cases h₂ : n = ".."
      · simp only [h₂]
        exact ih here.dropLast
      by_cases h₃ : maxNameBytes < n.utf8ByteSize
      · intro there h
        simp [h₁, h₂, h₃] at h
      · simp only [h₁, h₂, h₃, if_false]
        intro there h
        cases hget : t.get? (here ++ [n]) with
        | none => simp [hget] at h
        | some e =>
            rw [hget] at h
            rcases ht (here ++ [n]) (by rw [hget]; rfl) with hsame | ⟨hlost, hnone⟩
            · rw [hsame, hget]
              cases e with
              | directory => exact ih (here ++ [n]) there h
              | file content executable => exact Or.inl h
              | link text =>
                  by_cases hend : names = [] ∧ follow = false
                  · simp only [hend, and_self, if_true] at h ⊢
                    exact Or.inl h
                  · simp only [hend, if_false] at h ⊢
                    exact hj _ _ there h
            -- what the walk has entered before is lost, so that it fails here
            · rw [hnone]
              exact Or.inr ⟨hlost, .noEntry, rfl⟩

/-- **A walk in a tree that has changed**: where all that was there is the same or lost, it ends at
the same place or fails. -/
theorem walk_of_lost {lost : Prop}
    (ht : ∀ q, (t.get? q).isSome → t'.get? q = t.get? q ∨ (lost ∧ t'.get? q = none))
    (links : Nat) (here : Location) (names : List String) :
    SameOrLost lost (walk t follow links here names) (walk t' follow links here names) := by
  induction links generalizing here names with
  | zero => exact walkWith_of_lost ht (fun _ _ _ h => by simp at h) here names
  | succ links ih => exact walkWith_of_lost ht ih here names

theorem walkWith_of_kept {gone : Location → Prop} (ht : t.Kept gone t') {jump jump' : Jump}
    (hj : ∀ here names there, jump here names = .ok there →
      jump' here names = .ok there ∨ gone there)
    (here there : Location) (names : List String)
    (h : walkWith t follow jump here names = .ok there) :
    walkWith t' follow jump' here names = .ok there ∨ gone there := by
  induction names generalizing here with
  | nil => exact Or.inl (by simpa [walkWith] using h)
  | cons n names ih =>
      simp only [walkWith] at h ⊢
      by_cases h₁ : n = "."
      · simp only [h₁, if_true] at h ⊢
        exact ih here h
      by_cases h₂ : n = ".."
      · simp only [h₂] at h ⊢
        exact ih here.dropLast h
      by_cases h₃ : maxNameBytes < n.utf8ByteSize
      · simp [h₁, h₂, h₃] at h
      · simp only [h₁, h₂, h₃, if_false] at h ⊢
        cases hget : t.get? (here ++ [n]) with
        | none => simp [hget] at h
        | some e =>
            rw [hget] at h
            rcases ht _ e hget with ⟨e', hget', hkind⟩ | ⟨hgone, hfile⟩
            · rw [hget']
              cases e <;> cases e' <;> first | exact hkind.elim | skip
              · exact ih (here ++ [n]) h
              · exact Or.inl h
              · obtain rfl := hkind
                by_cases hend : names = [] ∧ follow = false
                · simp only [hend, and_self, if_true] at h ⊢
                  exact Or.inl h
                · simp only [hend, if_false] at h ⊢
                  exact hj _ _ there h
            -- a file that is gone can only have been the end of the walk
            · cases e with
              | directory => simp [Entry.isFile] at hfile
              | link text => simp [Entry.isFile] at hfile
              | file content executable =>
                  right
                  by_cases hend : names = []
                  · simp only [hend, if_true] at h
                    injection h with h
                    rwa [← h]
                  · simp [hend] at h

/-- **A walk that ends somewhere ends there in any tree that has kept what was there**, unless its
end is gone. -/
theorem walk_of_kept {gone : Location → Prop} (ht : t.Kept gone t') {links : Nat}
    (h : walk t follow links here names = .ok there) :
    walk t' follow links here names = .ok there ∨ gone there := by
  induction links generalizing here names there with
  | zero => exact walkWith_of_kept ht (fun _ _ _ h => by simp at h) here there names h
  | succ links ih => exact walkWith_of_kept ht (fun _ _ _ h => ih h) here there names h

/-- A walk in a tree that has grown ends at the same place. -/
theorem walk_of_grown (ht : t.Grown t') {links : Nat}
    (h : walk t follow links here names = .ok there) :
    walk t' follow links here names = .ok there :=
  (walk_of_kept ht.kept h).resolve_right id

end Provision.FileSystem
