/-
**The number of links on a way.**

At most forty links are followed in one walk, so that a way can be gone on its own, but not as a part
of a longer one.  To tell when two ways may be gone one after the other one has to know how many
links each of them takes.  A route is a way to a directory together with that number, and a walk
along it goes on behind it with what is left.

Main definition:

* `Provision.FileSystem.Route` — **names lead from one directory to another, by way of some links**.

Main results:

* `Provision.FileSystem.walk_link` — a link on the way;
* `Provision.FileSystem.exists_route` — a walk to a directory goes along a route;
* `Provision.FileSystem.Route.walk` — **a walk that begins with a route**.
-/

import Provision.Proofs.Places

set_option relaxedAutoImplicit false
set_option autoImplicit false

namespace Provision.FileSystem

variable {t : Tree} {follow : Bool} {here there : Location} {names rest : List String}
  {name text : String} {links : Nat}

/-- Where the names in the text of a link start, if the link stands in the directory `here`. -/
def linkOrigin (here : Location) (text : String) : Location :=
  if startsAtRoot text.toList then [] else here

/-- **Names lead from one directory to another one**, by way of some links. -/
inductive Route (t : Tree) : Location → List String → Nat → Location → Prop where
  | done (here : Location) : Route t here [] 0 here
  | stay {here there : Location} {rest : List String} {links : Nat}
      (next : Route t here rest links there) : Route t here ("." :: rest) links there
  | up {here there : Location} {rest : List String} {links : Nat}
      (next : Route t here.dropLast rest links there) : Route t here (".." :: rest) links there
  | enter {here there : Location} {name : String} {rest : List String} {links : Nat}
      (isName : IsName name) (directory : t.get? (here ++ [name]) = some .directory)
      (next : Route t (here ++ [name]) rest links there) :
      Route t here (name :: rest) links there
  | link {here there : Location} {name text : String} {rest : List String} {links : Nat}
      (isName : IsName name) (found : t.get? (here ++ [name]) = some (.link text))
      (next : Route t (linkOrigin here text) (steps text.toList ++ rest) links there) :
      Route t here (name :: rest) (links + 1) there

/-- **A link on the way** takes one of the links that may be followed. -/
theorem walk_link (hname : IsName name) (hlink : t.get? (here ++ [name]) = some (.link text))
    (hrest : rest ≠ [] ∨ follow = true) (links : Nat) :
    walk t follow links here (name :: rest) =
      match links with
      | 0 => .error .linkLoop
      | links + 1 => walk t follow links (linkOrigin here text) (steps text.toList ++ rest) := by
  obtain ⟨hdot, hdots, hlong⟩ := hname
  have hshort : ¬maxNameBytes < name.utf8ByteSize := by omega
  have hend : ¬(rest = [] ∧ follow = false) := by
    rintro ⟨rfl, rfl⟩
    simp at hrest
  cases links <;> simp [walk, walkWith, hdot, hdots, hshort, hlink, hend, linkOrigin]

theorem exists_route_of_walkWith {jump : Jump}
    (hj : ∀ here names there, jump here (names ++ ["."]) = .ok there →
      ∃ k, k + 1 ≤ links ∧ Route t here names k there)
    (here there : Location) (names : List String)
    (h : walkWith t true jump here (names ++ ["."]) = .ok there) :
    ∃ k, k ≤ links ∧ Route t here names k there := by
  induction names generalizing here with
  | nil =>
      obtain rfl : here = there := by simpa [walkWith] using h
      exact ⟨0, Nat.zero_le _, .done here⟩
  | cons n names ih =>
      simp only [List.cons_append, walkWith] at h
      by_cases hdot : n = "."
      · simp only [hdot, if_true] at h
        obtain ⟨k, hk, hroute⟩ := ih here h
        exact ⟨k, hk, hdot ▸ .stay hroute⟩
      by_cases hdots : n = ".."
      · simp only [hdots] at h
        obtain ⟨k, hk, hroute⟩ := ih here.dropLast h
        exact ⟨k, hk, hdots ▸ .up hroute⟩
      by_cases hlong : maxNameBytes < n.utf8ByteSize
      · simp [hdot, hdots, hlong] at h
      have hname : IsName n := ⟨hdot, hdots, by omega⟩
      simp only [hdot, hdots, hlong, if_false] at h
      cases hget : t.get? (here ++ [n]) with
      | none => simp [hget] at h
      | some e =>
          rw [hget] at h
          cases e with
          | directory =>
              obtain ⟨k, hk, hroute⟩ := ih (here ++ [n]) h
              exact ⟨k, hk, .enter hname hget hroute⟩
          | file content executable => simp at h
          | link text =>
              -- behind the link there is one link less to follow
              obtain ⟨k, hk, hroute⟩ := hj (linkOrigin here text) (steps text.toList ++ names) there
                (by simpa [linkOrigin, List.append_assoc] using h)
              exact ⟨k + 1, hk, .link hname hget hroute⟩

/-- **A walk to a directory goes along a route**, and has followed all links of it. -/
theorem exists_route (h : walk t true links here (names ++ ["."]) = .ok there) :
    ∃ k, k ≤ links ∧ Route t here names k there := by
  induction links generalizing here names there with
  | zero => exact exists_route_of_walkWith (fun _ _ _ h => by simp at h) here there names h
  | succ links ih =>
      refine exists_route_of_walkWith (fun here names there h => ?_) here there names h
      obtain ⟨k, hk, hroute⟩ := ih h
      exact ⟨k, by omega, hroute⟩

/-- **A walk that begins with a route** goes on where it ends, if it may follow that many links. -/
theorem Route.walk {k : Nat} (h : Route t here names k there) (follow : Bool) (hrest : rest ≠ [])
    (links : Nat) :
    FileSystem.walk t follow links here (names ++ rest) =
      if links < k then .error .linkLoop
      else FileSystem.walk t follow (links - k) there rest := by
  induction h generalizing links with
  | done here => rfl
  | stay next ih => rw [List.cons_append, walk_dot_cons, ih]
  | up next ih => rw [List.cons_append, walk_dots_cons, ih]
  | enter isName directory next ih => rw [List.cons_append, walk_directory isName directory, ih]
  | link isName found next ih =>
      rw [List.cons_append, walk_link isName found (Or.inl (by simp [hrest]))]
      cases links with
      | zero => rw [if_pos (Nat.succ_pos _)]
      | succ links =>
          dsimp only
          rw [← List.append_assoc, ih]
          simp

end Provision.FileSystem
