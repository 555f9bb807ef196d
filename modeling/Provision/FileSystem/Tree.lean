/-
**File trees.**

A file tree says what there is at each location below the root directory: a directory, a file with
its content, or a symbolic link with its text.  A location is the list of names from the root
down; links are not followed here.  Four writes change a tree: putting an entry at a location,
removing one entry, removing everything at and below a location, and moving everything at and below
a location to another one.  For each of them one lemma says what is found at the location itself
and one what is found elsewhere.

Main definitions:

* `Provision.Location`, `Provision.Entry`, `Provision.Tree` — places, what stands there, and trees;
* `Provision.Tree.get?` — the entry at a location;
* `Provision.Tree.put`, `Provision.Tree.erase` — write and remove one entry;
* `Provision.Tree.eraseBelow`, `Provision.Tree.move` — remove and move a whole subtree;
* `Provision.Tree.makeDirectory` — a new directory with nothing below it.

Main results:

* `Provision.Tree.get?_put`, `Provision.Tree.get?_erase`, `Provision.Tree.get?_eraseBelow` — what
  a write changes, and that it changes nothing else.
-/

set_option relaxedAutoImplicit false
set_option autoImplicit false

namespace Provision

/-- A place in the file tree: the names from the root directory down. -/
abbrev Location := List String

/-- What stands at a location. -/
inductive Entry where
  /-- A directory; what it holds stands at the locations below. -/
  | directory
  /-- A file: its content, and whether some execute permission is set. -/
  | file (content : ByteArray) (executable : Bool)
  /-- A symbolic link and its text. -/
  | link (text : String)
  deriving Inhabited

namespace Entry

/-- Entries can be compared. -/
instance : DecidableEq Entry
  | directory, directory => isTrue rfl
  | file c x, file d y =>
      if h : c.data = d.data ∧ x = y then
        isTrue (by rw [ByteArray.ext h.1, h.2])
      else isFalse fun e => by cases e; exact h ⟨rfl, rfl⟩
  | link s, link t =>
      if h : s = t then isTrue (congrArg link h) else isFalse fun e => by cases e; exact h rfl
  | directory, file _ _ | directory, link _ | file _ _, directory | file _ _, link _
  | link _, directory | link _, file _ _ => isFalse nofun

/-- Whether the entry is a directory. -/
def isDirectory : Entry → Bool
  | directory => true
  | _ => false

@[simp] theorem isDirectory_iff {e : Entry} : e.isDirectory = true ↔ e = directory := by
  cases e <;> simp [isDirectory]

end Entry

/-- A file tree, as the entries below the root directory. -/
structure Tree where
  /-- Locations and what stands there. -/
  entries : List (Location × Entry) := []
  deriving DecidableEq, Inhabited

namespace Tree

/-! ### Looking up -/

/-- **The entry at a location.**  The root directory is always there. -/
def get? (t : Tree) (p : Location) : Option Entry :=
  if p = [] then some .directory else t.entries.lookup p

/-- Whether there is something at a location. -/
def contains (t : Tree) (p : Location) : Bool := (t.get? p).isSome

/-- Whether there is something below a location. -/
def hasBelow (t : Tree) (p : Location) : Bool :=
  t.entries.any fun x => p.isPrefixOf x.1 && x.1 ≠ p

@[simp] theorem get?_root (t : Tree) : t.get? [] = some .directory := rfl

theorem get?_of_ne {t : Tree} {p : Location} (h : p ≠ []) : t.get? p = t.entries.lookup p := by
  simp [get?, h]

/-! ### Writing -/

/-- Puts an entry at a location, in the place of what was there. -/
def put (t : Tree) (p : Location) (e : Entry) : Tree :=
  ⟨t.entries.filter (fun x => x.1 ≠ p) ++ [(p, e)]⟩

/-- Removes the entry at a location. -/
def erase (t : Tree) (p : Location) : Tree := ⟨t.entries.filter fun x => x.1 ≠ p⟩

/-- Removes everything at and below a location. -/
def eraseBelow (t : Tree) (p : Location) : Tree :=
  ⟨t.entries.filter fun x => !p.isPrefixOf x.1⟩

/-- Makes a directory with nothing below it. -/
def makeDirectory (t : Tree) (p : Location) : Tree := (t.eraseBelow p).put p .directory

/-- Where a location goes when everything at and below `src` moves to `dst`. -/
def relocate (src dst p : Location) : Location :=
  if src.isPrefixOf p then dst ++ p.drop src.length else p

/-- Moves everything at and below `src` to `dst`, in the place of what was at and below `dst`. -/
def move (t : Tree) (src dst : Location) : Tree :=
  ⟨(t.eraseBelow dst).entries.map fun x => (relocate src dst x.1, x.2)⟩

/-! ### What a write changes -/

theorem lookup_cons_eq_ite (p q : Location) (e : Entry) (l : List (Location × Entry)) :
    ((p, e) :: l).lookup q = if q = p then some e else l.lookup q := by
  by_cases h : q = p
  · simp [h]
  · have hb : (q == p) = false := by simpa using h
    simp [List.lookup_cons, h, hb]

private theorem lookup_filter {q : Location} {f : Location → Bool} (hq : f q = true)
    (l : List (Location × Entry)) : (l.filter fun x => f x.1).lookup q = l.lookup q := by
  induction l with
  | nil => rfl
  | cons x l ih =>
      obtain ⟨k, e⟩ := x
      by_cases hf : f k = true
      · simp [hf, lookup_cons_eq_ite, ih]
      · have hk : q ≠ k := fun h => hf (h ▸ hq)
        simp [hf, lookup_cons_eq_ite, hk, ih]

private theorem lookup_filter_none {q : Location} {f : Location → Bool} (hq : f q = false)
    (l : List (Location × Entry)) : (l.filter fun x => f x.1).lookup q = none := by
  induction l with
  | nil => rfl
  | cons x l ih =>
      obtain ⟨k, e⟩ := x
      by_cases hf : f k = true
      · have hk : q ≠ k := fun h => by subst h; simp [hq] at hf
        simp [hf, lookup_cons_eq_ite, hk, ih]
      · simp [hf, ih]

private theorem lookup_append_single (p q : Location) (e : Entry) (l : List (Location × Entry)) :
    (l ++ [(p, e)]).lookup q = (l.lookup q).or (if q = p then some e else none) := by
  induction l with
  | nil => simp [lookup_cons_eq_ite]
  | cons x l ih =>
      obtain ⟨k, e'⟩ := x
      by_cases hk : q = k <;> simp [lookup_cons_eq_ite, hk, ih]

/-- **Putting an entry changes its own location and no other.** -/
theorem get?_put (t : Tree) {p : Location} (hp : p ≠ []) (e : Entry) (q : Location) :
    (t.put p e).get? q = if q = p then some e else t.get? q := by
  by_cases hq : q = []
  · subst hq; simp [Ne.symm hp]
  · rw [get?_of_ne hq, get?_of_ne hq, put, lookup_append_single]
    by_cases h : q = p
    · subst h
      rw [lookup_filter_none (f := fun k => decide (k ≠ q)) (by simp)]
      simp
    · rw [lookup_filter (f := fun k => decide (k ≠ p)) (by simp [h])]
      simp [h]

/-- **Removing an entry changes its own location and no other.** -/
theorem get?_erase (t : Tree) {p : Location} (hp : p ≠ []) (q : Location) :
    (t.erase p).get? q = if q = p then none else t.get? q := by
  by_cases hq : q = []
  · subst hq; simp [Ne.symm hp]
  · rw [get?_of_ne hq, get?_of_ne hq, erase]
    by_cases h : q = p
    · subst h
      rw [lookup_filter_none (f := fun k => decide (k ≠ q)) (by simp)]
      simp
    · rw [lookup_filter (f := fun k => decide (k ≠ p)) (by simp [h])]
      simp [h]

/-- **Removing a subtree removes exactly the locations at and below its top.** -/
theorem get?_eraseBelow (t : Tree) {p : Location} (hp : p ≠ []) (q : Location) :
    (t.eraseBelow p).get? q = if p <+: q then none else t.get? q := by
  by_cases hq : q = []
  · subst hq; simp [hp]
  · rw [get?_of_ne hq, get?_of_ne hq, eraseBelow]
    by_cases h : p <+: q
    · rw [lookup_filter_none (f := fun k => !p.isPrefixOf k) (by simpa using h)]
      simp [h]
    · have hb : p.isPrefixOf q = false := by simpa [← List.isPrefixOf_iff_prefix] using h
      rw [lookup_filter (f := fun k => !p.isPrefixOf k) (by simp [hb])]
      simp [h]

/-- **A new directory is there, is empty, and nothing else has changed.** -/
theorem get?_makeDirectory (t : Tree) {p : Location} (hp : p ≠ []) (q : Location) :
    (t.makeDirectory p).get? q =
      if q = p then some .directory else if p <+: q then none else t.get? q := by
  rw [makeDirectory, get?_put _ hp]
  split
  · rfl
  · exact get?_eraseBelow t hp q

end Tree

end Provision
