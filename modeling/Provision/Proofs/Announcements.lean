/-
**Commands that count, and how a dry run announces them.**

Four kinds of commands stand for something that a run puts in place or resets: the download of a
distribution, the build of a tool, the clone of a repository, and pointing a fork at its address.
Each kind has its first words, by which its commands are recognized.  A dry run launches none of
them, and writes a record instead that opens with what would be done.  The quotes around a command
line may be of two sorts, so a kind of command has two openings.

Main definitions:

* `Provision.Effort`, `Provision.Effort.takes` — the kinds of commands that count, and their
  commands;
* `Provision.Effort.opening`, `Provision.Effort.announcedBy` — how a record that announces one opens;
* `Provision.Effort.Apart` — texts of which none opens with the other.

Main results:

* `Provision.Effort.announcedBy_eq_false` — a record that opens differently announces nothing;
* `Provision.Effort.announcedBy_wouldRun` — **what the record for a command line announces can be
  read off its first words**.
-/

import Provision.Runner

set_option relaxedAutoImplicit false
set_option autoImplicit false

namespace Provision

/-- What a run puts in place or resets by a command. -/
inductive Effort where
  /-- The archive of a distribution is downloaded and unpacked. -/
  | download
  /-- A tool is built. -/
  | build
  /-- A repository is cloned. -/
  | clone
  /-- A fork is pointed at its address again. -/
  | refresh
  deriving DecidableEq, Repr, Inhabited

namespace Effort

/-- All kinds. -/
def all : List Effort := [download, build, clone, refresh]

theorem mem_all (k : Effort) : k ∈ all := by cases k <;> decide

/-! ### Commands -/

/-- The first words of a command. -/
def words : Effort → List String
  | download => ["/bin/bash", "-c"]
  | build => ["go", "get"]
  | clone => ["git", "clone"]
  | refresh => ["git", "remote", "set-url"]

/-- **Whether a command is of a kind.** -/
def takes (k : Effort) (c : Command) : Bool := k.words.isPrefixOf c.argv

/-! ### Records -/

/-- The quotes that a command line may stand between. -/
def quotes : List Char := ['\x27', '\x22']

/-- Some words with a blank behind each. -/
def spaced (ws : List String) : List Char := ws.flatMap fun w => w.toList ++ [' ']

/-- How the record for a command line that starts with `ws` opens. -/
def lineOpening (q : Char) (ws : List String) : List Char :=
  "Dry run: would run ".toList ++ q :: spaced ws

/-- How a record that announces a kind opens, its command line standing between quotes `q`. -/
def opening (q : Char) : Effort → List Char
  | download => "Dry run: would download ".toList
  | k => lineOpening q k.words

/-- **Whether a record announces a command of a kind.** -/
def announcedBy (k : Effort) (r : Log.Record) : Bool :=
  quotes.any fun q => (k.opening q).isPrefixOf r.message.toList

/-! ### Texts that open differently -/

variable {α : Type} [BEq α] [LawfulBEq α]

/-- Neither of two texts opens with the other. -/
def Apart (s t : List α) : Bool := !s.isPrefixOf t && !t.isPrefixOf s

theorem isPrefixOf_append_of_apart {s t : List α} (h : Apart s t = true) (u : List α) :
    s.isPrefixOf (t ++ u) = false := by
  simp only [Apart, Bool.and_eq_true, Bool.not_eq_true'] at h
  rw [Bool.eq_false_iff, ne_eq, List.isPrefixOf_iff_prefix]
  intro hs
  rcases List.prefix_or_prefix_of_prefix hs (List.prefix_append t u) with hst | hts
  · rw [List.isPrefixOf_iff_prefix.2 hst] at h
    simp at h
  · rw [List.isPrefixOf_iff_prefix.2 hts] at h
    simp at h

theorem isPrefixOf_append_of_isPrefixOf {s t : List α} (h : s.isPrefixOf t = true) (u : List α) :
    s.isPrefixOf (t ++ u) = true :=
  List.isPrefixOf_iff_prefix.2 ((List.isPrefixOf_iff_prefix.1 h).trans (List.prefix_append t u))

/-- A text that no announcement opens with, and that opens none. -/
def Foreign (s : List Char) : Bool := all.all fun k => quotes.all fun q => Apart (k.opening q) s

/-- **A record that opens with a foreign text announces nothing.** -/
theorem announcedBy_eq_false {s : String} (hs : Foreign s.toList = true) {level : Log.Level}
    {message : String} (h : s.toList <+: message.toList) (k : Effort) :
    k.announcedBy ⟨level, message⟩ = false := by
  obtain ⟨rest, hrest⟩ := h
  rw [announcedBy, List.any_eq_false]
  intro q hq
  have happart := List.all_eq_true.1 (List.all_eq_true.1 hs k (mem_all k)) q hq
  rw [← hrest, isPrefixOf_append_of_apart happart rest]
  decide

/-- What the record for a download announces. -/
theorem announcedBy_wouldDownload (level : Log.Level) (url : String) (k : Effort) :
    k.announcedBy ⟨level, "Dry run: would download " ++ url⟩ = decide (k = .download) := by
  -- a command line is announced otherwise
  have hothers : ∀ k : Effort, k ≠ .download →
      quotes.all (fun q => Apart (k.opening q) "Dry run: would download ".toList) = true := by
    intro k
    cases k <;> decide +kernel
  generalize hs : "Dry run: would download " = s at hothers ⊢
  by_cases hk : k = .download
  · subst hk
    have hopening : ∀ q, opening q .download = s.toList := fun q => by rw [← hs]; rfl
    simp [announcedBy, hopening, quotes, List.isPrefixOf_iff_prefix.2 (List.prefix_append ..)]
  · rw [decide_eq_false hk]
    refine List.any_eq_false.2 fun q hq => ?_
    have happart := List.all_eq_true.1 (hothers k hk) q hq
    rw [String.toList_append, isPrefixOf_append_of_apart happart]
    decide

/-! ### Command lines -/

/-- Words that stand for themselves in a command line and between quotes. -/
def Plain (ws : List String) : Bool :=
  (ws.all fun w => Shell.quoteWord w.toList == w.toList) &&
    quotes.all fun q => (spaced ws).flatMap (Text.Quoted.escape q) == spaced ws

/-- A command line opens with its plain words. -/
theorem join_append {ws : List String} (hws : Plain ws = true) (x : String) (xs : List String) :
    (Shell.join (ws ++ x :: xs)).toList = spaced ws ++ (Shell.join (x :: xs)).toList := by
  simp only [Plain, Bool.and_eq_true] at hws
  have hwords := hws.1
  simp only [Shell.join, String.toList_ofList]
  clear hws
  induction ws with
  | nil => rfl
  | cons w ws ih =>
      simp only [List.all_cons, Bool.and_eq_true, beq_iff_eq] at hwords
      obtain ⟨y, ys, hys⟩ : ∃ y ys, ws ++ x :: xs = y :: ys := by cases ws <;> simp
      have hrest := ih hwords.2
      rw [List.cons_append, hys, List.map_cons, List.map_cons, Shell.joinWords_cons_cons, hwords.1,
        ← List.map_cons, ← hys, hrest]
      simp [spaced]

/-- Between quotes a command line opens with its plain words. -/
theorem quoted_join {ws : List String} (hws : Plain ws = true) (x : String) (xs : List String) :
    ∃ q ∈ quotes, ∃ rest,
      (Text.quoted (Shell.join (ws ++ x :: xs))).toList = q :: (spaced ws ++ rest) := by
  have hq : Text.Quoted.delimiter (Shell.join (ws ++ x :: xs)).toList ∈ quotes := by
    unfold Text.Quoted.delimiter
    split <;> decide
  refine ⟨_, hq, ?_⟩
  rw [Text.quoted_toList, Text.Quoted.encode]
  generalize Text.Quoted.delimiter (Shell.join (ws ++ x :: xs)).toList = q at hq ⊢
  have hescape : (spaced ws).flatMap (Text.Quoted.escape q) = spaced ws := by
    simp only [Plain, Bool.and_eq_true] at hws
    exact beq_iff_eq.1 (List.all_eq_true.1 hws.2 q hq)
  rw [join_append hws, List.flatMap_append, hescape, List.append_assoc]
  exact ⟨_, rfl⟩

/-- Whether the first words `ws` tell that a command line is of the kind `made`, or of no kind, in a
record as well as in a launch. -/
def Tells (ws : List String) (made : Option Effort) : Bool :=
  Plain ws && all.all fun k =>
    if made = some k then
      k.words.isPrefixOf ws && quotes.all fun q => (k.opening q).isPrefixOf (lineOpening q ws)
    else
      Apart k.words ws &&
        quotes.all fun q => quotes.all fun q' => Apart (k.opening q') (lineOpening q ws)

variable {ws : List String} {made : Option Effort}

/-- The kind of a command is read off its first words. -/
theorem takes_of_tells (h : Tells ws made = true) (xs : List String) (directory : Path)
    (k : Effort) : k.takes ⟨ws ++ xs, directory⟩ = decide (made = some k) := by
  simp only [Tells, Bool.and_eq_true] at h
  have hk := List.all_eq_true.1 h.2 k (mem_all k)
  unfold takes
  by_cases hmade : made = some k
  · simp only [hmade, if_true, Bool.and_eq_true] at hk
    simp only [isPrefixOf_append_of_isPrefixOf hk.1, hmade, decide_true]
  · simp only [hmade, if_false, Bool.and_eq_true] at hk
    simp only [isPrefixOf_append_of_apart hk.1, hmade, decide_false]

/-- **What the record for a command line announces is read off its first words.** -/
theorem announcedBy_wouldRun (h : Tells ws made = true) (x : String) (xs : List String)
    (level : Log.Level) (behind : String) (k : Effort) :
    k.announcedBy ⟨level, "Dry run: would run " ++ Text.quoted (Shell.join (ws ++ x :: xs)) ++
      behind⟩ = decide (made = some k) := by
  simp only [Tells, Bool.and_eq_true] at h
  obtain ⟨q, hq, rest, hrest⟩ := quoted_join h.1 x xs
  have hk := List.all_eq_true.1 h.2 k (mem_all k)
  have hmessage : ("Dry run: would run " ++ Text.quoted (Shell.join (ws ++ x :: xs)) ++
      behind).toList = lineOpening q ws ++ (rest ++ behind.toList) := by
    unfold lineOpening
    generalize "Dry run: would run " = announcing
    simp only [String.toList_append, hrest, List.append_assoc, List.cons_append]
  unfold announcedBy
  rw [hmessage]
  by_cases hmade : made = some k
  · simp only [hmade, if_true, Bool.and_eq_true, decide_true, List.any_eq_true] at hk ⊢
    exact ⟨q, hq, isPrefixOf_append_of_isPrefixOf (List.all_eq_true.1 hk.2 q hq) _⟩
  · simp only [hmade, if_false, Bool.and_eq_true, decide_false, List.any_eq_false] at hk ⊢
    intro q' hq'
    have happart := List.all_eq_true.1 (List.all_eq_true.1 hk.2 q hq) q' hq'
    rw [isPrefixOf_append_of_apart happart]
    decide

end Effort

end Provision
