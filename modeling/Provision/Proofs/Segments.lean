/-
**What a run does between its commands.**

A run changes files by its commands and by itself.  Its own changes are those between the files that
one command has left and those that the next one starts on, with what it does before the first
command and behind the last one.  What is known of each of them is put together here from the tasks
of a plan; where one task ends and the next one begins, two changes become one.

Main definitions:

* `Provision.Launch.Between` — **what is done before, between and behind launches**;
* `Provision.Launch.Leading` — the same if nothing is done before the first launch.

Main results:

* `Provision.Launch.Between.append`, `Provision.Launch.Between.append_leading`,
  `Provision.Launch.Leading.append` — launches behind launches;
* `Provision.Bootstrap.Plan.launched_cons_ok`, `Provision.Bootstrap.Plan.launched_append_ok` — the
  launches of tasks, one after the other;
* `Provision.Bootstrap.Plan.segments_induction` — **what holds of each task holds of all of them**.
-/

import Provision.Proofs.Turns

set_option relaxedAutoImplicit false
set_option autoImplicit false

namespace Provision

/-! ### Between launches -/

namespace Launch

variable {R R' : FileSystem → FileSystem → Prop} {fs fs' mid : FileSystem} {ls ls' : List Launch}

/-- **Whatever is done before, between and behind launches is as `R` says**: between the files that
one launch has left and those that the next one starts on. -/
def Between (R : FileSystem → FileSystem → Prop) : FileSystem → List Launch → FileSystem → Prop
  | fs, [], fs' => R fs fs'
  | fs, l :: ls, fs' => R fs l.before ∧ Between R l.after ls fs'

/-- Nothing is done before the first launch, and behind it all is as `R` says. -/
def Leading (R : FileSystem → FileSystem → Prop) : FileSystem → List Launch → FileSystem → Prop
  | fs, [], fs' => fs' = fs
  | fs, l :: ls, fs' => l.before = fs ∧ Between R l.after ls fs'

theorem Between.mono (hR : ∀ x y, R x y → R' x y) (h : Between R fs ls fs') :
    Between R' fs ls fs' := by
  induction ls generalizing fs with
  | nil => exact hR _ _ h
  | cons l ls ih => exact ⟨hR _ _ h.1, ih h.2⟩

/-- Launches behind launches: what is done behind the former and before the latter is one change. -/
theorem Between.append (htrans : ∀ x y z, R x y → R y z → R x z) (h : Between R fs ls mid)
    (h' : Between R mid ls' fs') : Between R fs (ls ++ ls') fs' := by
  induction ls generalizing fs with
  | nil =>
      cases ls' with
      | nil => exact htrans _ _ _ h h'
      | cons l ls' => exact ⟨htrans _ _ _ h h'.1, h'.2⟩
  | cons l ls ih => exact ⟨h.1, ih h.2⟩

/-- Nothing is done before the latter launches. -/
theorem Between.append_leading (h : Between R fs ls mid) (h' : Leading R mid ls' fs') :
    Between R fs (ls ++ ls') fs' := by
  induction ls generalizing fs with
  | nil =>
      cases ls' with
      | nil =>
          obtain rfl : fs' = mid := h'
          exact h
      | cons l ls' =>
          obtain ⟨rfl, hrest⟩ := h'
          exact ⟨h, hrest⟩
  | cons l ls ih => exact ⟨h.1, ih h.2⟩

theorem Leading.append (h : Leading R fs ls mid) (h' : Leading R mid ls' fs') :
    Leading R fs (ls ++ ls') fs' := by
  cases ls with
  | nil =>
      obtain rfl : mid = fs := h
      exact h'
  | cons l ls => exact ⟨h.1, h.2.append_leading h'⟩

/-- Launches with nothing in between, and one change behind the last of them. -/
theorem Chain.between (hrefl : ∀ fs, R fs fs) (h : Chain fs ls mid) (hbehind : R mid fs') :
    Between R fs ls fs' := by
  induction ls generalizing fs with
  | nil =>
      obtain rfl : mid = fs := h
      exact hbehind
  | cons l ls ih =>
      obtain ⟨rfl, htail⟩ := h
      exact ⟨hrefl _, ih htail⟩

theorem Chain.leading (hrefl : ∀ fs, R fs fs) (h : Chain fs ls fs') : Leading R fs ls fs' := by
  cases ls with
  | nil => exact h
  | cons l ls => exact ⟨h.1, h.2.between hrefl (hrefl fs')⟩

theorem Chain.leading_of_ne_nil (hrefl : ∀ fs, R fs fs) (h : Chain fs ls mid) (hne : ls ≠ [])
    (hbehind : R mid fs') : Leading R fs ls fs' := by
  cases ls with
  | nil => exact absurd rfl hne
  | cons l ls => exact ⟨h.1, h.2.between hrefl hbehind⟩

end Launch

open Step

/-- A step that adds no launch has launched nothing. -/
theorem Step.launched_nil_of_same {α : Type} {s : Step α} {m : Machine}
    (h : (s.perform m).2.launches = m.launches) : s.launched m = [] :=
  launched_eq (by rw [h, List.append_nil])

namespace Bootstrap.Plan

variable {p : Plan} {m m₁ : Machine} {t : Task} {ts us : List Task}

/-! ### The launches of tasks -/

theorem launched_nil (p : Plan) (m : Machine) : (forM [] p.step).launched m = [] :=
  launched_eq (List.append_nil _).symm

section

variable (hdry : p.arguments.dryRun = false)
include hdry

theorem launched_append_ok (h : (forM ts p.step).perform m = (.ok (), m₁)) :
    (forM (ts ++ us) p.step).launched m =
      (forM ts p.step).launched m ++ (forM us p.step).launched m₁ := by
  have hfirst := launches_forM hdry ts m
  have hrest := launches_forM hdry us m₁
  rw [h] at hfirst
  refine launched_eq ?_
  rw [List.forM_append, perform_bind_ok h, hrest, hfirst, List.append_assoc]

theorem launched_append_error {e : Failure} (h : (forM ts p.step).perform m = (.error e, m₁)) :
    (forM (ts ++ us) p.step).launched m = (forM ts p.step).launched m := by
  have hfirst := launches_forM hdry ts m
  rw [h] at hfirst
  refine launched_eq ?_
  rw [List.forM_append, perform_bind_error h, hfirst]

theorem launched_cons_ok (h : (p.step t).perform m = (.ok (), m₁)) :
    (forM (t :: ts) p.step).launched m =
      (p.step t).launched m ++ (forM ts p.step).launched m₁ := by
  have hfirst := launches_step hdry t m
  have hrest := launches_forM hdry ts m₁
  rw [h] at hfirst
  refine launched_eq ?_
  rw [List.forM_cons, perform_bind_ok h, hrest, hfirst, List.append_assoc]

theorem launched_cons_error {e : Failure} (h : (p.step t).perform m = (.error e, m₁)) :
    (forM (t :: ts) p.step).launched m = (p.step t).launched m := by
  have hfirst := launches_step hdry t m
  rw [h] at hfirst
  refine launched_eq ?_
  rw [List.forM_cons, perform_bind_error h, hfirst]

theorem launched_singleton (t : Task) (m : Machine) :
    (forM [t] p.step).launched m = (p.step t).launched m := by
  rcases hstep : (p.step t).perform m with ⟨e | u, m₁⟩
  · rw [launched_cons_error hdry hstep]
  · rw [launched_cons_ok hdry hstep, launched_nil, List.append_nil]

/-- **Tasks behind tasks**: the latter are performed on the files that the former have left, if none of
the former fails. -/
theorem segments_append {S T U : FileSystem → List Launch → FileSystem → Prop}
    (hstop : ∀ fs ls fs', S fs ls fs' → U fs ls fs')
    (happend : ∀ fs ls mid ls' fs', S fs ls mid → T mid ls' fs' → U fs (ls ++ ls') fs')
    (hts : S m.files ((forM ts p.step).launched m) (p.after ts m).files)
    (hus : ∀ m₁, (forM ts p.step).perform m = (.ok (), m₁) →
      T m₁.files ((forM us p.step).launched m₁) (p.after us m₁).files) :
    U m.files ((forM (ts ++ us) p.step).launched m) (p.after (ts ++ us) m).files := by
  rcases hperform : (forM ts p.step).perform m with ⟨e | u, m₁⟩
  · rw [after, hperform] at hts
    rw [launched_append_error hdry hperform, after_append_error hperform]
    exact hstop _ _ _ hts
  · rw [after, hperform] at hts
    rw [launched_append_ok hdry hperform, after_append_ok hperform]
    exact happend _ _ _ _ _ hts (hus m₁ hperform)

/-- **What holds of each task holds of all of them.**  `S` is said of the files before, the launches
and the files behind; `I` is kept on the way; and every launch is good. -/
theorem segments_induction {S : FileSystem → List Launch → FileSystem → Prop}
    {I : FileSystem → Prop} {good : Launch → Prop} (hnil : ∀ fs, S fs [] fs)
    (happend : ∀ fs ls mid ls' fs', S fs ls mid → S mid ls' fs' → S fs (ls ++ ls') fs')
    (hstep : ∀ t ∈ ts, ∀ m : Machine, I m.files → (∀ l ∈ (p.step t).launched m, good l) →
      S m.files ((p.step t).launched m) ((p.step t).perform m).2.files ∧
        I ((p.step t).perform m).2.files)
    (h : I m.files) (hl : ∀ l ∈ (forM ts p.step).launched m, good l) :
    S m.files ((forM ts p.step).launched m) (p.after ts m).files ∧ I (p.after ts m).files := by
  induction ts generalizing m with
  | nil =>
      rw [launched_nil]
      exact ⟨hnil _, h⟩
  | cons t ts ih =>
      have hfirst := hstep t (by simp) m h
      rcases hperform : (p.step t).perform m with ⟨e | u, m₁⟩
      · rw [hperform] at hfirst
        rw [launched_cons_error hdry hperform] at hl ⊢
        rw [after_cons_error hperform]
        exact hfirst hl
      · rw [hperform] at hfirst
        rw [launched_cons_ok hdry hperform] at hl ⊢
        rw [after_cons_ok hperform]
        obtain ⟨hS, hI⟩ := hfirst fun l hmem => hl l (List.mem_append_left _ hmem)
        obtain ⟨hS', hI'⟩ := ih (fun t' ht' => hstep t' (by simp [ht'])) hI
          fun l hmem => hl l (List.mem_append_right _ hmem)
        exact ⟨happend _ _ _ _ _ hS hS', hI'⟩

end

end Bootstrap.Plan

end Provision
