/-
**How deep a document goes.**

Reading a document descends into its lists and mappings, and there is only so much room for that.  The
document is first taken apart, token by token; there a list takes as much room as a mapping.  When it
has come to its end the value is built, and there a list takes more.  A document that goes too deep for
the one or the other overruns.

How much room there is depends on what has been called before.  The number below leaves a list about
330 levels and a mapping about 490; what is far from them does not depend on the exact place.

Main definitions:

* `Provision.Yaml.Level`, `Provision.Yaml.Level.behind` — the lists and mappings that are open;
* `Provision.Yaml.Level.deepest` — the room that tokens take;
* `Provision.Yaml.TokenStream.cut` — the tokens up to the one that lies too deep.

Main result:

* `Provision.Yaml.TokenStream.cut_eq_self` — tokens that take little room are all there.
-/

import Provision.Yaml.Token.Stream

set_option relaxedAutoImplicit false
set_option autoImplicit false

namespace Provision.Yaml

/-- A list or a mapping that is open. -/
inductive Level where
  | sequence
  | mapping
  /-- A list at the column of the keys around it, without tokens for its start and its end. -/
  | entries
  /-- A mapping of one pair in a list in brackets, without such tokens either. -/
  | pair
  deriving DecidableEq, Repr, Inhabited

namespace Level

/-- Behind the end of the innermost level that has one. -/
def close : List Level → List Level
  | .entries :: ls | .pair :: ls => ls.tail
  | ls => ls.tail

/-- **The levels that are open behind a token**, the innermost first. -/
def behind (ls : List Level) : Token → List Level
  | .blockSequenceStart | .flowSequenceStart => .sequence :: ls
  | .blockMappingStart | .flowMappingStart => .mapping :: ls
  | .blockEnd | .flowSequenceEnd | .flowMappingEnd => close ls
  | .blockEntry => if ls.head? = some .mapping then .entries :: ls else ls
  | .key =>
      match ls with
      | .entries :: ls => ls
      | .sequence :: ls => .pair :: .sequence :: ls
      | ls => ls
  | .value => if ls.head? = some .entries then ls.tail else ls
  | .flowEntry => if ls.head? = some .pair then ls.tail else ls
  | _ => ls

/-- The room that one level takes, with so much for a list. -/
def share (perList : Nat) : Level → Nat
  | sequence | entries => perList
  | mapping | pair => 2

/-- The room that levels take. -/
def room (perList : Nat) : List Level → Nat
  | [] => 0
  | l :: ls => share perList l + room perList ls

/-- **The most room that is taken** on the way through some tokens. -/
def deepest (perList : Nat) : List Level → List Token → Nat
  | ls, [] => room perList ls
  | ls, t :: ts => max (room perList ls) (deepest perList (behind ls t) ts)

/-- How much room there is. -/
def maxRoom : Nat := 985

/-- The tokens up to the first that opens a level for which there is no room. -/
def within : List Level → List Token → List Token
  | _, [] => []
  | ls, t :: ts => if room 2 (behind ls t) ≤ maxRoom then t :: within (behind ls t) ts else []

theorem room_le_deepest (perList : Nat) (ls : List Level) (ts : List Token) :
    room perList ls ≤ deepest perList ls ts := by
  cases ts with
  | nil => exact Nat.le_refl _
  | cons t ts => exact Nat.le_max_left ..

/-- Taking a document apart never takes more room than building its value. -/
theorem room_two_le (ls : List Level) : room 2 ls ≤ room 3 ls := by
  induction ls with
  | nil => exact Nat.le_refl _
  | cons l ls ih =>
      have hshare : share 2 l ≤ share 3 l := by cases l <;> decide
      exact Nat.add_le_add hshare ih

theorem within_eq_self {ls : List Level} {ts : List Token} (h : deepest 3 ls ts ≤ maxRoom) :
    within ls ts = ts := by
  induction ts generalizing ls with
  | nil => rfl
  | cons t ts ih =>
      have hrest : deepest 3 (behind ls t) ts ≤ maxRoom := Nat.le_trans (Nat.le_max_right ..) h
      have hroom : room 2 (behind ls t) ≤ maxRoom :=
        Nat.le_trans (room_two_le _) (Nat.le_trans (room_le_deepest 3 _ ts) hrest)
      rw [within, if_pos hroom, ih hrest]

end Level

namespace TokenStream

/-- **The tokens up to the one that lies too deep**, if there is one. -/
def cut (s : TokenStream) : TokenStream :=
  let kept := Level.within [] s.tokens
  if kept.length < s.tokens.length then ⟨kept, some (.overrun .nesting)⟩ else s

/-- Whether there is no room to build the value. -/
def goesTooDeep (s : TokenStream) : Bool := Level.maxRoom < Level.deepest 3 [] s.tokens

/-- Tokens that take little room are all there. -/
theorem cut_eq_self {s : TokenStream} (h : s.goesTooDeep = false) : s.cut = s := by
  have hroom : Level.deepest 3 [] s.tokens ≤ Level.maxRoom := by simpa [goesTooDeep] using h
  rw [cut, Level.within_eq_self hroom]
  simp

end TokenStream

end Provision.Yaml
