/-
**Paragraphs.**

A paragraph is laid out in lines of a given width.  A line takes pieces as long as they fit; it may
end at a blank, which is then dropped, and behind a hyphen that joins two words.  Only a piece that
fits no line at all is cut.

Main definitions:

* `Provision.Text.Paragraph.wordPieces` — a word cut behind its hyphens;
* `Provision.Text.Paragraph.pieces` — what a paragraph is laid out from;
* `Provision.Text.Paragraph.fill` — **the lines of a paragraph**.
-/

import Provision.Text.Split

set_option relaxedAutoImplicit false
set_option autoImplicit false

namespace Provision.Text.Paragraph

/-- A letter of the paragraphs that are laid out here, which are in ASCII. -/
def isLetter (c : Char) : Bool := c.isAlpha || c = '_'

/-- Whether a line may end behind a hyphen: two letters stand before it, and two letters, perhaps
with a hyphen between them, behind it.  `before` is what stands before the hyphen, reversed. -/
def breaksBehind (before after : List Char) : Bool :=
  (match before with
    | b :: a :: _ => isLetter a && isLetter b
    | _ => false) &&
  (match after with
    | c :: '-' :: d :: _ => isLetter c && isLetter d
    | c :: d :: _ => isLetter c && isLetter d
    | _ => false)

/-- Cuts a word behind its hyphens; `before` is the piece so far, reversed. -/
def wordPieces (before : List Char) : List Char → List (List Char)
  | [] => if before = [] then [] else [before.reverse]
  | c :: rest =>
      if c = '-' ∧ breaksBehind before rest then (c :: before).reverse :: wordPieces [] rest
      else wordPieces (c :: before) rest

/-- The pieces of a paragraph: its words, cut behind hyphens, and the blanks between them. -/
def pieces (paragraph : List Char) : List (List Char) :=
  ([[' ']] : List (List Char)).intercalate
    (((Text.pieces ' ' paragraph).filter (· ≠ [])).map (wordPieces []))

/-- The first pieces that fit into `room` characters, and the others. -/
def takeFitting (room : Nat) : List (List Char) → List (List Char) × List (List Char)
  | [] => ([], [])
  | p :: ps =>
      if p.length ≤ room then
        let (taken, left) := takeFitting (room - p.length) ps
        (p :: taken, left)
      else ([], p :: ps)

/-- Where a piece that fits no line is cut: behind its last hyphen in the room that is left, if
there is one behind some other character, else at the end of the room. -/
def cutAt (room : Nat) (piece : List Char) : Nat :=
  let hyphen := room - 1 - ((piece.take room).reverse.takeWhile (· ≠ '-')).length
  if '-' ∈ piece.take room ∧ 0 < hyphen ∧ (piece.take hyphen).any (· ≠ '-') then hyphen + 1
  else room

/-- Lays out pieces in lines.  `fuel` bounds the number of lines, and `first` tells whether no
line came before. -/
def layOut (width : Nat) : Nat → Bool → List (List Char) → List (List Char)
  | 0, _, _ => []
  | _, _, [] => []
  | fuel + 1, first, ps =>
      let ps := if !first && ps.head? = some [' '] then ps.tail else ps
      let (taken, left) := takeFitting width ps
      let (taken, left) :=
        match left with
        | p :: rest =>
            if width < p.length then
              let room := width - taken.flatten.length
              let n := cutAt room p
              (taken ++ [p.take n], p.drop n :: rest)
            else (taken, left)
        | [] => (taken, left)
      let taken := if taken.getLast? = some [' '] then taken.dropLast else taken
      let line := taken.flatten
      let rest := layOut width fuel (first && line = []) left
      if line = [] then rest else line :: rest

/-- **The lines of a paragraph.** -/
def fill (width : Nat) (paragraph : String) : List String :=
  let ps := pieces paragraph.toList
  (layOut width (paragraph.length + ps.length + 1) true ps).map String.ofList

end Provision.Text.Paragraph
