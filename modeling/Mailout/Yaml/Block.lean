import Mailout.Yaml.Quoted

/-!
# Block scalars

A block scalar begins with `|` or `>` and stands on the lines below, which are indented further than
the block around it. Its header may say by how much, and what becomes of the line breaks at its end.
After `>` lines are folded: a single line break between two lines that do not begin with a blank
counts as a space.
-/

namespace Mailout.Yaml

/-- What becomes of the line breaks at the end of a block scalar. -/
inductive Chomping where
  /-- None is kept. -/
  | strip
  /-- The first is kept. -/
  | clip
  /-- All are kept. -/
  | keep
  deriving DecidableEq, Repr

/-- What the header of a block scalar says. -/
structure BlockHeader where
  chomping : Chomping := .clip
  /-- By how much the lines are indented further than the block around them. -/
  increment? : Option Nat := none

/-- Lines of a block scalar, and what stands between them and the next. -/
structure BlockText where
  text : Text := []
  /-- The line break after the last line. -/
  lineBreak : Text := []
  /-- The empty lines after that. -/
  emptyLines : Text := []
  /-- Whether the last line begins with a blank. -/
  blankFirst : Bool := false

namespace BlockText

/-- The text with its last line break as it counts between two lines. -/
def joined (folded : Bool) (b : BlockText) (nextBlankFirst : Bool) : Text :=
  if folded && b.lineBreak == ['\n'] && !b.blankFirst && !nextBlankFirst then
    b.text ++ (if b.emptyLines.isEmpty then [' '] else b.emptyLines)
  else b.text ++ b.lineBreak ++ b.emptyLines

/-- The text with its last line breaks as the header says. -/
def chomped (b : BlockText) : Chomping → Text
  | .strip => b.text
  | .clip => b.text ++ b.lineBreak
  | .keep => b.text ++ b.lineBreak ++ b.emptyLines

end BlockText

private def failBlock (c : Cursor) (start : Mark) (problem : String) : Except SyntaxError α :=
  c.fail "while scanning a block scalar" start problem

/-- The increment that a digit stands for, if there is a digit. -/
def readIncrement (start : Mark) (c : Cursor) : Except SyntaxError (Option Nat × Cursor) :=
  match c.head? with
  | some d =>
    if d == '0' then failBlock c start "found an indentation indicator equal to 0"
    else if d.isDigit then .ok (some (d.toNat - '0'.toNat), c.skip 1)
    else .ok (none, c)
  | none => .ok (none, c)

/-- The chomping that a sign stands for, if there is a sign. -/
def readChomping (c : Cursor) : Option Chomping × Cursor :=
  match c.head? with
  | some '+' => (some .keep, c.skip 1)
  | some '-' => (some .strip, c.skip 1)
  | _ => (none, c)

/-- The header after its `|` or `>`: an increment and a chomping in any order. -/
def readBlockHeader (start : Mark) (c : Cursor) : Except SyntaxError (BlockHeader × Cursor) := do
  let (chomping?, c) := readChomping c
  let (increment?, c) ← readIncrement start c
  let (chomping?, c) :=
    if chomping?.isNone && increment?.isSome then readChomping c else (chomping?, c)
  let c := (c.skipWhile isBlank).skipComment
  if atLineEnd c.rest then return (⟨chomping?.getD .clip, increment?⟩, c.skipBreak)
  else failBlock c start "did not find expected comment or line break"

/-- Takes empty lines and the indentation of the next line, up to `indent?` if that is known; and
the widest indentation met. -/
def readEmptyLines (start : Mark) (indent? : Option Nat) (widest : Nat) (lines : Text) (c : Cursor) :
    Except SyntaxError (Nat × Text × Cursor) :=
  let spaces := (c.rest.takeWhile (· == ' ')).length
  let after := c.skip (indent?.elim spaces fun indent => min spaces (indent - c.mark.column))
  let widest := max widest after.mark.column
  let misplaced := after.at? '\t' && indent?.all (after.mark.column < ·)
  if misplaced then
    failBlock after start "found a tab character where an indentation space is expected"
  else
    let (lineBreak, next) := after.takeBreak
    if lineBreak.isEmpty then .ok (widest, lines, after)
    else if next.rest.length < c.rest.length then
      readEmptyLines start indent? widest (lines ++ lineBreak) next
    else .ok (widest, lines, after)
termination_by c.rest.length

/-- The lines that are indented by `indent`. -/
def readBlockLines (folded : Bool) (start : Mark) (indent : Nat) (b : BlockText) (c : Cursor) :
    Except SyntaxError (BlockText × Cursor) :=
  match c.head? with
  | none => .ok (b, c)
  | some d =>
    if c.mark.column = indent then
      let blankFirst := isBlank d
      let (line, after) := c.takeWhile (!isBreak ·)
      let (lineBreak, after) := after.takeBreak
      match readEmptyLines start (some indent) 0 [] after with
      | .error e => .error e
      | .ok (_, emptyLines, after) =>
        let b := ⟨b.joined folded blankFirst ++ line, lineBreak, emptyLines, blankFirst⟩
        if after.rest.length < c.rest.length then readBlockLines folded start indent b after
        else .ok (b, after)
    else .ok (b, c)
termination_by c.rest.length

/-- The block scalar whose `|` or `>` is next, in a block that is indented by `outer`. -/
def readBlock (folded : Bool) (outer : Int) (c : Cursor) : Except SyntaxError (Text × Cursor) := do
  let start := c.mark
  let (header, c) ← readBlockHeader start (c.skip 1)
  let indent? := header.increment?.map fun n => outer.toNat + n
  let (widest, emptyLines, c) ← readEmptyLines start indent? 0 [] c
  let indent := indent?.getD (max widest (max (outer + 1).toNat 1))
  let (b, c) ← readBlockLines folded start indent { emptyLines } c
  return (b.chomped header.chomping, c)

end Mailout.Yaml
