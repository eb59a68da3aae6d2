import Mailout.Text.Basic

/-!
# Places in a YAML text

A cursor is what is left of a text and the mark of where that begins. Marks count characters; a line
ends at any of five line breaks, and a carriage return with a line feed is one of them.

Reading loops of this format end when a step takes nothing: every other step makes what is left
shorter, and the loops recurse on its length.
-/

namespace Mailout.Yaml

/-! ## Characters -/

/-- A space or a tab. -/
def isBlank (c : Char) : Bool := c == ' ' || c == '\t'

/-- A line break. -/
def isBreak (c : Char) : Bool :=
  c == '\r' || c == '\n' || c == '\u0085' || c == '\u2028' || c == '\u2029'

/-- Whether the text is at a blank, at a line break or at its end. -/
def atGap (s : Text) : Bool :=
  match s with
  | [] => true
  | c :: _ => isBlank c || isBreak c

/-- Whether the text is at a line break or at its end. -/
def atLineEnd (s : Text) : Bool :=
  match s with
  | [] => true
  | c :: _ => isBreak c

/-- A character of a name: a letter, a digit, an underscore or a dash. -/
def isNameChar (c : Char) : Bool := c.isAlphanum || c == '_' || c == '-'

/-- Whether the text begins with the mark that starts or ends a document. -/
def startsDocumentMark : Text → Bool
  | '-' :: '-' :: '-' :: s => atGap s
  | '.' :: '.' :: '.' :: s => atGap s
  | _ => false

/-! ## Marks -/

/-- A place: characters from the start, lines before it, characters before it in its line. -/
structure Mark where
  index : Nat := 0
  line : Nat := 0
  column : Nat := 0
  deriving DecidableEq, Repr, Inhabited

namespace Mark

/-- Whether this is the first place of the text, which messages leave out. -/
def isStart (m : Mark) : Bool := m.line == 0 && m.column == 0

/-- The place for people, who count from one. -/
def message (m : Mark) : String :=
  " at line " ++ toString (m.line + 1) ++ " column " ++ toString (m.column + 1)

end Mark

/-- Why a text is not YAML. -/
structure SyntaxError where
  problem : String
  mark : Mark
  /-- What was being read, and where that began. -/
  context? : Option (String × Mark) := none
  /-- The byte of a character that may not occur. -/
  offset : Nat := 0
  deriving DecidableEq, Repr, Inhabited

/-- The wording of the error. -/
def SyntaxError.message (e : SyntaxError) : String :=
  let place :=
    if !e.mark.isStart then e.mark.message
    else if e.offset != 0 then " at position " ++ toString e.offset
    else ""
  let context :=
    match e.context? with
    | none => ""
    | some (text, mark) =>
      ", " ++ text ++
        (if mark.isStart || (mark.line == e.mark.line && mark.column == e.mark.column) then ""
        else mark.message)
  e.problem ++ place ++ context

/-! ## Cursors -/

/-- What is left of a text, and where it begins. -/
structure Cursor where
  rest : Text
  mark : Mark := {}
  deriving DecidableEq, Repr

namespace Cursor

/-- The next character. -/
def head? (c : Cursor) : Option Char := c.rest.head?

/-- Whether the next character is this one. -/
def at? (c : Cursor) (d : Char) : Bool := c.rest.head? == some d

/-- The cursor some characters of the line further on. -/
def skip (c : Cursor) (n : Nat) : Cursor :=
  let n := min n c.rest.length
  ⟨c.rest.drop n, { c.mark with index := c.mark.index + n, column := c.mark.column + n }⟩

/-- The leading characters of one kind, and the cursor after them. -/
def takeWhile (c : Cursor) (p : Char → Bool) : Text × Cursor :=
  let taken := c.rest.takeWhile p
  (taken, c.skip taken.length)

/-- The cursor after the leading characters of one kind. -/
def skipWhile (c : Cursor) (p : Char → Bool) : Cursor := (c.takeWhile p).2

private def nextLine (c : Cursor) (n : Nat) : Cursor :=
  ⟨c.rest.drop n, ⟨c.mark.index + n, c.mark.line + 1, 0⟩⟩

/-- The line break as it counts in a text, and the cursor after it. -/
def takeBreak (c : Cursor) : Text × Cursor :=
  match c.rest with
  | '\r' :: '\n' :: _ => (['\n'], c.nextLine 2)
  | '\u2028' :: _ => (['\u2028'], c.nextLine 1)
  | '\u2029' :: _ => (['\u2029'], c.nextLine 1)
  | d :: _ => if isBreak d then (['\n'], c.nextLine 1) else ([], c)
  | [] => ([], c)

/-- The cursor after a line break. -/
def skipBreak (c : Cursor) : Cursor := c.takeBreak.2

/-- The cursor after a comment, if there is one. -/
def skipComment (c : Cursor) : Cursor := if c.at? '#' then c.skipWhile (!isBreak ·) else c

/-- Fails here, in the course of reading what began at a mark. -/
def fail (c : Cursor) (context : String) (start : Mark) (problem : String) :
    Except SyntaxError α :=
  .error ⟨problem, c.mark, some (context, start), 0⟩

end Cursor

end Mailout.Yaml
