import Mailout.Yaml.Quoted
import Mailout.Yaml.Token

/-!
# Properties of a node

In front of a node may stand an anchor, which gives it a name, and a tag, which says of what kind it
is. An alias refers to a node by its name.

## Tags

A tag is written in full between `!<` and `>`, or as a handle and a suffix. The handle is `!`, `!!`
or a word between two exclamation marks; without a suffix the tag `!` stands alone.
-/

namespace Mailout.Yaml

/-! ## Names -/

/-- Whether a name may end here. -/
def endsName (s : Text) : Bool := atGap s || s.head?.any "?:,]\x7d%@\x60".toList.contains

/-- The name after the `&` or `*` that is next. -/
def readName (context : String) (c : Cursor) : Except SyntaxError (Text × Cursor) :=
  let (name, after) := (c.skip 1).takeWhile isNameChar
  if name.isEmpty || !endsName after.rest then
    after.fail context c.mark "did not find expected alphabetic or numeric character"
  else .ok (name, after)

/-! ## Escaped bytes -/

/-- The byte that a percent sign and two hexadecimal digits stand for. -/
def escapedByte? : Text → Option Nat
  | '%' :: s => hexNumber? 2 s
  | _ => none

/-- How many more bytes the character has that begins with this one, and the bits of the character
in it. -/
def firstByte? (byte : Nat) : Option (Nat × Nat) :=
  if byte < 0x80 then some (0, byte)
  else if byte / 0x20 = 6 then some (1, byte % 0x20)
  else if byte / 0x10 = 14 then some (2, byte % 0x10)
  else if byte / 0x08 = 30 then some (3, byte % 0x08)
  else none

/-- Why escaped bytes are not a character. -/
inductive EscapeProblem where
  | noByte
  | badFirst
  | badNext
  deriving DecidableEq, Repr

/-- The wording of the problem. -/
def EscapeProblem.message : EscapeProblem → String
  | .noByte => "did not find URI escaped octet"
  | .badFirst => "found an incorrect leading UTF-8 octet"
  | .badNext => "found an incorrect trailing UTF-8 octet"

/-- The bits of `count` more bytes of a character. -/
def continueChar : Nat → Nat → Cursor → Except (EscapeProblem × Cursor) (Nat × Cursor)
  | 0, bits, c => .ok (bits, c)
  | count + 1, bits, c =>
    match escapedByte? c.rest with
    | none => .error (.noByte, c)
    | some byte =>
      if byte / 0x40 = 2 then continueChar count (bits * 0x40 + byte % 0x40) (c.skip 3)
      else .error (.badNext, c)

/-- The character whose escaped bytes are next. -/
def readEscapedChar (c : Cursor) : Except (EscapeProblem × Cursor) (Char × Cursor) :=
  match escapedByte? c.rest with
  | none => .error (.noByte, c)
  | some byte =>
    match firstByte? byte with
    | none => .error (.badFirst, c)
    | some (count, bits) =>
      match continueChar count bits (c.skip 3) with
      | .error e => .error e
      | .ok (n, c) => .ok (if n.isValidChar then Char.ofNat n else '\uFFFD', c)

/-! ## Tags -/

/-- Where a part of a tag stands. -/
inductive TagPlace where
  /-- In a directive. -/
  | directive
  /-- In full, between angle brackets. -/
  | verbatim
  /-- After a handle. -/
  | suffix
  deriving DecidableEq, Repr

/-- What is being read at the place. -/
def TagPlace.context : TagPlace → String
  | .directive => "while parsing a %TAG directive"
  | _ => "while parsing a tag"

/-- A character of a tag; brackets and commas end one after a handle. -/
def isTagChar (place : TagPlace) (d : Char) : Bool :=
  isNameChar d || ";/?:@&=+$.%!~*'()".toList.contains d ||
    (place != .suffix && ",[]".toList.contains d)

/-- The characters of a tag, with escapes replaced. -/
def readTagText (place : TagPlace) (start : Mark) (text : Text) (c : Cursor) :
    Except SyntaxError (Text × Cursor) :=
  match c.head? with
  | none => .ok (text, c)
  | some d =>
    if isTagChar place d then
      let step := if d == '%' then readEscapedChar c else .ok (d, c.skip 1)
      match step with
      | .error (problem, after) => after.fail place.context start problem.message
      | .ok (d, after) =>
        if after.rest.length < c.rest.length then readTagText place start (text ++ [d]) after
        else .ok (text, c)
    else .ok (text, c)
termination_by c.rest.length

/-- The characters of a tag, at least one. -/
def readTagPart (place : TagPlace) (start : Mark) (c : Cursor) :
    Except SyntaxError (Text × Cursor) := do
  let (text, after) ← readTagText place start [] c
  if text.isEmpty then after.fail place.context start "did not find expected tag URI"
  else return (text, after)

/-- The text from an exclamation mark to the end of the word after it, and whether another
exclamation mark, which belongs to it, ends the word. -/
def readHandle (c : Cursor) : Text × Bool × Cursor :=
  let (word, after) := (c.skip 1).takeWhile isNameChar
  if after.at? '!' then ('!' :: word ++ ['!'], true, after.skip 1) else ('!' :: word, false, after)

/-- The tag whose exclamation mark is next. -/
def readTag (inFlow : Bool) (c : Cursor) : Except SyntaxError (TagName × Cursor) := do
  let start := c.mark
  let fail (c : Cursor) (problem : String) : Except SyntaxError (TagName × Cursor) :=
    c.fail "while scanning a tag" start problem
  let (name, after) ←
    if (c.skip 1).at? '<' then do
      let (suffix, after) ← readTagPart .verbatim start (c.skip 2)
      if after.at? '>' then pure (⟨[], suffix⟩, after.skip 1)
      else fail after "did not find the expected '>'"
    else do
      let (handle, isHandle, after) := readHandle c
      if isHandle then
        let (suffix, after) ← readTagPart .suffix start after
        pure (⟨handle, suffix⟩, after)
      else
        let (suffix, after) ← readTagText .suffix start handle.tail after
        pure (if suffix.isEmpty then ⟨[], ['!']⟩ else ⟨['!'], suffix⟩, after)
  if atGap after.rest || (inFlow && after.at? ',') then return (name, after)
  else fail after "did not find expected whitespace or line break"

end Mailout.Yaml
