import Mailout.Text.Quoted

/-!
# Writing JSON

JSON without blanks. Of text only the quote, the backslash and the characters below the space are
written with a backslash.
-/

namespace Mailout.Json

/-- The characters that stand for a character of a text. -/
def escapeChar (c : Char) : Text :=
  match c with
  | '"' => ['\\', '"']
  | '\\' => ['\\', '\\']
  | '\x08' => ['\\', 'b']
  | '\t' => ['\\', 't']
  | '\n' => ['\\', 'n']
  | '\x0C' => ['\\', 'f']
  | '\r' => ['\\', 'r']
  | c =>
    if c.toNat < 0x20 then
      ['\\', 'u', '0', '0', Nat.digitChar (c.toNat / 16), Nat.digitChar (c.toNat % 16)]
    else [c]

/-- A text between quotes. -/
def writeText (s : Text) : Text := '"' :: s.flatMap escapeChar ++ ['"']

/-- An array of values that are written already. -/
def writeArray (items : List Text) : Text := '[' :: List.intercalate [','] items ++ [']']

/-- A member of an object. -/
def writeMember (member : Text × Text) : Text := writeText member.1 ++ ':' :: member.2

/-- An object of members whose values are written already. -/
def writeObject (members : List (Text × Text)) : Text :=
  '{' :: List.intercalate [','] (members.map writeMember) ++ ['}']

end Mailout.Json
