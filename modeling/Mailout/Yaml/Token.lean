import Mailout.Yaml.Cursor

/-!
# Tokens of a YAML text

A token is a scalar, a property of a node or an indicator. Indentation is told by tokens too: a
block collection begins with a token of its own, and ends with one where the indentation goes back.
-/

namespace Mailout.Yaml

/-- What is said about a document in front of it. -/
inductive Directive where
  | version (major minor : Nat)
  /-- A handle for tags, and what it stands for. -/
  | handle (name meaning : Text)
  deriving DecidableEq, Repr

/-- A tag as it is written: a handle and what follows it. -/
structure TagName where
  handle : Text
  suffix : Text
  deriving DecidableEq, Repr

/-- What a token is. -/
inductive TokenKind where
  | streamEnd
  | directive (d : Directive)
  | documentStart
  | documentEnd
  | blockSequenceStart
  | blockMappingStart
  | blockEnd
  | flowSequenceStart
  | flowSequenceEnd
  | flowMappingStart
  | flowMappingEnd
  | blockEntry
  | flowEntry
  | key
  | value
  | alias (name : Text)
  | anchor (name : Text)
  | tag (name : TagName)
  | scalar (text : Text) (isPlain : Bool)
  deriving DecidableEq, Repr

/-- A token and where it begins. -/
structure Token where
  kind : TokenKind
  mark : Mark
  deriving DecidableEq, Repr

/-- The place after an indicator of one character. -/
def Mark.next (m : Mark) : Mark := { m with index := m.index + 1, column := m.column + 1 }

end Mailout.Yaml
