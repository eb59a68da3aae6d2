import Mailout.Markup.Attribute

/-!
# Tokens of markup

Markup is read as characters, tags, comments and a few rarer forms. Every token knows its own text,
`Token.source`, so a token that is not edited is written back as it was.
-/

namespace Mailout

/-- A start tag. -/
structure StartTag where
  /-- The name as written. -/
  name : Text
  body : TagBody
  deriving DecidableEq, Repr

namespace StartTag

/-- The attributes in the order written. -/
def attributes (t : StartTag) : List Attribute := t.body.attributes

/-- The tag written anew: every attribute by its own text after one space. -/
def render (t : StartTag) : Text :=
  let attrs := t.attributes.flatMap fun a => ' ' :: a.source
  let ending :=
    if t.body.selfClosing then (if t.attributes.isEmpty then ['/', '>'] else [' ', '/', '>'])
    else ['>']
  '<' :: t.name ++ attrs ++ ending

end StartTag

/-- A token of markup. -/
inductive Token where
  /-- A character of the text between tags. -/
  | char (c : Char)
  /-- Text that starts like a tag and is none: `</>`, or a tag the text ends in. -/
  | scrap (source : Text)
  /-- A section of plain text in foreign content. -/
  | cdata (source : Text)
  | doctype (source : Text)
  | comment (source content : Text)
  | startTag (source : Text) (tag : StartTag)
  /-- An end tag, and its name as written. -/
  | endTag (source name : Text)
  deriving DecidableEq, Repr

/-- The text a token stands for. -/
def Token.source : Token → Text
  | .char c => [c]
  | .scrap source | .cdata source | .doctype source => source
  | .comment source _ | .startTag source _ | .endTag source _ => source

end Mailout
