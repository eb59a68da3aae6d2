import Mailout.Text.Blank
import Mailout.Text.Identifier
import Mailout.Text.Search

/-!
# URL spans

Handlebars escapes what `{{…}}` inserts and leaves what `{{{…}}}` inserts as it is. A span whose
content is a URL, or a variable named like one, is therefore given the third brace by `tripleBrace`.

## Termination

`tripleBrace` goes on after a span or after two braces, so the text left to read becomes shorter.
-/

namespace Mailout.UrlSpan

open Text

/-- Whether a name reads as that of a URL: `url` itself, or ending in `_url`, `.url` in any case
of letters, or in `Url`. -/
def isUrlName (name : Text) : Bool :=
  let lower := lowerAscii name
  lower == ['u', 'r', 'l'] || ['_', 'u', 'r', 'l'].isSuffixOf lower
    || ['.', 'u', 'r', 'l'].isSuffixOf lower || ['U', 'r', 'l'].isSuffixOf name

/-- Whether a text begins like an absolute web address. -/
def isWebAddress (s : Text) : Bool :=
  "http://".toList.isPrefixOf s || "https://".toList.isPrefixOf s

/-- Whether the content of a `{{…}}` span is a bare URL: a web address without blanks, or a
variable named like one. -/
def isUrl (content : Text) : Bool :=
  let content := trim content
  if isWebAddress content then !content.any isBlank
  else isIdentifier content && isUrlName content

/-- A content that could not stand alone between two pairs of braces on one line. -/
def isNested (content : Text) : Bool :=
  content.any fun c => c == '{' || c == '}' || c == '\n'

/-- Rewrites the spans of a text in front of which stands a brace if `afterBrace`. Without a
closing pair of braces the text is left as it is. -/
def tripleBraceFrom (afterBrace : Bool) : Text → Text
  | '{' :: '{' :: s =>
    match _h : cut? ['}', '}'] s with
    | none => '{' :: '{' :: s
    | some (content, rest) =>
      if !afterBrace && rest.head? != some '}' && !isNested content && isUrl content then
        ['{', '{', '{'] ++ content ++ ['}', '}', '}'] ++ tripleBraceFrom false rest
      else '{' :: '{' :: tripleBraceFrom true s
  | c :: s => c :: tripleBraceFrom (c == '{') s
  | [] => []
termination_by s => s.length
decreasing_by
  · have := cut?_length _h
    simp only [List.length_cons]
    omega
  · simp only [List.length_cons]; omega
  · simp

/-- Each double-braced URL span gets a third pair of braces; a span that has one already, that is
nested or that goes over a line end is left alone. -/
def tripleBrace (html : Text) : Text := tripleBraceFrom false html

end Mailout.UrlSpan
