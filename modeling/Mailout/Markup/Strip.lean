import Mailout.Markup.ClassRun
import Mailout.Markup.Tokens

/-!
# Stripping editor tokens

`strip` takes the authoring tool's class tokens out of markup: out of the first `class` and the
first `css-class` attribute of every start tag, and out of the class runs of every comment. A token
that is not edited keeps its text.

## Rules

* An attribute without authored tokens goes, and with it every other attribute of that name.
* An edited tag is written anew; its other attributes keep their own text.
* An edited comment is written between `<!--` and `-->`, whatever form it had. It is an error if
  its new content holds `-->`.
* A byte order mark that a value or a comment begins with is not part of it.
-/

namespace Mailout

open Text

/-- Why markup cannot be rewritten. -/
inductive RewriteError where
  /-- The new content of a comment would close the comment. -/
  | closingInComment
  deriving DecidableEq, Repr

/-- The wording of the error. -/
def RewriteError.message : RewriteError → String
  | .closingInComment => "Comment text shouldn't contain comment closing sequence (`-->`)."

/-! ## Start tags -/

/-- The list with the first element of that kind changed. -/
def replaceFirst (isWanted : α → Bool) (change : α → α) : List α → List α
  | [] => []
  | a :: as => if isWanted a then change a :: as else a :: replaceFirst isWanted change as

/-- The attributes after the first one of this name is cleaned, or no result if there is none or
its value is clean. -/
def cleanAttribute? (name : Text) (attrs : List Attribute) : Option (List Attribute) := do
  let first ← attrs.find? (Attribute.isNamed name)
  match ← ClassList.clean? (dropMark first.value) with
  | [] => some (attrs.filter (!Attribute.isNamed name ·))
  | kept => some (replaceFirst (Attribute.isNamed name) (·.withValue kept) attrs)

/-- The attributes that hold class lists. -/
def annotatedNames : List Text := ["class".toList, "css-class".toList]

/-- The attributes after those that hold class lists are cleaned one after the other, or no result
if all of them are clean. -/
def cleanAttributes? (attrs : List Attribute) : Option (List Attribute) :=
  annotatedNames.foldl
    (fun result name =>
      match cleanAttribute? name (result.getD attrs) with
      | some attrs => some attrs
      | none => result)
    none

/-! ## Tokens -/

namespace Token

/-- The token of a start tag that is written anew with these attributes. It is not dangling: of an
attribute whose value was due only the name is written. -/
def startTagWith (t : StartTag) (attrs : List Attribute) : Token :=
  let tag : StartTag := ⟨t.name, attrs, t.body.selfClosing, false⟩
  .startTag tag.render tag

/-- The token of a comment that is written anew. -/
def commentOf (content : Text) : Token :=
  .comment (['<', '!', '-', '-'] ++ content ++ ['-', '-', '>']) content

/-- The token without editor tokens. -/
def strip (token : Token) : Except RewriteError Token :=
  match token with
  | .startTag _ t => .ok ((cleanAttributes? t.attributes).elim token (startTagWith t))
  | .comment _ content =>
    match ClassRun.clean? (dropMark content) with
    | none => .ok token
    | some text =>
      if contains ['-', '-', '>'] text then .error .closingInComment else .ok (commentOf text)
  | _ => .ok token

end Token

/-! ## Markup -/

/-- The markup without editor tokens. -/
def strip (markup : Text) : Except RewriteError Text := do
  let tokens ← (Markup.tokens markup).mapM Token.strip
  return tokens.flatMap Token.source

end Mailout
