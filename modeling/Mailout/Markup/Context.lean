import Mailout.Markup.Token

/-!
# The context of a token

How the next token is read depends on the tags before it: some elements hold text only, and drawings
and formulas are foreign content with rules of their own. `Context.after` moves from one token to
the next.

## Text-only elements

After their start tag only their own end tag is markup. Inside a script `<!--` opens a commented
part, in which `<script` opens a nested one; the script's end tag counts in all but the nested part.

## Foreign content

`svg` and `math` open it, their end tags close it, and so does a start tag that belongs to a page
only. Some elements inside it hold page content again. In foreign content no element is text-only.
-/

namespace Mailout.Markup

open Text

/-! ## Names -/

/-- Whether a name is one of the names in small letters, in any case of letters. -/
def isOneOf (names : List String) (name : Text) : Bool :=
  names.any fun n => sameLetters n.toList name

/-! ## Scripts -/

/-- The part of a script a character stands in. -/
inductive ScriptPart where
  | plain
  | commented
  | nested
  deriving DecidableEq, Repr

/-- The part of a script, and the number of dashes right before, of which at most two count. -/
structure ScriptState where
  part : ScriptPart := .plain
  dashes : Nat := 0
  deriving DecidableEq, Repr

/-- Whether the text begins with the name and then a character that ends a tag's name. -/
def startsTagName (name s : Text) : Bool :=
  match afterLetters? name s with
  | some (c :: _) => isMarkupSpace c || c == '/' || c == '>'
  | _ => false

/-- The state after a character of the script, in front of the text `rest`. -/
def ScriptState.after (st : ScriptState) (c : Char) (rest : Text) : ScriptState :=
  match st.part, c with
  | .plain, '<' => if ['!', '-', '-'].isPrefixOf rest then ⟨.commented, 0⟩ else st
  | .plain, _ => st
  | part, '-' => ⟨part, min 2 (st.dashes + 1)⟩
  | part, '>' => if st.dashes == 2 then ⟨.plain, 0⟩ else ⟨part, 0⟩
  | .commented, '<' => if startsTagName "script".toList rest then ⟨.nested, 0⟩ else ⟨.commented, 0⟩
  | .nested, '<' => if startsTagName "/script".toList rest then ⟨.commented, 0⟩ else ⟨.nested, 0⟩
  | part, _ => ⟨part, 0⟩

/-! ## Modes -/

/-- What counts as markup. -/
inductive Mode where
  | data
  /-- Only the end tag of this name does. -/
  | textOnly (name : Text)
  | script (state : ScriptState)
  /-- Nothing does any more. -/
  | plain
  deriving DecidableEq, Repr

/-- The mode after the start tag of a page's element. -/
def Mode.ofName (name : Text) : Mode :=
  if isOneOf ["textarea", "title", "style", "iframe", "xmp", "noembed", "noframes", "noscript"] name
  then .textOnly name
  else if isOneOf ["script"] name then .script {}
  else if isOneOf ["plaintext"] name then .plain
  else .data

/-! ## Kinds of content -/

/-- The kind of content a tag stands in. -/
inductive ContentKind where
  | page
  | drawing
  | formula
  deriving DecidableEq, Repr

/-- Start tags that belong to a page only and so close foreign content. -/
def pageOnlyNames : List String :=
  ["b", "big", "blockquote", "body", "br", "center", "code", "dd", "div", "dl", "dt", "em", "embed",
    "h1", "h2", "h3", "h4", "h5", "h6", "head", "hr", "i", "img", "li", "listing", "menu", "meta",
    "nobr", "ol", "p", "pre", "ruby", "s", "small", "span", "strong", "strike", "sub", "sup",
    "table", "tt", "u", "ul", "var"]

/-- Elements of a drawing that hold page content. -/
def drawingPageNames : List String := ["desc", "title", "foreignobject"]

/-- Elements of a formula that hold page content. -/
def formulaPageNames : List String := ["mi", "mo", "mn", "ms", "mtext"]

/-- Whether the tag's `encoding` says that an annotation is written as a page. -/
def hasPageEncoding (t : StartTag) : Bool :=
  t.attributes.any fun a =>
    isOneOf ["encoding"] a.name && isOneOf ["text/html", "application/xhtml+xml"] a.value

/-- What a reader knows when it comes to a token. -/
structure Context where
  mode : Mode := .data
  /-- The kinds of content that are open, the innermost first; a page is around them all. -/
  kinds : List ContentKind := []
  deriving DecidableEq, Repr

namespace Context

/-- The kind of content of the next token. -/
def kind (ctx : Context) : ContentKind := ctx.kinds.headD .page

/-- Whether the next token stands in foreign content. -/
def isForeign (ctx : Context) : Bool := ctx.kind != .page

/-- The kinds that are open after a start tag in foreign content. -/
def kindsAfterForeignStart (ctx : Context) (t : StartTag) : List ContentKind :=
  if isOneOf pageOnlyNames t.name then ctx.kinds.tail
  else if isOneOf ["font"] t.name then
    if t.attributes.any fun a => isOneOf ["color", "size", "face"] a.name then ctx.kinds.tail
    else ctx.kinds
  else
    let holdsPage :=
      match ctx.kind with
      | .drawing => isOneOf drawingPageNames t.name
      | .formula =>
        isOneOf formulaPageNames t.name
          || (isOneOf ["annotation-xml"] t.name && hasPageEncoding t)
      | .page => false
    if holdsPage && !t.body.selfClosing then .page :: ctx.kinds else ctx.kinds

/-- The kinds that are open after an end tag. -/
def kindsAfterEnd (ctx : Context) (name : Text) : List ContentKind :=
  match ctx.kinds with
  | .page :: .drawing :: _ => if isOneOf drawingPageNames name then ctx.kinds.tail else ctx.kinds
  | .page :: .formula :: _ =>
    if isOneOf ("annotation-xml" :: formulaPageNames) name then ctx.kinds.tail else ctx.kinds
  | .drawing :: _ => if isOneOf ["svg", "p", "br"] name then ctx.kinds.tail else ctx.kinds
  | .formula :: _ => if isOneOf ["math", "p", "br"] name then ctx.kinds.tail else ctx.kinds
  | _ => ctx.kinds

/-- The context after a token in front of the text `rest`. -/
def after (ctx : Context) (token : Token) (rest : Text) : Context :=
  match token with
  | .char c =>
    match ctx.mode with
    | .script st => { ctx with mode := .script (st.after c rest) }
    | _ => ctx
  | .startTag _ t =>
    if isOneOf ["svg"] t.name then ⟨.data, .drawing :: ctx.kinds⟩
    else if isOneOf ["math"] t.name then ⟨.data, .formula :: ctx.kinds⟩
    else if ctx.isForeign then ⟨.data, ctx.kindsAfterForeignStart t⟩
    else if t.body.dangling then ⟨.data, ctx.kinds⟩
    else ⟨.ofName t.name, ctx.kinds⟩
  | .endTag _ name => ⟨.data, ctx.kindsAfterEnd name⟩
  | _ => ctx

end Context

end Mailout.Markup
