import Mailout.Yaml.Block
import Mailout.Yaml.Directive
import Mailout.Yaml.Plain

/-!
# The tokens of a text

Most tokens are known by their first characters. Not so the key of a table: whether a scalar is one
is known only at the colon after it. A place where a key may have begun is therefore kept as a
`PendingKey`, and the colon puts a token in front of it.

## Rules

* A key must be on one line with its colon, and not more than 1024 characters before it.
* A key that begins where the lines of a block mapping do must have a colon.
* Where a scalar or a collection has come already in a line, no block collection may begin.

## Termination

Reading ends with the text, or at a step that takes nothing.
-/

namespace Mailout.Yaml

/-- The tokens of a text. -/
structure Tokens where
  list : List Token
  /-- Why there are no more, unless the last of them is the end of the text. -/
  stop : SyntaxError := { problem := "unexpected end", mark := {} }

/-- A place where the key of a table may have begun. -/
structure PendingKey where
  /-- Whether a colon must come. -/
  required : Bool
  /-- The number of tokens before it. -/
  place : Nat
  mark : Mark
  deriving DecidableEq, Repr

/-- The longest key that has no indicator of its own. -/
def maxKeyLength : Nat := 1024

/-- Whether no colon may come any more for a key from one mark, at another. -/
def PendingKey.isStale (k : PendingKey) (here : Mark) : Bool :=
  k.mark.line < here.line || k.mark.index + maxKeyLength < here.index

/-- A place between two tokens. -/
structure Layout where
  cursor : Cursor
  /-- The tokens so far. -/
  tokens : Array Token := #[]
  /-- The column of the innermost block collection, -1 outside of all. -/
  indent : Int := -1
  /-- The columns of the block collections around it. -/
  outer : List Int := []
  /-- The pending key of the block level and of every flow collection, the innermost first. -/
  keys : List (Option PendingKey) := [none]
  /-- Whether a key may begin here. -/
  keyAllowed : Bool := true
  /-- Whether the text is at its end. -/
  isDone : Bool := false

namespace Layout

/-! ## Keys -/

/-- Whether the place is in a flow collection. -/
def inFlow (l : Layout) : Bool := 1 < l.keys.length

/-- Here, in the line and column. -/
def mark (l : Layout) : Mark := l.cursor.mark

private def missingColon (here : Mark) (k : PendingKey) : SyntaxError :=
  { problem := "could not find expected ':'", mark := here,
    context? := some ("while scanning a simple key", k.mark) }

/-- Gives up the keys for which no colon may come any more. -/
def dropStaleKeys (l : Layout) : Except SyntaxError Layout := do
  let keys ← l.keys.mapM fun key? =>
    match key? with
    | some k =>
      if !k.isStale l.mark then .ok (some k)
      else if k.required then .error (missingColon l.mark k)
      else .ok none
    | none => .ok none
  return { l with keys }

/-- Gives up the pending key of this level. -/
def dropKey (l : Layout) : Except SyntaxError Layout :=
  match l.keys with
  | some k :: keys =>
    if k.required then .error (missingColon l.mark k) else .ok { l with keys := none :: keys }
  | _ => .ok l

/-- Keeps this place as one where a key may begin. -/
def saveKey (l : Layout) : Except SyntaxError Layout := do
  if l.keyAllowed then
    let l ← l.dropKey
    let key := ⟨!l.inFlow && l.indent == l.mark.column, l.tokens.size, l.mark⟩
    return { l with keys := some key :: l.keys.tail }
  else return l

/-! ## Indentation -/

/-- The layout with another token at its end. -/
def push (l : Layout) (kind : TokenKind) (mark : Mark) : Layout :=
  { l with tokens := l.tokens.push ⟨kind, mark⟩ }

/-- Begins a block collection at a mark, with its token at a place among the tokens, unless one is
in that column already. -/
def openBlock (l : Layout) (kind : TokenKind) (place : Nat) (mark : Mark) : Layout :=
  if !l.inFlow && l.indent < mark.column then
    { l with
      indent := mark.column
      outer := l.indent :: l.outer
      tokens := l.tokens.insertIdxIfInBounds place ⟨kind, mark⟩ }
  else l

private def closeBlocksFrom (mark : Mark) (column : Int) :
    Int → List Int → Array Token → Int × List Int × Array Token
  | indent, outer, tokens =>
    if column < indent then
      match outer with
      | [] => (-1, [], tokens.push ⟨.blockEnd, mark⟩)
      | i :: outer => closeBlocksFrom mark column i outer (tokens.push ⟨.blockEnd, mark⟩)
    else (indent, outer, tokens)

/-- Ends the block collections that are indented further than a column. -/
def closeBlocks (l : Layout) (column : Int) : Layout :=
  if l.inFlow then l
  else
    let (indent, outer, tokens) := closeBlocksFrom l.mark column l.indent l.outer l.tokens
    { l with indent, outer, tokens }

/-! ## Steps -/

/-- Goes over blanks, comments and line ends; whether a key may begin after them. Tabs may stand
where no key may begin. -/
def skipLines (inFlow keyAllowed : Bool) (c : Cursor) : Bool × Cursor :=
  let tabs := inFlow || !keyAllowed
  let after := (c.skipWhile fun d => d == ' ' || (tabs && d == '\t')).skipComment
  let next := after.skipBreak
  if !after.head?.any isBreak then (keyAllowed, after)
  else if next.rest.length < c.rest.length then skipLines inFlow (keyAllowed || !inFlow) next
  else (keyAllowed, after)
termination_by c.rest.length

/-- Goes to the next token, over a byte order mark at the start of the text. -/
def skipGap (l : Layout) : Layout :=
  let c := if l.mark.index == 0 && l.cursor.at? '\uFEFF' then l.cursor.skip 1 else l.cursor
  let (keyAllowed, cursor) := skipLines l.inFlow l.keyAllowed c
  { l with cursor, keyAllowed }

/-- Takes an indicator of some characters. -/
def take (l : Layout) (kind : TokenKind) (length : Nat) : Layout :=
  { l.push kind l.mark with cursor := l.cursor.skip length }

/-- Fails here, with nothing being read. -/
def refuse (l : Layout) (problem : String) : Except SyntaxError Layout :=
  .error { problem, mark := l.mark }

/-- The end of the text, which is the end of its last line. -/
def readEnd (l : Layout) : Except SyntaxError Layout := do
  let c := l.cursor
  let mark := if c.mark.column = 0 then c.mark else { c.mark with line := c.mark.line + 1, column := 0 }
  let l ← ({ l with cursor := { c with mark } }.closeBlocks (-1)).dropKey
  return { l.push .streamEnd l.mark with keyAllowed := false, isDone := true }

/-- Ends all block collections, in front of something that belongs to none. -/
def leaveBlocks (l : Layout) : Except SyntaxError Layout := do
  let l ← (l.closeBlocks (-1)).dropKey
  return { l with keyAllowed := false }

/-- An indicator that begins a flow collection. -/
def openFlow (l : Layout) (kind : TokenKind) : Except SyntaxError Layout := do
  let l ← l.saveKey
  return { l.take kind 1 with keys := none :: l.keys, keyAllowed := true }

/-- An indicator that ends a flow collection. -/
def closeFlow (l : Layout) (kind : TokenKind) : Except SyntaxError Layout := do
  let l ← l.dropKey
  let keys := if l.inFlow then l.keys.tail else l.keys
  return { l.take kind 1 with keys, keyAllowed := false }

/-- An indicator that begins a part of a block collection, if it is not in a flow collection. -/
def openPart (l : Layout) (collection kind : TokenKind) (keyAllowed : Bool) (problem : String) :
    Except SyntaxError Layout := do
  if !l.inFlow && !l.keyAllowed then l.refuse problem
  else
    let l ← (l.openBlock collection l.tokens.size l.mark).dropKey
    return { l.take kind 1 with keyAllowed }

/-- A dash, which begins an item. -/
def readEntry (l : Layout) : Except SyntaxError Layout :=
  l.openPart .blockSequenceStart .blockEntry true
    "block sequence entries are not allowed in this context"

/-- A question mark, which begins a key. -/
def readKey (l : Layout) : Except SyntaxError Layout :=
  l.openPart .blockMappingStart .key (!l.inFlow) "mapping keys are not allowed in this context"

/-- A colon, which makes a key of what is pending, or else begins a value. -/
def readValue (l : Layout) : Except SyntaxError Layout :=
  match l.keys with
  | some k :: keys =>
    let l := { l with tokens := l.tokens.insertIdxIfInBounds k.place ⟨.key, k.mark⟩ }
    let l := l.openBlock .blockMappingStart k.place k.mark
    .ok { l.take .value 1 with keys := none :: keys, keyAllowed := false }
  | _ =>
    if !l.inFlow && !l.keyAllowed then
      l.refuse "mapping values are not allowed in this context"
    else
      let l := l.openBlock .blockMappingStart l.tokens.size l.mark
      .ok { l.take .value 1 with keyAllowed := !l.inFlow }

/-- Something that may be a key. -/
def readPart (l : Layout) (read : Cursor → Except SyntaxError (TokenKind × Bool × Cursor)) :
    Except SyntaxError Layout := do
  let l ← l.saveKey
  let (kind, keyAllowed, cursor) ← read l.cursor
  return { l.push kind l.mark with cursor, keyAllowed }

/-- An alias, an anchor, a tag or a scalar on one or more lines. -/
def readScalar (l : Layout) (first : Char) : Except SyntaxError Layout :=
  match first with
  | '*' => l.readPart fun c => return ((← readName "while scanning an alias" c).map .alias (false, ·))
  | '&' =>
    l.readPart fun c => return ((← readName "while scanning an anchor" c).map .anchor (false, ·))
  | '!' => l.readPart fun c => return ((← readTag l.inFlow c).map .tag (false, ·))
  | '\'' => l.readPart fun c => return ((← readQuoted true c).map (.scalar · false) (false, ·))
  | '"' => l.readPart fun c => return ((← readQuoted false c).map (.scalar · false) (false, ·))
  | _ => l.readPart fun c => return ((← readPlain l.inFlow l.indent c).map (.scalar · true) id)

/-- A scalar below its header. -/
def readBlockScalar (l : Layout) (folded : Bool) : Except SyntaxError Layout := do
  let l ← l.dropKey
  let (text, cursor) ← readBlock folded l.indent l.cursor
  return { l.push (.scalar text false) l.mark with cursor, keyAllowed := true }

/-- The characters that cannot begin a plain scalar on their own. -/
def indicators : List Char := "-?:,[]\x7b\x7d#&*!|>'\"%@\x60".toList

/-- Whether a plain scalar begins here. -/
def startsPlain (inFlow : Bool) : Text → Bool
  | [] => false
  | '-' :: s => !s.head?.any isBlank
  | d :: s =>
    if d == '?' || d == ':' then !inFlow && !atGap s
    else !isBlank d && !isBreak d && !indicators.contains d

/-- What is next, as its first characters tell. -/
def readNext (l : Layout) : Except SyntaxError Layout :=
  let s := l.cursor.rest
  match s with
  | [] => l.readEnd
  | d :: after =>
    if l.mark.column == 0 && d == '%' then do
      let l ← l.leaveBlocks
      let (directive, cursor) ← readDirective l.cursor
      return { l.push (.directive directive) l.mark with cursor }
    else if l.mark.column == 0 && startsDocumentMark s then do
      let l ← l.leaveBlocks
      return l.take (if d == '-' then .documentStart else .documentEnd) 3
    else
      match d with
      | '[' => l.openFlow .flowSequenceStart
      | '{' => l.openFlow .flowMappingStart
      | ']' => l.closeFlow .flowSequenceEnd
      | '}' => l.closeFlow .flowMappingEnd
      | ',' => do
        let l ← l.dropKey
        return { l.take .flowEntry 1 with keyAllowed := true }
      | _ =>
        if d == '-' && atGap after then l.readEntry
        else if d == '?' && (l.inFlow || atGap after) then l.readKey
        else if d == ':' && (l.inFlow || atGap after) then l.readValue
        else if "*&!'\"".toList.contains d then l.readScalar d
        else if d == '|' && !l.inFlow then l.readBlockScalar false
        else if d == '>' && !l.inFlow then l.readBlockScalar true
        else if startsPlain l.inFlow s then l.readScalar d
        else
          l.cursor.fail "while scanning for the next token" l.mark
            "found character that cannot start any token"

/-- Goes to the next token and takes it. -/
def step (l : Layout) : Except SyntaxError Layout := do
  let l ← l.skipGap.dropStaleKeys
  let l ← (l.closeBlocks l.mark.column).readNext
  l.dropStaleKeys

/-- The tokens in front of the first pending key, which is not yet known to be one. -/
def settled (l : Layout) : List Token :=
  l.tokens.toList.take ((l.keys.filterMap id).foldl (fun n k => min n k.place) l.tokens.size)

/-- The tokens up to the end of the text, or up to where it is no YAML any more. -/
def run (l : Layout) : Tokens :=
  match l.step with
  | .error stop => ⟨l.settled, stop⟩
  | .ok l' =>
    if l'.isDone then { list := l'.tokens.toList }
    else if l'.cursor.rest.length < l.cursor.rest.length then run l'
    else { list := l'.settled }
termination_by l.cursor.rest.length

end Layout

/-! ## Characters that may not occur -/

/-- A character that may occur in a text. -/
def isAllowed (c : Char) : Bool :=
  let n := c.toNat
  n == 0x9 || n == 0xA || n == 0xD || (0x20 ≤ n && n ≤ 0x7E) || n == 0x85 ||
    (0xA0 ≤ n && n ≤ 0xD7FF) || (0xE000 ≤ n && n ≤ 0xFFFD) || 0x10000 ≤ n

/-- The tokens of a text. -/
def Tokens.ofText (s : Text) : Tokens :=
  match s.dropWhile isAllowed with
  | [] => Layout.run { cursor := { rest := s } }
  | _ =>
    let stop : SyntaxError :=
      { problem := "control characters are not allowed", mark := {}
        offset := Text.utf8Size (s.takeWhile isAllowed) }
    ⟨[], stop⟩

end Mailout.Yaml
