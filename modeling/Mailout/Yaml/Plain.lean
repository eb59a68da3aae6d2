import Mailout.Yaml.Gap

/-!
# Plain scalars

A plain scalar has no quotes. It ends at a colon before a gap, at a number sign after one, where a
line is indented too little and, in a flow collection, at a bracket or a comma.
-/

namespace Mailout.Yaml

/-- A character that ends a plain scalar in a flow collection. -/
def isFlowIndicator (c : Char) : Bool :=
  c == ',' || c == '[' || c == ']' || c == '{' || c == '}'

/-- The length of the word at the start of the text, and whether a colon that may not stand there
ends it. -/
def plainWordLength (inFlow : Bool) : Text → Nat × Bool
  | [] => (0, false)
  | c :: s =>
    if isBlank c || isBreak c then (0, false)
    else if inFlow && c == ':' && s.head?.any (fun d => isFlowIndicator d || d == '?') then (0, true)
    else if c == ':' && atGap s then (0, false)
    else if inFlow && isFlowIndicator c then (0, false)
    else
      let (n, bad) := plainWordLength inFlow s
      (n + 1, bad)

/-- The words that follow a text and a gap; whether the scalar ends at the start of a line. -/
def readPlainFrom (inFlow : Bool) (indent : Int) (start : Mark) (text : Text) (gap : Gap)
    (c : Cursor) : Except SyntaxError (Text × Bool × Cursor) :=
  if (c.mark.column == 0 && startsDocumentMark c.rest) || c.at? '#' then
    .ok (text, gap.isBroken, c)
  else
    let (length, bad) := plainWordLength inFlow c.rest
    let after := c.skip length
    if bad then after.fail "while scanning a plain scalar" start "found unexpected ':'"
    else if length = 0 then .ok (text, gap.isBroken, c)
    else
      let text := text ++ gap.folded ++ c.rest.take length
      let (gap, after) := Gap.read indent {} after
      if after.at? '\t' then
        after.fail "while scanning a plain scalar" start
          "found a tab character that violates indentation"
      else if !inFlow && after.mark.column < indent then .ok (text, gap.isBroken, after)
      else if after.rest.length < c.rest.length then
        readPlainFrom inFlow indent start text gap after
      else .ok (text, gap.isBroken, after)
termination_by c.rest.length

/-- The plain scalar that is next, in a block that is indented by `indent`. -/
def readPlain (inFlow : Bool) (indent : Int) (c : Cursor) :
    Except SyntaxError (Text × Bool × Cursor) :=
  readPlainFrom inFlow (indent + 1) c.mark [] {} c

end Mailout.Yaml
