import Mailout.Yaml.Cursor

/-!
# Gaps in a scalar

Where a quoted or plain scalar goes over a line end, its lines are folded: one line break counts as
a space, more than one as all but the first of them. A gap is what stands between two words of such
a scalar.
-/

namespace Mailout.Yaml

/-- What stands between two words. -/
structure Gap where
  /-- Blanks of the first line, if the gap does not go over a line end. -/
  blanks : Text := []
  /-- Whether it goes over a line end. -/
  isBroken : Bool := false
  /-- The first line break, unless it is escaped. -/
  first : Text := []
  /-- The line breaks after the first. -/
  more : Text := []

namespace Gap

/-- What the gap counts as. -/
def folded (g : Gap) : Text :=
  if g.isBroken then
    if g.first.head? == some '\n' then (if g.more.isEmpty then [' '] else g.more)
    else g.first ++ g.more
  else g.blanks

/-- Takes blanks and line breaks. Stops at a tab in a column below `indent` of a further line. -/
def read (indent : Int) (g : Gap) (c : Cursor) : Gap × Cursor :=
  match c.head? with
  | none => (g, c)
  | some d =>
    let step : Option (Gap × Cursor) :=
      if isBlank d then
        if g.isBroken then
          if d == '\t' && c.mark.column < indent then none else some (g, c.skip 1)
        else some ({ g with blanks := g.blanks ++ [d] }, c.skip 1)
      else if isBreak d then
        let (text, after) := c.takeBreak
        if g.isBroken then some ({ g with more := g.more ++ text }, after)
        else some ({ g with blanks := [], isBroken := true, first := text }, after)
      else none
    match step with
    | none => (g, c)
    | some (g', c') => if c'.rest.length < c.rest.length then read indent g' c' else (g, c)
termination_by c.rest.length

end Gap

end Mailout.Yaml
