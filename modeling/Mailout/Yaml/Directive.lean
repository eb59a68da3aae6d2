import Mailout.Yaml.Property

/-!
# Directives

A directive begins with a percent sign at the start of a line. `%YAML` gives the version of the
format, `%TAG` a handle for tags.
-/

namespace Mailout.Yaml

/-- The largest number of digits in a version. -/
def maxVersionDigits : Nat := 9

/-- A number of a version. -/
def readVersionNumber (start : Mark) (c : Cursor) : Except SyntaxError (Nat × Cursor) :=
  let (digits, after) := c.takeWhile Char.isDigit
  let fail (c : Cursor) (problem : String) : Except SyntaxError (Nat × Cursor) :=
    c.fail "while scanning a %YAML directive" start problem
  if digits.isEmpty then fail c "did not find expected version number"
  else if maxVersionDigits < digits.length then
    fail (c.skip maxVersionDigits) "found extremely long version number"
  else .ok (digits.foldl (fun n d => n * 10 + (d.toNat - '0'.toNat)) 0, after)

/-- A version after `%YAML`. -/
def readVersion (start : Mark) (c : Cursor) : Except SyntaxError (Directive × Cursor) := do
  let (major, c) ← readVersionNumber start (c.skipWhile isBlank)
  if c.at? '.' then
    let (minor, c) ← readVersionNumber start (c.skip 1)
    return (.version major minor, c)
  else
    c.fail "while scanning a %YAML directive" start "did not find expected digit or '.' character"

/-- A handle and its meaning after `%TAG`. -/
def readHandleMeaning (start : Mark) (c : Cursor) : Except SyntaxError (Directive × Cursor) := do
  let fail (c : Cursor) (problem : String) : Except SyntaxError (Directive × Cursor) :=
    c.fail "while scanning a %TAG directive" start problem
  let c := c.skipWhile isBlank
  if !c.at? '!' then c.fail "while scanning a tag directive" start "did not find expected '!'"
  else
    let (handle, isHandle, c) := readHandle c
    if !isHandle && handle != ['!'] then
      c.fail "while parsing a tag directive" start "did not find expected '!'"
    else if !c.head?.any isBlank then fail c "did not find expected whitespace"
    else
      let (meaning, c) ← readTagPart .directive start (c.skipWhile isBlank)
      if atGap c.rest then return (.handle handle meaning, c)
      else fail c "did not find expected whitespace or line break"

/-- The directive whose percent sign is next, and the rest of its line. -/
def readDirective (c : Cursor) : Except SyntaxError (Directive × Cursor) := do
  let start := c.mark
  let fail (c : Cursor) (problem : String) : Except SyntaxError (Directive × Cursor) :=
    c.fail "while scanning a directive" start problem
  let (name, after) := (c.skip 1).takeWhile isNameChar
  if name.isEmpty then fail after "could not find expected directive name"
  else if !atGap after.rest then fail after "found unexpected non-alphabetical character"
  else
    let (directive, after) ←
      if name == "YAML".toList then readVersion start after
      else if name == "TAG".toList then readHandleMeaning start after
      else fail after "found unknown directive name"
    let after := (after.skipWhile isBlank).skipComment
    if atLineEnd after.rest then return (directive, after.skipBreak)
    else fail after "did not find expected comment or line break"

end Mailout.Yaml
