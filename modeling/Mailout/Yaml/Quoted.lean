import Mailout.Yaml.Gap

/-!
# Quoted scalars

Between single quotes only the quote itself is special: two of them stand for one. Between double
quotes a backslash begins an escape, and a backslash at the end of a line joins it to the next.
-/

namespace Mailout.Yaml

/-- The characters that a one-letter escape stands for. -/
def escapes : List (Char × Char) :=
  [('0', '\x00'), ('a', '\x07'), ('b', '\x08'), ('t', '\t'), ('\t', '\t'), ('n', '\n'),
    ('v', '\x0B'), ('f', '\x0C'), ('r', '\r'), ('e', '\x1B'), (' ', ' '), ('"', '"'), ('/', '/'),
    ('\\', '\\'), ('N', '\u0085'), ('_', '\u00A0'), ('L', '\u2028'), ('P', '\u2029')]

/-- The number of digits after the letter of a numeric escape. -/
def escapeWidth? : Char → Option Nat
  | 'x' => some 2
  | 'u' => some 4
  | 'U' => some 8
  | _ => none

/-- The value of a hexadecimal digit. -/
def hexValue? (c : Char) : Option Nat :=
  if '0' ≤ c && c ≤ '9' then some (c.toNat - '0'.toNat)
  else if 'a' ≤ c && c ≤ 'f' then some (c.toNat - 'a'.toNat + 10)
  else if 'A' ≤ c && c ≤ 'F' then some (c.toNat - 'A'.toNat + 10)
  else none

/-- The number that so many hexadecimal digits at the start of the text stand for. -/
def hexNumber? (width : Nat) (s : Text) : Option Nat :=
  if s.length < width then none
  else (s.take width).foldl (fun n? c => return (← n?) * 16 + (← hexValue? c)) (some 0)

/-- The character of the escape whose backslash is next, and the cursor after it. -/
def readEscape (start : Mark) (c : Cursor) : Except SyntaxError (Char × Cursor) :=
  let fail (c : Cursor) (problem : String) : Except SyntaxError (Char × Cursor) :=
    c.fail "while parsing a quoted scalar" start problem
  match c.rest with
  | _ :: letter :: s =>
    match escapes.lookup letter, escapeWidth? letter with
    | some d, _ => .ok (d, c.skip 2)
    | none, some width =>
      match hexNumber? width s with
      | none => fail (c.skip 2) "did not find expected hexdecimal number"
      | some n =>
        if n.isValidChar then .ok (Char.ofNat n, c.skip (2 + width))
        else fail (c.skip 2) "found invalid Unicode character escape code"
    | none, none => fail c "found unknown escape character"
  | _ => fail c "found unknown escape character"

/-- The characters up to a gap or the closing quote; and whether an escaped line break ended them,
which is taken too. -/
def readQuotedWord (single : Bool) (start : Mark) (word : Text) (c : Cursor) :
    Except SyntaxError (Text × Bool × Cursor) :=
  if atGap c.rest then .ok (word, false, c)
  else
    let step : Except SyntaxError (Option (Text × Bool × Cursor)) :=
      match c.rest with
      | '\'' :: '\'' :: _ =>
        if single then .ok (some (['\''], false, c.skip 2)) else .ok (some (['\''], false, c.skip 1))
      | '\'' :: _ => .ok (if single then none else some (['\''], false, c.skip 1))
      | '"' :: _ => .ok (if single then some (['"'], false, c.skip 1) else none)
      | '\\' :: s =>
        if single then .ok (some (['\\'], false, c.skip 1))
        else if s.head?.any isBreak then .ok (some ([], true, (c.skip 1).skipBreak))
        else do
          let (d, c) ← readEscape start c
          return some ([d], false, c)
      | d :: _ => .ok (some ([d], false, c.skip 1))
      | [] => .ok none
    match step with
    | .error e => .error e
    | .ok none => .ok (word, false, c)
    | .ok (some (text, joined, c')) =>
      if joined then .ok (word ++ text, true, c')
      else if c'.rest.length < c.rest.length then readQuotedWord single start (word ++ text) c'
      else .ok (word, false, c)
termination_by c.rest.length

/-- The text up to the closing quote, which is taken. -/
def readQuotedFrom (single : Bool) (start : Mark) (text : Text) (c : Cursor) :
    Except SyntaxError (Text × Cursor) :=
  let fail (problem : String) : Except SyntaxError (Text × Cursor) :=
    c.fail "while scanning a quoted scalar" start problem
  if c.mark.column == 0 && startsDocumentMark c.rest then fail "found unexpected document indicator"
  else
    match readQuotedWord single start [] c with
    | .error e => .error e
    | .ok (word, joined, c') =>
      if c'.at? (if single then '\'' else '"') then .ok (text ++ word, c'.skip 1)
      else
        let (gap, c') := Gap.read 0 { isBroken := joined } c'
        if c'.rest.length < c.rest.length then
          readQuotedFrom single start (text ++ word ++ gap.folded) c'
        else fail "found unexpected end of stream"
termination_by c.rest.length

/-- The quoted scalar whose opening quote is next. -/
def readQuoted (single : Bool) (c : Cursor) : Except SyntaxError (Text × Cursor) :=
  readQuotedFrom single c.mark [] (c.skip 1)

end Mailout.Yaml
