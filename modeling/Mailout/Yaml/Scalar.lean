import Mailout.Datum
import Mailout.Yaml.Quoted

/-!
# What a scalar says

A plain scalar may stand for nothing, a truth value or a number; any other is text. A tag may say
what a scalar has to be.

## Rules

* An integer is decimal, or hexadecimal, octal or binary after `0x`, `0o` or `0b`.
* Several digits with a zero in front are no number.
* An integer of more than 64 bits is known as one, but it is no datum (`ScalarValue.wide`).
-/

namespace Mailout.Yaml

/-- What a scalar stands for. -/
inductive ScalarValue where
  | datum (d : Datum)
  /-- An integer of more than 64 bits, with the name of its size. -/
  | wide (n : Int) (size : String)

/-- What the value is called when it does not fit. -/
def ScalarValue.found : ScalarValue → Found
  | .datum d => d.found
  | .wide n size => .wide n size

/-- How the wording names scalars. -/
def wording : Wording := ⟨"unit value", Decimal.writePositional⟩

/-! ## Words -/

private def isWord (words : List String) (s : Text) : Bool := words.any (·.toList == s)

/-- Whether the text is a word for nothing. -/
def isNull (s : Text) : Bool := isWord ["null", "Null", "NULL", "~"] s

/-- The truth value that the text is a word for. -/
def readBool? (s : Text) : Option Bool :=
  if isWord ["true", "True", "TRUE"] s then some true
  else if isWord ["false", "False", "FALSE"] s then some false
  else none

/-! ## Integers -/

/-- The value of digits to a base, at least one of them. -/
def readDigits? (base : Nat) (s : Text) : Option Nat :=
  if s.isEmpty then none
  else
    s.foldl (fun n? c => do
      let n ← n?
      let d ← hexValue? c
      if d < base then some (n * base + d) else none) (some 0)

/-- A plus or a minus sign. -/
def isSign (c : Char) : Bool := c == '+' || c == '-'

/-- Whether the text is several digits with a zero in front, which is no number. -/
def isPadded (s : Text) : Bool :=
  let digits := if s.head?.any isSign then s.tail else s
  1 < digits.length && digits.head? == some '0' && digits.all Char.isDigit

/-- The prefixes of integers that are not decimal, with their bases. -/
def basePrefixes : List (String × Nat) := [("0x", 16), ("0o", 8), ("0b", 2)]

/-- The integer after one of the prefixes. -/
def readBased? (s : Text) : Option Nat :=
  basePrefixes.findSome? fun (start, base) => Text.after? start.toList s >>= readDigits? base

/-- The integer that is not below zero and may have a plus sign. -/
def readNatural? (s : Text) : Option Nat :=
  let magnitude := if s.head? == some '+' then s.tail else s
  match readBased? magnitude with
  | some n => some n
  | none => if isPadded s then none else readDigits? 10 magnitude

/-- The size of the integer after a minus sign. -/
def readOpposite? (s : Text) : Option Nat :=
  match s with
  | '-' :: magnitude =>
    match readBased? magnitude with
    | some n => some n
    | none => if isPadded s then none else readDigits? 10 magnitude
  | _ => none

/-- The integer that a text is. -/
def readInteger? (s : Text) : Option ScalarValue :=
  match readNatural? s with
  | some n =>
    if n < Decimal.twoTo 64 then some (.datum (.natural n))
    else if n < Decimal.twoTo 128 then some (.wide n "u128")
    else none
  | none =>
    match readOpposite? s with
    | some n =>
      if n ≤ Decimal.twoTo 63 then some (.datum (.negative (-n)))
      else if n ≤ Decimal.twoTo 127 then some (.wide (-n) "i128")
      else none
    | none => none

/-! ## Numbers with a fraction or an exponent -/

/-- The number with this exponent after its digits. -/
def readExponent? : Text → Option Int
  | [] => some 0
  | c :: s =>
    if c == 'e' || c == 'E' then
      match s with
      | '-' :: s => (readDigits? 10 s).map fun n => -n
      | '+' :: s => (readDigits? 10 s).map Int.ofNat
      | s => (readDigits? 10 s).map Int.ofNat
    else none

/-- The finite number of a decimal without a sign. -/
def readDecimal? (s : Text) : Option Float := do
  let whole := s.takeWhile Char.isDigit
  let rest := s.dropWhile Char.isDigit
  let (fraction, rest) :=
    match rest with
    | '.' :: rest => (rest.takeWhile Char.isDigit, rest.dropWhile Char.isDigit)
    | rest => ([], rest)
  let significand ← readDigits? 10 (whole ++ fraction)
  let exponent ← readExponent? rest
  let x := Decimal.roundDecimal significand (exponent - fraction.length)
  if x.isFinite then some x else none

/-- The number that a text is, which may be infinite or none. -/
def readReal? (s : Text) : Option Float :=
  let unsigned := if s.head? == some '+' then s.tail else s
  if s.head? == some '+' && unsigned.head?.any isSign then none
  else if isWord [".inf", ".Inf", ".INF"] unsigned then some (1 / 0)
  else if isWord ["-.inf", "-.Inf", "-.INF"] s then some (-1 / 0)
  else if isWord [".nan", ".NaN", ".NAN"] s then some (0 / 0)
  else
    match unsigned with
    | '-' :: magnitude => (readDecimal? magnitude).map fun x => -x
    | magnitude => readDecimal? magnitude

/-! ## Scalars -/

/-- What a plain scalar stands for. -/
def plainValue (s : Text) : ScalarValue :=
  if s.isEmpty || isNull s then .datum .null
  else
    match readBool? s, readInteger? s with
    | some b, _ => .datum (.bool b)
    | none, some n => n
    | none, none =>
      match if isPadded s then none else readReal? s with
      | some x => .datum (.real x)
      | none => .datum (.text s)

/-- What a scalar with this tag stands for. -/
def scalarValue (tag? : Option Text) (s : Text) (isPlain : Bool) : Except Mismatch ScalarValue :=
  let ofKind (name : String) (value? : Option ScalarValue) : Except Mismatch ScalarValue :=
    match value? with
    | some value => .ok value
    | none => .error (.wrongText s name)
  let common (name : String) : Text := ("tag:yaml.org,2002:" ++ name).toList
  let text : ScalarValue := .datum (.text s)
  match tag? with
  | none => .ok (if isPlain then plainValue s else text)
  | some tag =>
    if tag == common "bool" then ofKind "a boolean" ((readBool? s).map (.datum ∘ .bool))
    else if tag == common "int" then ofKind "an integer" (readInteger? s)
    else if tag == common "float" then ofKind "a float" ((readReal? s).map (.datum ∘ .real))
    else if tag == common "null" then
      ofKind "null" (if isNull s then some (.datum .null) else none)
    else .ok (if isPlain && tag.head? == some '!' then plainValue s else text)

end Mailout.Yaml
