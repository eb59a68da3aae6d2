/-!
# The shortest decimal of a floating-point number

`Shortest.ofFloat` gives the fewest decimal digits that read back as the same number, and among
those the nearest. All arithmetic is exact: a finite number is `m · 2 ^ q`, and every real within
half a unit of its last place reads back as it (the ends only if `m` is even).

## Method

For one, two, … seventeen digits the two neighbours of the number on that decimal grid are tested.
If any decimal of that many digits reads back, one of the neighbours does.
-/

namespace Mailout.Decimal

/-- A power of two. -/
def twoTo (n : Nat) : Nat := Nat.pow 2 n

/-- A power of ten. -/
def tenTo (n : Nat) : Nat := Nat.pow 10 n

/-- The decimal `0.d₁d₂… · 10 ^ point`, without zeros at its end. -/
structure Shortest where
  digits : List Nat
  point : Int
  deriving DecidableEq, Repr

/-- A positive number and the numbers that read back as it, over one denominator. -/
structure Interval where
  low : Nat
  value : Nat
  high : Nat
  denominator : Nat
  closed : Bool

/-- The numbers that read back as `m · 2 ^ q`. Below a power of two they are half as far apart. -/
def Interval.ofBinary (m : Nat) (q : Int) : Interval :=
  let below := if m = twoTo 52 && -1074 < q then 1 else 2
  let scale := twoTo (q - 2).toNat
  ⟨(4 * m - below) * scale, 4 * m * scale, (4 * m + 2) * scale, twoTo (2 - q).toNat, m % 2 = 0⟩

/-- Whether the number `n · 10 ^ e` reads back. -/
def Interval.holds (i : Interval) (n : Nat) (e : Int) : Bool :=
  let x := n * tenTo e.toNat * i.denominator
  let d := tenTo (-e).toNat
  if i.closed then i.low * d ≤ x && x ≤ i.high * d else i.low * d < x && x < i.high * d

/-- The place of the point: the number is below `10 ^ point` and not below a tenth of that. -/
def Interval.point (i : Interval) : Int :=
  if i.denominator ≤ i.value then (Nat.toDigits 10 (i.value / i.denominator)).length
  else
    match (List.range 400).find? fun j => i.denominator ≤ i.value * tenTo (j + 1) with
    | some j => -j
    | none => 0

/-- The digits of a number, without zeros at its end. -/
def trimmedDigits (n : Nat) : List Nat :=
  let digits := (Nat.toDigits 10 n).map fun c => c.toNat - '0'.toNat
  (digits.reverse.dropWhile (· == 0)).reverse

/-- A decimal of at most `count` digits that reads back, the nearer one of two. -/
def Interval.neighbour? (i : Interval) (point : Int) (count : Nat) : Option Shortest :=
  let e := point - count
  let scaled := i.value * tenTo (-e).toNat
  let unit := i.denominator * tenTo e.toNat
  let lower := scaled / unit
  let finish (n : Nat) : Option Shortest :=
    some ⟨trimmedDigits n, if n = tenTo count then point + 1 else point⟩
  match i.holds lower e, i.holds (lower + 1) e with
  | true, true => if 2 * (scaled % unit) ≤ unit then finish lower else finish (lower + 1)
  | true, false => finish lower
  | false, true => finish (lower + 1)
  | false, false => none

/-- The shortest decimal of `m · 2 ^ q`, for `m` other than zero. -/
def Shortest.ofBinary (m : Nat) (q : Int) : Shortest :=
  let i := Interval.ofBinary m q
  let point := i.point
  ((List.range 17).findSome? fun n => i.neighbour? point (n + 1)).getD ⟨[], 0⟩

/-- The parts of a floating-point number. -/
inductive Parts where
  | notANumber
  | infinite (negative : Bool)
  | zero (negative : Bool)
  | finite (negative : Bool) (magnitude : Shortest)

/-- The parts of a floating-point number, from its bits. -/
def Parts.ofFloat (x : Float) : Parts :=
  let bits := x.toBits.toNat
  let negative := bits / twoTo 63 == 1
  let exponent : Nat := bits / twoTo 52 % twoTo 11
  let fraction : Nat := bits % twoTo 52
  if exponent = 2047 then (if fraction = 0 then .infinite negative else .notANumber)
  else if exponent = 0 then
    if fraction = 0 then .zero negative else .finite negative (.ofBinary fraction (-1074))
  else .finite negative (.ofBinary (fraction + twoTo 52) ((exponent : Int) - 1075))

/-! ## Layouts -/

/-- Digits as text. -/
def digitText (digits : List Nat) : List Char := digits.map Nat.digitChar

/-- A decimal without an exponent, with a point and at least one digit on both sides of it. -/
def Shortest.positional (d : Shortest) : List Char :=
  let digits := digitText d.digits
  let point := d.point.toNat
  if d.point ≤ 0 then ['0', '.'] ++ List.replicate (-d.point).toNat '0' ++ digits
  else if digits.length ≤ point then
    digits ++ List.replicate (point - digits.length) '0' ++ ['.', '0']
  else digits.take point ++ '.' :: digits.drop point

/-- A decimal with one digit in front of its point and an exponent. -/
def Shortest.scientific (d : Shortest) : List Char :=
  let exponent := (toString (d.point - 1)).toList
  match digitText d.digits with
  | [] => []
  | [c] => c :: 'e' :: exponent
  | c :: cs => c :: '.' :: cs ++ 'e' :: exponent

private def sign (negative : Bool) : List Char := if negative then ['-'] else []

/-- A number without an exponent. What is no finite number is spelled and has a point too. -/
def writePositional (x : Float) : List Char :=
  match Parts.ofFloat x with
  | .notANumber => "NaN.0".toList
  | .infinite negative => sign negative ++ "inf.0".toList
  | .zero negative => sign negative ++ ['0', '.', '0']
  | .finite negative d => sign negative ++ d.positional

/-- A number with an exponent only if its point is more than sixteen digits to the right or more
than four zeros to the left. -/
def writeCompact (x : Float) : List Char :=
  match Parts.ofFloat x with
  | .finite negative d =>
    sign negative ++ (if -5 < d.point && d.point ≤ 16 then d.positional else d.scientific)
  | _ => writePositional x

/-! ## Reading -/

/-- The number `m · 10 ^ e`, rounded once. Beyond the range it is infinite or zero. -/
def roundDecimal (m : Nat) (e : Int) : Float :=
  let digits : Int := (Nat.toDigits 10 m).length
  if m = 0 || e + digits < -400 then 0
  else if 400 < e + digits then 1 / 0
  else Float.ofScientific m (e < 0) e.natAbs

end Mailout.Decimal
