import Mailout.Json.Reader

/-!
# Numbers in JSON

An integer of at most 64 bits is kept as it is; every other number is a floating-point number. Its
digits make a significand of at most 64 bits and a power of ten; digits that do not fit in front of
the point count towards the power, those after it are dropped. The result is rounded where the
significand is converted and where it is scaled.

A number that no one asks for is only checked for its form.
-/

namespace Mailout.Json

/-- A number. -/
inductive Number where
  | natural (n : Nat)
  | negative (n : Int)
  | real (x : Float)

/-- The number as a datum. -/
def Number.toDatum : Number → Datum
  | .natural n => .natural n
  | .negative n => .negative n
  | .real x => .real x

namespace Reader

/-- The next character, be it a blank, which is left. -/
def peekAny : Reader (Option Char) :=
  ⟨fun s => .ok (s.head?, s), by
    intro s a r h
    simp only [Except.ok.injEq, Prod.mk.injEq] at h
    exact h.2 ▸ Nat.le_refl _⟩

/-- All digits that follow. -/
def digits : Reader (List Nat) where
  run s := .ok ((s.takeWhile Char.isDigit).map fun c => c.toNat - '0'.toNat,
    s.dropWhile Char.isDigit)
  keeps := by
    intro s a r h
    simp only [Except.ok.injEq, Prod.mk.injEq] at h
    rw [← h.2]
    exact (List.dropWhile_suffix _).length_le

/-- All digits that follow, which are left. -/
def peekDigits : Reader (List Nat) where
  run s := .ok ((s.takeWhile Char.isDigit).map fun c => c.toNat - '0'.toNat, s)
  keeps := by
    intro s a r h
    simp only [Except.ok.injEq, Prod.mk.injEq] at h
    exact h.2 ▸ Nat.le_refl _

/-- Whether a digit follows, which is left. -/
def atDigit : Reader Bool := return (← peekAny).any Char.isDigit

/-! ## Significand and power -/

/-- Appends digits to a significand while it has at most 64 bits; the number of digits that were
appended, and of those that were not. -/
def appendDigits (significand : Nat) : List Nat → Nat × Nat × Nat
  | [] => (significand, 0, 0)
  | d :: ds =>
    if significand * 10 + d < Decimal.twoTo 64 then
      let (n, appended, left) := appendDigits (significand * 10 + d) ds
      (n, appended + 1, left)
    else (significand, 0, ds.length + 1)

/-- The value of an exponent, if it has at most 31 bits; else the number of digits up to where it
has more. -/
def exponentValue (n count : Nat) : List Nat → Except Nat Nat
  | [] => .ok n
  | d :: ds =>
    if n * 10 + d < Decimal.twoTo 31 then exponentValue (n * 10 + d) (count + 1) ds else .error (count + 1)

/-- A number times a power of ten, or no result if it is out of range. -/
def scale (x : Float) (power : Int) : Option Float :=
  if power.natAbs ≤ 308 then
    let factor := Decimal.roundDecimal 1 power.natAbs
    let y := if 0 ≤ power then x * factor else x / factor
    if y.isInf then none else some y
  else if x == 0 then some x
  else if 0 ≤ power then none
  else scale (x / Decimal.roundDecimal 1 308) (power + 308)
termination_by (-power).toNat
decreasing_by omega

/-- The floating-point number of a significand and a power of ten. -/
def real (negative : Bool) (significand : Nat) (power : Int) : Reader Float :=
  match scale significand.toUInt64.toFloat power with
  | none => failAfter .numberOutOfRange 0
  | some x => pure (if negative then -x else x)

/-- The exponent after its `e`. -/
def exponent (negative : Bool) (significand : Nat) (power : Int) : Reader Float := do
  let sign ← peekAny
  if sign == some '+' || sign == some '-' then advance
  let down := sign == some '-'
  match ← peekAny with
  | none => failAfter .endInValue 0
  | some c =>
    if !c.isDigit then failNext .badNumber
    else
      let value := exponentValue 0 0 (← peekDigits)
      match value with
      | .ok e =>
        let _ ← digits
        real negative significand (if down then power - e else power + e)
      | .error count =>
        if significand != 0 && !down then failAfter .numberOutOfRange count
        let _ ← digits
        return (if negative then -0.0 else 0.0)

/-- What may follow the digits of a number: an exponent. -/
def maybeExponent (negative : Bool) (significand : Nat) (power : Int) : Reader Float := do
  match ← peekAny with
  | some 'e' | some 'E' => advance; exponent negative significand power
  | _ => real negative significand power

/-- The digits after a point. -/
def decimals (negative : Bool) (significand : Nat) (power : Int) : Reader Float := do
  match ← peekAny with
  | none => failAfter .endInValue 0
  | some c =>
    if !c.isDigit then failNext .badNumber
    else
      let (significand, appended, _) := appendDigits significand (← digits)
      maybeExponent negative significand (power - appended)

/-- What follows the integer part of a number. -/
def afterInteger (negative : Bool) (significand dropped : Nat) : Reader Number := do
  match ← peekAny with
  | some '.' => advance; return .real (← decimals negative significand dropped)
  | some 'e' | some 'E' => advance; return .real (← exponent negative significand dropped)
  | _ =>
    if dropped != 0 then return .real (← real negative significand dropped)
    else if !negative then return .natural significand
    else if significand = 0 || Decimal.twoTo 63 < significand then
      return .real (-significand.toUInt64.toFloat)
    else return .negative (-significand)

/-- The number whose first digit is taken already. -/
def numberFrom (negative : Bool) (first : Char) : Reader Number := do
  if first == '0' then
    if ← atDigit then failNext .badNumber else afterInteger negative 0 0
  else
    let (significand, _, dropped) := appendDigits (first.toNat - '0'.toNat) (← digits)
    afterInteger negative significand dropped

/-- The number after its minus sign. -/
def negativeNumber : Reader Number := do
  match ← peekAny with
  | none => failAfter .endInValue 0
  | some c => if c.isDigit then advance; numberFrom true c else failNext .badNumber

/-! ## Numbers that are not kept -/

/-- The form of an exponent after its `e`. -/
def skipExponent : Reader Unit := do
  let sign ← peekAny
  if sign == some '+' || sign == some '-' then advance
  if ← atDigit then let _ ← digits else failNext .badNumber

/-- The form of a number whose first digit is taken already. -/
def skipNumberFrom (first : Char) : Reader Unit := do
  if first != '0' then let _ ← digits
  if ← atDigit then failNext .badNumber
  match ← peekAny with
  | some '.' =>
    advance
    if ← atDigit then
      let _ ← digits
      match ← peekAny with
      | some 'e' | some 'E' => advance; skipExponent
      | _ => pure ()
    else failNext .badNumber
  | some 'e' | some 'E' => advance; skipExponent
  | _ => pure ()

/-- The form of a number after its minus sign. -/
def skipNegativeNumber : Reader Unit := do
  match ← peekAny with
  | none => failAfter .badNumber 0
  | some c => if c.isDigit then advance; skipNumberFrom c else failNext .badNumber

end Reader

end Mailout.Json
