import Mailout.Datum

/-!
# Readers of JSON

A reader takes a value from the start of a text and leaves the rest; it never leaves more than it
was given. Where it fails it says why, where in the text, and how far it had come.

## Places

A failure has its place from the start, or it gets one from the reader around it (`Reader.placed`).
A place is given by what is left there and a number of bytes to go on from it; line and column are
computed from the whole text in the end. The column is the number of bytes since the line began.

## Strictness

Loops over the items of an array or the members of an object end because every value takes at least
one character. `ValueReader` carries that fact.
-/

namespace Mailout.Json

open Text

/-! ## Failures -/

/-- Why a text cannot be read. -/
inductive Cause where
  | endInValue
  | endInArray
  | endInObject
  | endInText
  | expectedColon
  | expectedArrayComma
  | expectedObjectComma
  | expectedWord
  | expectedValue
  | badEscape
  | badNumber
  | numberOutOfRange
  | controlCharacter
  | keyNotText
  | loneSurrogate
  | unpairedSurrogate
  | trailingComma
  | trailingText
  | tooDeep
  | mismatch (m : Mismatch)

/-- JSON has a word for nothing, and exponents. -/
def wording : Wording := ⟨"null", Decimal.writeCompact⟩

/-- The wording of the cause. -/
def Cause.message : Cause → String
  | .endInValue => "EOF while parsing a value"
  | .endInArray => "EOF while parsing a list"
  | .endInObject => "EOF while parsing an object"
  | .endInText => "EOF while parsing a string"
  | .expectedColon => "expected `:`"
  | .expectedArrayComma => "expected `,` or `]`"
  | .expectedObjectComma => "expected `,` or `" ++ String.ofList ['}'] ++ "`"
  | .expectedWord => "expected ident"
  | .expectedValue => "expected value"
  | .badEscape => "invalid escape"
  | .badNumber => "invalid number"
  | .numberOutOfRange => "number out of range"
  | .controlCharacter => "control character (\\u0000-\\u001F) found while parsing a string"
  | .keyNotText => "key must be a string"
  | .loneSurrogate => "lone leading surrogate in hex escape"
  | .unpairedSurrogate => "unexpected end of hex escape"
  | .trailingComma => "trailing comma"
  | .trailingText => "trailing characters"
  | .tooDeep => "recursion limit exceeded"
  | .mismatch m => m.message wording

/-- A place in the text: what is left there, and how many bytes to go on. -/
structure Place where
  rest : Text
  bytes : Nat

/-- Why and where reading failed. -/
structure Failure where
  cause : Cause
  /-- What was left when it failed. -/
  rest : Text
  /-- The place to report, if it is settled. -/
  place? : Option Place

/-- A line, from one on, and the number of bytes before a place in it. -/
structure Position where
  line : Nat := 1
  column : Nat := 0
  deriving DecidableEq, Repr

/-- The position after a character. -/
def Position.after (p : Position) (c : Char) : Position :=
  if c == '\n' then ⟨p.line + 1, 0⟩ else ⟨p.line, p.column + c.utf8Size⟩

/-- The position after some bytes of the text. -/
def Position.advance (p : Position) : Nat → Text → Position
  | 0, _ => p
  | _, [] => p
  | n, c :: s =>
    if n < c.utf8Size then ⟨p.line, p.column + n⟩ else (p.after c).advance (n - c.utf8Size) s

/-- The position of a place in the whole text. -/
def Place.position (whole : Text) (p : Place) : Position :=
  ((consumed whole p.rest).foldl Position.after {}).advance p.bytes p.rest

/-- The wording of a failure in the whole text. -/
def Failure.message (whole : Text) (f : Failure) : String :=
  match f.place? with
  | none => f.cause.message
  | some place =>
    let p := place.position whole
    f.cause.message ++ " at line " ++ toString p.line ++ " column " ++ toString p.column

/-! ## Readers -/

/-- What a reader makes of a text: a value and the rest. -/
abbrev Outcome (α : Type) := Except Failure (α × Text)

/-- Fails some bytes after what is left. -/
def failAt (cause : Cause) (s : Text) (bytes : Nat) : Outcome α := .error ⟨cause, s, some ⟨s, bytes⟩⟩

/-- A reader, which never leaves more than it was given. -/
structure Reader (α : Type) where
  run : Text → Outcome α
  keeps : ∀ {s : Text} {a : α} {r : Text}, run s = .ok (a, r) → r.length ≤ s.length

namespace Reader

instance : Monad Reader where
  pure a := ⟨fun s => .ok (a, s), by simp⟩
  bind x f := {
    run := fun s =>
      match x.run s with
      | .error e => .error e
      | .ok (a, r) => (f a).run r
    keeps := by
      intro s b r h
      split at h
      · simp at h
      · next a r' hx => exact Nat.le_trans ((f a).keeps h) (x.keeps hx) }

/-- Fails some bytes further on. -/
def failAfter (cause : Cause) (bytes : Nat) : Reader α :=
  ⟨fun s => .error ⟨cause, s, some ⟨s, bytes⟩⟩, by simp⟩

/-- Fails at the next character, which counts as read. -/
def failNext (cause : Cause) : Reader α := failAfter cause 1

/-- Fails here, and leaves the place to the reader around it. -/
def mismatch (m : Mismatch) : Reader α := ⟨fun s => .error ⟨.mismatch m, s, none⟩, by simp⟩

/-- A result that may not fit. -/
def ofExcept : Except Mismatch α → Reader α
  | .ok a => pure a
  | .error m => mismatch m

/-- Settles the place of a failure that has none. -/
def placed (x : Reader α) : Reader α where
  run s :=
    match x.run s with
    | .ok result => .ok result
    | .error e => .error { e with place? := some (e.place?.getD ⟨e.rest, 0⟩) }
  keeps := by
    intro s a r h
    split at h
    · next hx => exact x.keeps (by rw [hx, h])
    · simp at h

/-- A blank between the parts of a value. -/
def isSpace (c : Char) : Bool := c == ' ' || c == '\n' || c == '\t' || c == '\r'

/-- The next character that is no blank, which is left. -/
def peek : Reader (Option Char) where
  run s := let r := s.dropWhile isSpace; .ok (r.head?, r)
  keeps := by
    intro s a r h
    simp only [Except.ok.injEq, Prod.mk.injEq] at h
    rw [← h.2]
    exact (List.dropWhile_suffix _).length_le

/-- Takes one character, whatever it is. -/
def advance : Reader Unit where
  run s := .ok ((), s.tail)
  keeps := by
    intro s a r h
    simp only [Except.ok.injEq, Prod.mk.injEq] at h
    rw [← h.2]
    simp

/-- Reads what is in brackets and then the closing bracket. Where the inside fails, the reader of
the bracket still goes as far as it can, and the failure is met there. -/
def closedBy (x : Reader α) (close : Reader Unit) : Reader α where
  run s :=
    match x.run s with
    | .ok (a, r) =>
      match close.run r with
      | .ok (_, r) => .ok (a, r)
      | .error e => .error e
    | .error e =>
      match close.run e.rest with
      | .ok (_, r) => .error { e with rest := r }
      | .error e' => .error { e with rest := e'.rest }
  keeps := by
    intro s a r h
    split at h
    · next a' r' hx =>
      split at h
      · next u r'' hc =>
        simp only [Except.ok.injEq, Prod.mk.injEq] at h
        rw [← h.2]
        exact Nat.le_trans (close.keeps hc) (x.keeps hx)
      · simp at h
    · split at h <;> simp at h

/-- The end of an array. -/
def endArray : Reader Unit := do
  match ← peek with
  | some ']' => advance
  | some ',' =>
    advance
    match ← peek with
    | some ']' => failNext .trailingComma
    | _ => failNext .trailingText
  | some _ => failNext .trailingText
  | none => failNext .endInArray

/-- The end of an object. -/
def endObject : Reader Unit := do
  match ← peek with
  | some '}' => advance
  | some ',' => failNext .trailingComma
  | some _ => failNext .trailingText
  | none => failNext .endInObject

/-- The colon after a key. -/
def colon : Reader Unit := do
  match ← peek with
  | some ':' => advance
  | some _ => failNext .expectedColon
  | none => failNext .endInObject

/-- The end of the text. -/
def endText : Reader Unit := do
  match ← peek with
  | some _ => failNext .trailingText
  | none => pure ()

end Reader

/-- A reader that takes at least one character. -/
structure ValueReader (α : Type) extends Reader α where
  consumes : ∀ {s : Text} {a : α} {r : Text}, run s = .ok (a, r) → r.length < s.length

namespace ValueReader

/-- Reads a value by its first character, which is taken already; `here` begins with it. -/
def byFirst (choose : (here : Text) → Char → Reader α) : ValueReader α where
  run s :=
    match s.dropWhile Reader.isSpace with
    | [] => .error ⟨.endInValue, [], some ⟨[], 0⟩⟩
    | c :: r => (choose (c :: r) c).run r
  keeps := by
    intro s a r h
    have hs := (List.dropWhile_suffix (l := s) Reader.isSpace).length_le
    split at h
    · simp at h
    · next c t ht =>
      rw [ht] at hs
      have := (choose (c :: t) c).keeps h
      simp only [List.length_cons] at hs
      omega
  consumes := by
    intro s a r h
    have hs := (List.dropWhile_suffix (l := s) Reader.isSpace).length_le
    split at h
    · simp at h
    · next c t ht =>
      rw [ht] at hs
      have := (choose (c :: t) c).keeps h
      simp only [List.length_cons] at hs
      omega

/-- Goes on with another reader. -/
def andThen (x : ValueReader α) (f : α → Reader β) : ValueReader β where
  toReader := x.toReader >>= f
  consumes := by
    intro s b r h
    simp only [bind] at h
    split at h
    · simp at h
    · next a r' hx => exact Nat.lt_of_le_of_lt ((f a).keeps h) (x.consumes hx)

end ValueReader

end Mailout.Json
