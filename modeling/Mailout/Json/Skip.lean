import Mailout.Json.Value

/-!
# Values that are not kept

The value of a member that no one asks for is checked for its form only. Brackets may nest to any
depth, so the open ones are kept in a list.

## Termination

Every step takes a character, or it finds that a value is due and the next one takes it.
-/

namespace Mailout.Json

open Text

/-- An open bracket. -/
inductive Bracket where
  | array
  | object
  deriving DecidableEq

namespace Bracket

/-- The character that closes the bracket. -/
def close : Bracket → Char
  | .array => ']'
  | .object => '}'

/-- The failure where the text ends inside the bracket. -/
def atEnd : Bracket → Cause
  | .array => .endInArray
  | .object => .endInObject

/-- The failure where a comma or the end of the bracket is due. -/
def expectedComma : Bracket → Cause
  | .array => .expectedArrayComma
  | .object => .expectedObjectComma

end Bracket

/-- What is due next. -/
inductive Due where
  | value
  /-- The end of a bracket; a comma too, if `comma`; the first item of a bracket, if not. -/
  | ending (comma : Bool)

/-- The form of a scalar whose first character is taken already. -/
def Reader.skipScalar (first : Char) : Reader Unit :=
  match first with
  | 'n' => word ['u', 'l', 'l']
  | 't' => word ['r', 'u', 'e']
  | 'f' => word ['a', 'l', 's', 'e']
  | '-' => skipNegativeNumber
  | '"' => ⟨skipTextBody, fun h => Nat.le_of_lt (skipTextBody_length h)⟩
  | c => skipNumberFrom c

/-- The form of a key and its colon. -/
def Reader.skipKey : Reader Unit := do
  match ← peek with
  | some '"' =>
    advance
    ⟨skipTextBody, fun h => Nat.le_of_lt (skipTextBody_length h)⟩
    colon
  | some _ => failNext .keyNotText
  | none => failNext .endInObject

/-- The text of the next item of a bracket, of which `c` is the first character or the comma before
it. -/
def itemStart (comma : Bool) (c : Char) (r : Text) : Text := if comma then r else c :: r

theorem itemStart_length (comma : Bool) (c : Char) (r : Text) :
    (itemStart comma c r).length ≤ r.length + 1 := by
  unfold itemStart
  split <;> simp

/-- Skips what is left of a value inside some open brackets. -/
def skipFrom (opened : List Bracket) (due : Due) (s : Text) : Outcome Unit :=
  match due with
  | .value =>
    match _h : s.dropWhile Reader.isSpace with
    | [] => failAt .endInValue [] 0
    | c :: r =>
      if c == '[' then skipFrom (.array :: opened) (.ending false) r
      else if c == '{' then skipFrom (.object :: opened) (.ending false) r
      else if startsScalar c then
        match _h' : (Reader.skipScalar c).run r with
        | .error e => .error e
        | .ok (_, r) => skipFrom opened (.ending true) r
      else failAt .expectedValue (c :: r) 1
  | .ending comma =>
    match opened with
    | [] => .ok ((), s)
    | b :: outer =>
      match _h : s.dropWhile Reader.isSpace with
      | [] => failAt b.atEnd [] 0
      | c :: r =>
        if c == b.close then skipFrom outer (.ending true) r
        else if comma && c != ',' then failAt b.expectedComma (c :: r) 1
        else
          match _h' : (if b = .object then Reader.skipKey else pure ()).run (itemStart comma c r) with
          | .error e => .error e
          | .ok (_, r) => skipFrom (b :: outer) .value r
termination_by 2 * s.length + (match due with | .value => 0 | .ending _ => 1)
decreasing_by
  all_goals
    have hs := (List.dropWhile_suffix (l := s) Reader.isSpace).length_le
    rw [_h, List.length_cons] at hs
  · omega
  · omega
  · have := (Reader.skipScalar c).keeps _h'
    omega
  · omega
  · have h1 := Reader.keeps _ _h'
    have h2 := fun t => itemStart_length comma c t
    exact Nat.lt_of_le_of_lt (Nat.add_le_add_right (Nat.mul_le_mul_left 2
      (Nat.le_trans h1 (Nat.le_trans (h2 _) hs))) _) (by simp)

theorem skipFrom_length {opened : List Bracket} {due : Due} {s r : Text} {u : Unit}
    (h : skipFrom opened due s = .ok (u, r)) : r.length ≤ s.length := by
  fun_induction skipFrom opened due s with
  | case1 => simp [failAt] at h
  | case2 _ s c t ht _ ih | case3 _ s c t ht _ _ ih =>
    have hs := (List.dropWhile_suffix (l := s) Reader.isSpace).length_le
    rw [ht, List.length_cons] at hs
    have := ih h
    omega
  | case4 => simp at h
  | case5 _ s c t ht _ _ _ u r' hr ih =>
    have hs := (List.dropWhile_suffix (l := s) Reader.isSpace).length_le
    rw [ht, List.length_cons] at hs
    have h1 := (Reader.skipScalar c).keeps hr
    have h2 := ih h
    omega
  | case6 => simp [failAt] at h
  | case7 s =>
    simp only [Except.ok.injEq, Prod.mk.injEq] at h
    exact h.2 ▸ Nat.le_refl _
  | case8 => simp [failAt] at h
  | case9 s _ b outer c t ht _ ih =>
    have hs := (List.dropWhile_suffix (l := s) Reader.isSpace).length_le
    rw [ht, List.length_cons] at hs
    have := ih h
    omega
  | case10 => simp [failAt] at h
  | case11 => simp at h
  | case12 s comma b outer c t ht _ _ u r' hr ih =>
    have hs := (List.dropWhile_suffix (l := s) Reader.isSpace).length_le
    rw [ht, List.length_cons] at hs
    have h1 := Reader.keeps _ hr
    have h2 := itemStart_length comma c t
    have h3 := ih h
    omega

/-- A value of any kind that is not kept. -/
def Reader.skip : Reader Unit := ⟨skipFrom [] .value, skipFrom_length⟩

end Mailout.Json
