/-!
# Text

Text is a list of characters: every function over it then recurses on the data itself, and a
position is "what is left". Sizes and offsets that leave the library are counted in UTF-8 bytes.

## Consumed text

A reader over text returns what it left. What it took is `consumed s rest`, and for every suffix
`rest` of `s` the two parts make up `s` again (`consumed_append`).
-/

namespace Mailout

/-- Text as a list of characters. -/
abbrev Text := List Char

namespace Text

/-! ## Size and order -/

/-- The number of bytes of the text in UTF-8. -/
def utf8Size : Text → Nat
  | [] => 0
  | c :: s => c.utf8Size + utf8Size s

@[simp] theorem utf8Size_nil : utf8Size [] = 0 := rfl

@[simp] theorem utf8Size_cons (c : Char) (s : Text) :
    utf8Size (c :: s) = c.utf8Size + utf8Size s := rfl

@[simp] theorem utf8Size_append (s t : Text) : utf8Size (s ++ t) = utf8Size s + utf8Size t := by
  induction s with
  | nil => simp
  | cons c s ih => simp [ih, Nat.add_assoc]

/-! ## ASCII letter case -/

/-- Every ASCII capital as its small letter; all else is kept. -/
def lowerAscii (s : Text) : Text := s.map Char.toLower

@[simp] theorem lowerAscii_length (s : Text) : (lowerAscii s).length = s.length := by
  simp [lowerAscii]

/-- Equality up to the case of ASCII letters. -/
def sameLetters (s t : Text) : Bool := lowerAscii s == lowerAscii t

/-- The text after `start`, if the text begins with it up to the case of ASCII letters. -/
def afterLetters? : Text → Text → Option Text
  | [], s => some s
  | _ :: _, [] => none
  | p :: ps, c :: s => if p.toLower == c.toLower then afterLetters? ps s else none

/-- The text after `start`, if the text begins with it. -/
def after? : Text → Text → Option Text
  | [], s => some s
  | _ :: _, [] => none
  | p :: ps, c :: s => if p == c then after? ps s else none

theorem after?_eq_some_iff {p s rest : Text} : after? p s = some rest ↔ s = p ++ rest := by
  induction p generalizing s with
  | nil => simp [after?, eq_comm]
  | cons a p ih =>
    cases s with
    | nil => simp [after?]
    | cons c s =>
      by_cases h : a = c
      · simp [after?, h, ih]
      · simp [after?, h, Ne.symm h]

/-- What is left after a leading part is as long as the text without that part. -/
theorem after?_length {p s rest : Text} (h : after? p s = some rest) :
    s.length = p.length + rest.length := by
  rw [after?_eq_some_iff.mp h, List.length_append]

theorem afterLetters?_suffix {p s rest : Text} (h : afterLetters? p s = some rest) :
    rest <:+ s := by
  induction p generalizing s with
  | nil => simp [afterLetters?] at h; simp [h]
  | cons a p ih =>
    cases s with
    | nil => simp [afterLetters?] at h
    | cons c s =>
      simp only [afterLetters?] at h
      split at h
      · exact (ih h).trans (List.suffix_cons c s)
      · simp at h

/-! ## Byte order marks -/

/-- The text without a byte order mark at its start. -/
def dropMark : Text → Text
  | '\uFEFF' :: s => s
  | s => s

theorem dropMark_suffix (s : Text) : dropMark s <:+ s := by
  unfold dropMark
  split
  · exact List.suffix_cons _ _
  · exact List.suffix_refl _

/-! ## Consumed text -/

/-- The part of `s` in front of its suffix `rest`. -/
def consumed (s rest : Text) : Text := s.take (s.length - rest.length)

theorem consumed_append {s rest : Text} (h : rest <:+ s) : consumed s rest ++ rest = s := by
  obtain ⟨front, rfl⟩ := h
  simp [consumed]

@[simp] theorem consumed_of_append (front rest : Text) : consumed (front ++ rest) rest = front := by
  simp [consumed]

end Text

end Mailout
