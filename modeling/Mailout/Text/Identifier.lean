import Mailout.Text.Basic

/-!
# Identifiers

A variable is named by an ASCII letter or underscore followed by ASCII letters, digits, underscores
and full stops. `readIdentifier` takes the longest such name a text begins with.
-/

namespace Mailout.Text

/-- A character an identifier can begin with. -/
def isIdentifierStart (c : Char) : Bool := c.isAlpha || c == '_'

/-- A character an identifier can go on with. -/
def isIdentifierPart (c : Char) : Bool := c.isAlphanum || c == '_' || c == '.'

/-- Whether the whole text is one identifier. -/
def isIdentifier : Text → Bool
  | [] => false
  | c :: s => isIdentifierStart c && s.all isIdentifierPart

/-- The longest identifier the text begins with, and what follows it. -/
def readIdentifier : Text → Option (Text × Text)
  | [] => none
  | c :: s =>
    if isIdentifierStart c then
      some (c :: s.takeWhile isIdentifierPart, s.dropWhile isIdentifierPart)
    else none

theorem readIdentifier_append {s name rest : Text} (h : readIdentifier s = some (name, rest)) :
    name ++ rest = s := by
  cases s with
  | nil => simp [readIdentifier] at h
  | cons c s =>
    simp only [readIdentifier] at h
    split at h
    · simp only [Option.some.injEq, Prod.mk.injEq] at h
      obtain ⟨rfl, rfl⟩ := h
      simp
    · simp at h

theorem isIdentifier_of_readIdentifier {s name rest : Text}
    (h : readIdentifier s = some (name, rest)) : isIdentifier name = true := by
  cases s with
  | nil => simp [readIdentifier] at h
  | cons c s =>
    simp only [readIdentifier] at h
    split at h
    · next hc =>
      simp only [Option.some.injEq, Prod.mk.injEq] at h
      obtain ⟨rfl, -⟩ := h
      simp only [isIdentifier, hc, Bool.true_and]
      exact List.all_takeWhile
    · simp at h

end Mailout.Text
