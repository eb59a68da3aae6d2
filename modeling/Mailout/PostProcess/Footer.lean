import Mailout.Log
import Mailout.Text.Search

/-!
# The unsubscribe footer

Bulk mail has to offer a way out. `UnsubscribeFooter.ensure` looks for one of the accepted
spellings of the provider's unsubscribe token and, if there is none, puts a small centred table
with a link in front of the last `</body` of the text.

## Main statements

* `cutAtBodyEnd_append` — the two sides of the cut make up the text;
* `startsBodyEnd_of_cutAtBodyEnd` — the second side begins with the end tag.
-/

namespace Mailout

/-! ## Escaping -/

/-- Text between tags: `&`, `<` and `>` as entities. -/
def escapeContent (s : Text) : Text :=
  s.flatMap fun
    | '&' => "&amp;".toList
    | '<' => "&lt;".toList
    | '>' => "&gt;".toList
    | c => [c]

/-- The value of an attribute between double quotes: the quote too is an entity. -/
def escapeQuotedValue (s : Text) : Text :=
  s.flatMap fun
    | '&' => "&amp;".toList
    | '<' => "&lt;".toList
    | '>' => "&gt;".toList
    | '"' => "&quot;".toList
    | c => [c]

/-! ## The end of the body -/

/-- Whether a text begins with `</body` in any case of letters, followed by `>` or a space
character other than a form feed. -/
def startsBodyEnd (s : Text) : Bool :=
  match Text.afterLetters? ['<', '/', 'b', 'o', 'd', 'y'] s with
  | some (c :: _) => c == '>' || c == ' ' || c == '\t' || c == '\n' || c == '\r'
  | _ => false

/-- The text before the last body end tag, and the text from it on. -/
def cutAtBodyEnd : Text → Option (Text × Text)
  | [] => none
  | c :: s =>
    match cutAtBodyEnd s with
    | some (front, rest) => some (c :: front, rest)
    | none => if startsBodyEnd (c :: s) then some ([], c :: s) else none

theorem cutAtBodyEnd_append {s front rest : Text} (h : cutAtBodyEnd s = some (front, rest)) :
    front ++ rest = s := by
  induction s generalizing front with
  | nil => simp [cutAtBodyEnd] at h
  | cons c s ih =>
    simp only [cutAtBodyEnd] at h
    split at h
    · next f r e =>
      simp only [Option.some.injEq, Prod.mk.injEq] at h
      obtain ⟨rfl, rfl⟩ := h
      simp [ih e]
    · split at h
      · simp only [Option.some.injEq, Prod.mk.injEq] at h
        obtain ⟨rfl, rfl⟩ := h
        rfl
      · simp at h

theorem startsBodyEnd_of_cutAtBodyEnd {s front rest : Text}
    (h : cutAtBodyEnd s = some (front, rest)) : startsBodyEnd rest = true := by
  induction s generalizing front with
  | nil => simp [cutAtBodyEnd] at h
  | cons c s ih =>
    simp only [cutAtBodyEnd] at h
    split at h
    · next f r e =>
      simp only [Option.some.injEq, Prod.mk.injEq] at h
      obtain ⟨-, rfl⟩ := h
      exact ih e
    · split at h
      · simp_all
      · simp at h

/-! ## The footer -/

/-- What an unsubscribe footer shows. -/
structure UnsubscribeFooter where
  /-- Accepted spellings of the provider's token. The first is the target of the link. -/
  tokens : List Text
  /-- The text of the link. -/
  label : Text := "Unsubscribe".toList
  deriving DecidableEq, Repr

namespace UnsubscribeFooter

/-- Whether one of the tokens stands in the text. -/
def isPresentIn (f : UnsubscribeFooter) (html : Text) : Bool :=
  f.tokens.any (Text.contains · html)

/-- The target of the link; empty without a token. -/
def href (f : UnsubscribeFooter) : Text := f.tokens.headD []

/-- The markup in front of the target. -/
def frameOpen : Text :=
  ("<table role=\"presentation\" width=\"100%\" cellpadding=\"0\" cellspacing=\"0\" border=\"0\">"
    ++ "<tr><td align=\"center\" style=\"padding:16px 0;font-size:12px;color:#666666;\">"
    ++ "<a href=\"").toList

/-- The markup between the target and the label. -/
def frameMiddle : Text := "\" style=\"color:#666666;text-decoration:underline;\">".toList

/-- The markup after the label. -/
def frameClose : Text := "</a></td></tr></table>".toList

/-- The markup of the footer. -/
def toHtml (f : UnsubscribeFooter) : Text :=
  frameOpen ++ escapeQuotedValue f.href ++ frameMiddle ++ escapeContent f.label ++ frameClose

/-- The text with the footer in it, unless a token is there already or the body has no end tag. -/
def ensure (f : UnsubscribeFooter) (html : Text) : Text × List LogEntry :=
  if f.isPresentIn html then (html, [])
  else
    match cutAtBodyEnd html with
    | none => (html, [.footerSkipped])
    | some (front, rest) => (front ++ f.toHtml ++ rest, [.footerInserted (Text.utf8Size front)])

end UnsubscribeFooter

end Mailout
