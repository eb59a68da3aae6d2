import Mailout.Text.Search
import Mailout.Text.Upper

/-!
# Fallback rules

A provider writes variables in a form of its own. `Fallback.apply` makes that form for a variable
the provider has no special spelling for.
-/

namespace Mailout

open Text

/-- How a variable without a special spelling is written. -/
inductive Fallback where
  /-- Capitals between `*|` and `|*`. -/
  | pipeUpper
  /-- The variable between two pairs of braces. -/
  | handlebars
  /-- Capitals after `contact.` between spaced pairs of braces. -/
  | contactAttribute
  /-- A pattern in which `{name}` stands for the variable and `{NAME}` for its capitals. -/
  | template (pattern : Text)
  deriving DecidableEq, Repr

namespace Fallback

/-- The place in a pattern where the variable goes. -/
def namePlace : Text := "\x7bname\x7d".toList

/-- The place in a pattern where the variable's capitals go. -/
def upperPlace : Text := "\x7bNAME\x7d".toList

/-- The variable as the provider writes it. In a pattern the places of the variable are filled
first, then those of its capitals. -/
def apply (fallback : Fallback) (variableName : Text) : Text :=
  match fallback with
  | .pipeUpper => ['*', '|'] ++ upper variableName ++ ['|', '*']
  | .handlebars => ['{', '{'] ++ variableName ++ ['}', '}']
  | .contactAttribute =>
    ['{', '{'] ++ " contact.".toList ++ upper variableName ++ [' ', '}', '}']
  | .template pattern =>
    replaceAll upperPlace (upper variableName) (replaceAll namePlace variableName pattern)

end Fallback

end Mailout
