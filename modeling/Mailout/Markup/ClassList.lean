import Mailout.Text.Blank

/-!
# Class lists

The authoring tool marks elements by class tokens of its own, which begin with `editor-`. A class
list is clean if it has a token and none of these.
-/

namespace Mailout.ClassList

open Text

/-- Whether a class token belongs to the authoring tool. -/
def isEditorToken (token : Text) : Bool := "editor-".toList.isPrefixOf token

/-- The tokens of a class list that do not belong to the authoring tool, in order. -/
def authored (value : Text) : List Text := (words value).filter (!isEditorToken ·)

/-- The class list without editor tokens, or no result if it is clean as it stands. A list of no
tokens is not clean: an attribute that holds it is of no use. -/
def clean? (value : Text) : Option Text :=
  if (words value).any isEditorToken || (words value).isEmpty then some (joinWords (authored value))
  else none

end Mailout.ClassList
