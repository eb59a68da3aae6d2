import Mailout.Preset.Basic

/-!
# Options of an export

What a caller can ask for besides the preset.
-/

namespace Mailout

/-- Options of one export. -/
structure ExportOptions where
  /-- Literal texts for variables, which go before what the preset writes. -/
  overrides : Dictionary Text := {}
  /-- Whether editor tokens are stripped from the compiled page too. -/
  stripCompiled : Bool := true
  /-- The last change of the page. -/
  wrap : Option (Text → Text) := none

namespace ExportOptions

/-- The options with a literal text for a variable. -/
def withOverride (o : ExportOptions) (variableName literal : Text) : ExportOptions :=
  { o with overrides := o.overrides.insert variableName literal }

/-- The options with literal texts for several variables. -/
def withOverrides (o : ExportOptions) (pairs : List (Text × Text)) : ExportOptions :=
  { o with overrides := o.overrides.insertAll pairs }

/-- The options with or without stripping of the compiled page. -/
def withStrip (o : ExportOptions) (strip : Bool) : ExportOptions := { o with stripCompiled := strip }

/-- The options with a last change of the page. -/
def withWrap (o : ExportOptions) (wrap : Text → Text) : ExportOptions :=
  { o with wrap := some wrap }

/-- The page after the last change, if there is one. -/
def applyWrap (o : ExportOptions) (html : Text) : Text := o.wrap.elim html (· html)

/-- The options for people who read a message. -/
def describe (o : ExportOptions) : Text :=
  let overrides := o.overrides.entries.map fun (k, v) =>
    Text.quoted k ++ [':', ' '] ++ Text.quoted v
  "ExportOptions ".toList ++ ['{'] ++ " merge_tag_overrides: ".toList ++ ['{']
    ++ List.intercalate [',', ' '] overrides ++ ['}'] ++ ", strip_editor_artifacts: ".toList
    ++ (toString o.stripCompiled).toList ++ ", wrap: ".toList
    ++ (if o.wrap.isSome then "Some(\"<fn>\")" else "None").toList ++ [' ', '}']

end ExportOptions

end Mailout
