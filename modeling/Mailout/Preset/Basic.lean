import Mailout.Log
import Mailout.MergeTag
import Mailout.Text.Quoted
import Mailout.Dictionary

/-!
# Presets

A preset describes one provider: how it writes a variable, and what has to be done to the compiled
page. Any pair of functions will do; most presets are tables.
-/

namespace Mailout

/-- The description of an email provider. -/
structure Preset where
  /-- The identifier, unique within a registry. -/
  id : Text
  /-- The name for people. -/
  name : Text
  /-- A variable as the provider writes it. -/
  transformTag : Text → Text
  /-- The last adjustment of the compiled page, and what there is to report. -/
  postProcess : Text → Text × List LogEntry := fun html => (html, [])

namespace Preset

/-- A preset named for people who read a message. -/
def describe (p : Preset) : Text :=
  "Preset ".toList ++ ['{'] ++ " id: ".toList ++ Text.quoted p.id ++ ", name: ".toList
    ++ Text.quoted p.name ++ [' ', '}']

/-- The text for a variable: an override as it is, else what the preset writes. -/
def substitution (p : Preset) (overrides : Dictionary Text) (variableName : Text) : Text :=
  (overrides.get? variableName).getD (p.transformTag variableName)

/-- The markup with every merge tag in the provider's own form. -/
def transform (p : Preset) (overrides : Dictionary Text) (markup : Text) : Text :=
  MergeTag.replace (fun t => some (p.substitution overrides t.name)) markup

end Preset

end Mailout
