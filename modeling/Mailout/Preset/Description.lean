import Mailout.Error

/-!
# Descriptions of presets

A description says what a table preset is made of. It is what a caller writes down, and what a table
is written down as; whether the table is of use is asked when it is made.
-/

namespace Mailout

/-- What a table preset is made of. -/
structure PresetDescription where
  id : Text
  name : Text
  knownTags : Dictionary Text := {}
  fallback : Fallback
  steps : List PostProcessStep := []
  deriving DecidableEq

namespace PresetDescription

/-- The description of a table. -/
def ofTable (t : TablePreset) : PresetDescription where
  id := t.id
  name := t.name
  knownTags := t.knownTags
  fallback := t.fallback
  steps := t.steps

/-- The table that is described, whether it is of use or not. -/
def build (d : PresetDescription) : TablePreset :=
  let t := d.knownTags.entries.foldl (fun t e => t.withTag e.1 e.2) (.new d.id d.name d.fallback)
  d.steps.foldl TablePreset.withStep t

/-- The table that is described, unless it is of no use. -/
def toTable (d : PresetDescription) : Except ExportError TablePreset :=
  d.build.checked.mapError .ofTable

end PresetDescription

end Mailout
