import Mailout.Error

/-!
# Registries

A registry finds presets by their identifiers. Of two presets with one identifier the later counts.
-/

namespace Mailout

/-- A preset to export with: one of the registry, or one that is given. -/
inductive PresetRef where
  | byName (id : Text)
  | literal (p : Preset)

/-- Presets by identifier. -/
structure PresetRegistry where
  presets : Dictionary Preset := {}

namespace PresetRegistry

/-- The registry without presets. -/
def empty : PresetRegistry := {}

/-- The registry with a preset under its own identifier. -/
def register (r : PresetRegistry) (p : Preset) : PresetRegistry := ⟨r.presets.insert p.id p⟩

/-- The registry with several presets, one after the other. -/
def registerAll (r : PresetRegistry) (ps : List Preset) : PresetRegistry := ps.foldl register r

/-- The preset with an identifier. -/
def get? (r : PresetRegistry) (id : Text) : Option Preset := r.presets.get? id

/-- Whether an identifier has a preset. -/
def contains (r : PresetRegistry) (id : Text) : Bool := r.presets.contains id

/-- The identifiers in increasing order. They are put in order here, so the order in which they are
kept has no part in it. -/
def ids (r : PresetRegistry) : List Text := r.presets.keys.mergeSort fun a b => ¬ b < a

/-- The preset that is meant, and what there is to report. A preset that is given is not looked
up. -/
def resolve (r : PresetRegistry) : PresetRef → Except (ExportError ε) (Preset × List LogEntry)
  | .literal p => .ok (p, [])
  | .byName id =>
    match r.get? id with
    | some p => .ok (p, [.resolved id p.name])
    | none => .error (.presetNotFound (String.ofList id))

end PresetRegistry

end Mailout
