import Mailout.Json.Skip
import Mailout.Json.Writer
import Mailout.Preset.Variant

/-!
# Descriptions of presets in JSON

A description is written as an object with the fields `id`, `name`, `knownTags`, `fallback` and
`postProcess`, in this order. Reading takes the fields in any order, or an array of their values in
this one; fields that are not known are ignored.
-/

namespace Mailout

open Json

/-! ## Writing -/

private def field (name : String) (value : Text) : Text × Text := (name.toList, value)

/-- A fallback rule. -/
def Fallback.toJson (f : Fallback) : Text :=
  let style := field "style" (writeText f.style.name.toList)
  match f with
  | .template pattern => writeObject [style, field "pattern" (writeText pattern)]
  | _ => writeObject [style]

/-- A post-processing step. -/
def PostProcessStep.toJson (step : PostProcessStep) : Text :=
  let kind := field "kind" (writeText step.kind.name.toList)
  match step with
  | .ensureUnsubscribe footer =>
    writeObject [kind, field "tokens" (writeArray (footer.tokens.map writeText)),
      field "label" (writeText footer.label)]
  | .tripleBraceUrls => writeObject [kind]

/-- A description without blanks. -/
def PresetDescription.toJson (d : PresetDescription) : Text :=
  writeObject [
    field "id" (writeText d.id),
    field "name" (writeText d.name),
    field "knownTags" (writeObject (d.knownTags.entries.map fun e => (e.1, writeText e.2))),
    field "fallback" d.fallback.toJson,
    field "postProcess" (writeArray (d.steps.map PostProcessStep.toJson))]

/-! ## Reading -/

namespace Json.ValueReader

/-- A text field. -/
def field : ValueReader Text := text "a string"

/-- A variant that is named by a field, and its content. -/
def variant (tag wanted : String) (ofName : Text → Except Mismatch α) (nesting : Nat) :
    ValueReader (α × Datum) :=
  let nameReader : ValueReader α := ofKind "variant identifier" 0 (some ofName) none none
  let array (n : Nat) : Reader (α × Datum) := do
    match ← Reader.element? true nameReader.toReader with
    | none => .mismatch (.missingField tag)
    | some a => return (a, .list (← Reader.moreElements (datum n)))
  let member (n : Nat) (state : Option α × List (Datum × Datum)) (key : Text) :
      Reader (Option α × List (Datum × Datum)) :=
    if key == tag.toList then
      if state.1.isSome then .mismatch (.duplicateField tag)
      else do
        Reader.colon
        return (some (← nameReader.toReader), state.2)
    else do
      Reader.colon
      return (state.1, state.2 ++ [(.text key, ← (datum n).toReader)])
  let object (n : Nat) : Reader (α × Datum) := do
    match ← Reader.members (member n) (none, []) with
    | (none, _) => .mismatch (.missingField tag)
    | (some a, entries) => return (a, .table entries)
  anyKind nesting (fun d => .error (.wrongKind d.found wanted)) array object

/-- A fallback rule. -/
def fallback (nesting : Nat) : ValueReader Fallback :=
  (variant "style" "internally tagged enum Fallback" FallbackStyle.ofName nesting).andThen
    fun (style, content) => .ofExcept (Fallback.ofContent style content)

/-- A post-processing step. -/
def step (nesting : Nat) : ValueReader PostProcessStep :=
  (variant "kind" "internally tagged enum PostProcessStep" StepKind.ofName nesting).andThen
    fun (kind, content) => .ofExcept (PostProcessStep.ofContent kind content)

/-- A table of spellings. -/
def knownTags (nesting : Nat) : ValueReader (Dictionary Text) :=
  let member (d : Dictionary Text) (key : Text) : Reader (Dictionary Text) := do
    Reader.colon
    return d.insert key (← field.toReader)
  ofKind "a map" nesting none none (some (Reader.members member .empty))

/-- A list of post-processing steps. -/
def steps (nesting : Nat) : ValueReader (List PostProcessStep) :=
  ofKind "a sequence" nesting none (some (Reader.elements (step (nesting - 1)))) none

/-- A field of a description, after its key. -/
def draftMember (nesting : Nat) (d : TableDraft) (key : Text) : Reader TableDraft :=
  let once (given : Bool) (name : String) (value : Reader TableDraft) : Reader TableDraft :=
    if given then .mismatch (.duplicateField name) else Reader.colon >>= fun _ => value
  if key == "id".toList then
    once d.id?.isSome "id" do return { d with id? := some (← field.toReader) }
  else if key == "name".toList then
    once d.name?.isSome "name" do return { d with name? := some (← field.toReader) }
  else if key == "knownTags".toList then
    once d.knownTags?.isSome "knownTags" do
      return { d with knownTags? := some (← (knownTags nesting).toReader) }
  else if key == "fallback".toList then
    once d.fallback?.isSome "fallback" do
      return { d with fallback? := some (← (fallback nesting).toReader) }
  else if key == "postProcess".toList then
    once d.steps?.isSome "postProcess" do
      return { d with steps? := some (← (steps nesting).toReader) }
  else Reader.colon >>= fun _ => Reader.skip >>= fun _ => pure d

/-- The values of a description in the order of its fields. -/
def draftElements (nesting : Nat) : Reader TableDraft := do
  let need (place : Nat) : Reader TableDraft :=
    .mismatch (.wrongLength place "struct PresetConfig with 5 elements")
  match ← Reader.element? true field.toReader with
  | none => need 0
  | some id =>
    match ← Reader.element? false field.toReader with
    | none => need 1
    | some name =>
      let knownTags? ← Reader.element? false (knownTags nesting).toReader
      match ← Reader.element? false (fallback nesting).toReader with
      | none => need 3
      | some fallback =>
        let steps? ← Reader.element? false (steps nesting).toReader
        return ⟨some id, some name, knownTags?, some fallback, steps?⟩

/-- A description of a table preset. -/
def description : ValueReader PresetDescription :=
  let inside := nestingLimit - 1
  let finish (d : TableDraft) : Reader PresetDescription := .ofExcept d.finish
  ofKind "struct PresetConfig" nestingLimit none (some (draftElements inside >>= finish))
    (some (Reader.members (draftMember inside) {} >>= finish))

end Json.ValueReader

/-- The description that a text holds. -/
def PresetDescription.ofJson (source : Text) : Except ExportError PresetDescription :=
  let reader := do
    let d ← Json.ValueReader.description.toReader
    Reader.endText
    return d
  match reader.run source with
  | .ok (d, _) => .ok d
  | .error failure => .error (.config (failure.message source))

end Mailout
