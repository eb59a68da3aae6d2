import Mailout.Preset.Variant
import Mailout.Yaml.Value

/-!
# Descriptions of presets in YAML

A description is a mapping with the fields of a table preset, in any order; fields that are not
known are ignored. Where a field is text any scalar will do, whatever it could stand for. The
variants of rules and steps, too, may be sequences.

## Places

What is wrong with the content of a variant is met by the decoder around the variant: for the
fallback rule that of the description, for a step that of the list of steps.
-/

namespace Mailout

open Yaml

namespace Yaml.Decoder

/-- A text field. -/
def field (path : Path) (n : Node) : Decoder Text := text "a string" path n

/-- Whether a node says no more than that it is there. -/
def isBare : Node → Bool
  | .scalar _ s isPlain => isPlain && s.isEmpty
  | _ => false

/-- The name of a variant. -/
def variantName (ofName : Text → Except Mismatch α) (path : Path) (n : Node) : Decoder α := do
  let n ← follow n
  placed n.mark path do ofExcept (ofName (← text "variant identifier" path n))

/-- The name of a variant among the entries of a mapping, and the other entries as data. -/
def variantEntries (tag : String) (ofName : Text → Except Mismatch α) (nesting : Nat) (path : Path)
    (read : Option α × List (Datum × Datum)) (entry : Node × Node) :
    Decoder (Option α × List (Datum × Datum)) := do
  let (key, value) := entry
  let wanted := "a type tag " ++ String.ofList ['\x60'] ++ tag ++ String.ofList ['\x60'] ++
    " or any other value"
  let key' ← datum nesting wanted path key
  let isTag := match key' with
    | .text s => s == tag.toList
    | _ => false
  if isTag then
    if read.1.isSome then mismatch (.duplicateField tag)
    else return (some (← variantName ofName (valuePath path key) value), read.2)
  else return (read.1, read.2 ++ [(key', ← datum nesting "any value" (valuePath path key) value)])

/-- A variant that is named by a field, and its content. -/
def variant (tag wanted : String) (ofName : Text → Except Mismatch α) (nesting : Nat) (path : Path)
    (n : Node) : Decoder (α × Datum) := do
  let n ← follow n
  let refuseTag (p : Properties) : Decoder Unit :=
    if (localTag? p).isSome then mismatch (.wrongKind .tagged wanted) else pure ()
  placed n.mark path do
    match n with
    | .scalar p .. => do
      refuseTag p
      mismatch (misfit wanted n)
    | .sequence p ns => do
      refuseTag p
      let nesting ← enter nesting p.mark
      match ns with
      | [] => mismatch (.missingField tag)
      | first :: rest => do
        let a ← variantName ofName (.item path 0) first
        let content ← rest.zipIdx.mapM fun (n, i) => datum nesting "any value" (.item path (i + 1)) n
        return (a, .list content)
    | .mapping p entries => do
      refuseTag p
      let nesting ← enter nesting p.mark
      match ← entries.foldlM (variantEntries tag ofName nesting path) (none, []) with
      | (none, _) => mismatch (.missingField tag)
      | (some a, content) => return (a, .table content)
    | _ => missing

/-- A fallback rule. -/
def fallback (nesting : Nat) (path : Path) (n : Node) : Decoder Fallback := do
  let (style, content) ←
    variant "style" "internally tagged enum Fallback" FallbackStyle.ofName nesting path n
  ofExcept (Fallback.ofContent style content)

/-- A post-processing step. -/
def step (nesting : Nat) (path : Path) (n : Node) : Decoder PostProcessStep := do
  let (kind, content) ←
    variant "kind" "internally tagged enum PostProcessStep" StepKind.ofName nesting path n
  ofExcept (PostProcessStep.ofContent kind content)

/-- A table of spellings. -/
def knownTags (nesting : Nat) (path : Path) (n : Node) : Decoder (Dictionary Text) := do
  let n ← follow n
  placed n.mark path do
    match n with
    | .mapping p entries => do
      let _ ← enter nesting p.mark
      entries.foldlM (fun d (key, value) => do
        let variable' ← field path key
        return d.insert variable' (← field (valuePath path key) value)) .empty
    | n => if isBare n then return .empty else mismatch (misfit "a map" n)

/-- A list of post-processing steps. -/
def steps (nesting : Nat) (path : Path) (n : Node) : Decoder (List PostProcessStep) := do
  let n ← follow n
  placed n.mark path do
    match n with
    | .sequence p ns => do
      let nesting ← enter nesting p.mark
      items (step nesting) path ns
    | n => if isBare n then return [] else mismatch (misfit "a sequence" n)

/-- A field of a description. -/
def draftEntry (nesting : Nat) (d : TableDraft) (entry : Node × Node) : Decoder TableDraft := do
  let (key, value) := entry
  let name ← text "field identifier" .root key
  let path := valuePath .root key
  let once (given : Bool) (name : String) (value : Decoder TableDraft) : Decoder TableDraft :=
    if given then mismatch (.duplicateField name) else value
  if name == "id".toList then
    once d.id?.isSome "id" do return { d with id? := some (← field path value) }
  else if name == "name".toList then
    once d.name?.isSome "name" do return { d with name? := some (← field path value) }
  else if name == "knownTags".toList then
    once d.knownTags?.isSome "knownTags" do
      return { d with knownTags? := some (← knownTags nesting path value) }
  else if name == "fallback".toList then
    once d.fallback?.isSome "fallback" do
      return { d with fallback? := some (← fallback nesting path value) }
  else if name == "postProcess".toList then
    once d.steps?.isSome "postProcess" do
      return { d with steps? := some (← steps nesting path value) }
  else do
    skip value
    return d

/-- A description of a table preset. -/
def description (n : Node) : Decoder PresetDescription := do
  let n ← follow n
  placed n.mark .root do
    match n with
    | .mapping p entries => do
      let nesting ← enter nestingLimit p.mark
      let d ← entries.foldlM (draftEntry nesting) {}
      ofExcept d.finish
    | n => if isBare n then ofExcept ({} : TableDraft).finish else mismatch (misfit "struct PresetConfig" n)

end Yaml.Decoder

/-- The description that a text holds. -/
def PresetDescription.ofYaml (source : Text) : Except ExportError PresetDescription :=
  (decode Decoder.description source).mapError fun failure => .config failure.message

end Mailout
