import Mailout.Datum
import Mailout.Preset.Description

/-!
# Variants in a description

A fallback rule and a post-processing step are written as data that say by name which variant is
meant. The other fields of the variant are its content: a table of fields, or a list of their values
in order.

## Rules

* A field is known by its name or, in a format whose keys need not be text, by its place.
* Fields that are not known are ignored, values too many in a list are not.
* A field that is given twice is an error.
-/

namespace Mailout

/-! ## Content of a variant -/

namespace Datum

/-- The text that a datum is. -/
def asText : Datum → Except Mismatch Text
  | .text s => .ok s
  | d => .error (.wrongKind d.found "a string")

/-- The list of texts that a datum is. -/
def asTexts : Datum → Except Mismatch (List Text)
  | .list items => items.mapM asText
  | d => .error (.wrongKind d.found "a sequence")

/-- The place of the field among the fields of these names, if it is one of them. -/
def asField (names : List String) : Datum → Except Mismatch (Option Nat)
  | .text s => .ok (names.findIdx? (·.toList == s))
  | .natural n => .ok (if n < names.length then some n else none)
  | d => .error (.wrongKind d.found "field identifier")

/-- The name of a number of elements. -/
def countName (n : Nat) : String :=
  toString n ++ (if n = 1 then " element" else " elements")

/-- Refuses elements after the first `n` of a list. -/
def refuseMore (n : Nat) (items : List Datum) : Except Mismatch Unit :=
  if items.length ≤ n then .ok () else .error (.wrongLength items.length (countName n ++ " in sequence"))

end Datum

/-! ## Fallback rules -/

/-- The variants of a fallback rule. -/
inductive FallbackStyle where
  | pipeUpper
  | handlebars
  | contactAttribute
  | template
  deriving DecidableEq, Repr

namespace FallbackStyle

/-- All variants. -/
def all : List FallbackStyle := [.pipeUpper, .handlebars, .contactAttribute, .template]

/-- The name of the variant in a description. -/
def name : FallbackStyle → String
  | .pipeUpper => "pipe-upper"
  | .handlebars => "handlebars"
  | .contactAttribute => "contact-attribute"
  | .template => "template"

/-- The variant of this name. -/
def ofName (s : Text) : Except Mismatch FallbackStyle :=
  match all.find? (·.name.toList == s) with
  | some style => .ok style
  | none => .error (.unknownVariant s (all.map name))

end FallbackStyle

namespace Fallback

/-- The variant of a rule. -/
def style : Fallback → FallbackStyle
  | .pipeUpper => .pipeUpper
  | .handlebars => .handlebars
  | .contactAttribute => .contactAttribute
  | .template _ => .template

/-- The pattern in the entries of a template's content. -/
def patternOfEntries : Option Text → List (Datum × Datum) → Except Mismatch Text
  | some pattern, [] => .ok pattern
  | none, [] => .error (.missingField "pattern")
  | pattern?, (key, value) :: entries => do
    match ← key.asField ["pattern"] with
    | some _ =>
      if pattern?.isSome then throw (.duplicateField "pattern")
      patternOfEntries (some (← value.asText)) entries
    | none => patternOfEntries pattern? entries

/-- The pattern in a template's content. -/
def patternOfContent : Datum → Except Mismatch Text
  | .table entries => patternOfEntries none entries
  | .list [] => .error (.wrongLength 0 "struct variant Fallback::Template with 1 element")
  | .list (item :: items) => do
    let pattern ← item.asText
    Datum.refuseMore 1 (item :: items)
    return pattern
  | d => .error (.wrongKind d.found "struct variant Fallback::Template")

/-- Refuses content of a variant that has no fields. -/
def refuseContent : Datum → Except Mismatch Unit
  | .list items => Datum.refuseMore 0 items
  | _ => .ok ()

/-- The rule of a variant with its content. -/
def ofContent (style : FallbackStyle) (content : Datum) : Except Mismatch Fallback := do
  match style with
  | .template => return .template (← patternOfContent content)
  | .pipeUpper => refuseContent content; return .pipeUpper
  | .handlebars => refuseContent content; return .handlebars
  | .contactAttribute => refuseContent content; return .contactAttribute

end Fallback

/-! ## Steps -/

/-- The variants of a post-processing step. -/
inductive StepKind where
  | ensureUnsubscribe
  | tripleBraceUrls
  deriving DecidableEq, Repr

namespace StepKind

/-- All variants. -/
def all : List StepKind := [.ensureUnsubscribe, .tripleBraceUrls]

/-- The name of the variant in a description. -/
def name : StepKind → String
  | .ensureUnsubscribe => "ensureUnsubscribe"
  | .tripleBraceUrls => "tripleBraceUrls"

/-- The variant of this name. -/
def ofName (s : Text) : Except Mismatch StepKind :=
  match all.find? (·.name.toList == s) with
  | some kind => .ok kind
  | none => .error (.unknownVariant s (all.map name))

end StepKind

namespace UnsubscribeFooter

/-- The footer with these tokens and, if it is given, this label. -/
def ofFields (tokens : List Text) (label? : Option Text) : UnsubscribeFooter :=
  match label? with
  | some label => { tokens, label }
  | none => { tokens }

/-- The footer in the entries of its content. -/
def ofEntries (tokens? : Option (List Text)) (label? : Option Text) :
    List (Datum × Datum) → Except Mismatch UnsubscribeFooter
  | [] =>
    match tokens? with
    | some tokens => .ok (ofFields tokens label?)
    | none => .error (.missingField "tokens")
  | (key, value) :: entries => do
    match ← key.asField ["tokens", "label"] with
    | some 0 =>
      if tokens?.isSome then throw (.duplicateField "tokens")
      ofEntries (some (← value.asTexts)) label? entries
    | some _ =>
      if label?.isSome then throw (.duplicateField "label")
      ofEntries tokens? (some (← value.asText)) entries
    | none => ofEntries tokens? label? entries

/-- The footer in the content of its step. -/
def ofContent : Datum → Except Mismatch UnsubscribeFooter
  | .table entries => ofEntries none none entries
  | .list [] => .error (.wrongLength 0 "struct UnsubscribeFooter with 2 elements")
  | .list [tokens] => return ofFields (← tokens.asTexts) none
  | .list (tokens :: label :: items) => do
    let tokens' ← tokens.asTexts
    let label' ← label.asText
    Datum.refuseMore 2 (tokens :: label :: items)
    return ofFields tokens' label'
  | d => .error (.wrongKind d.found "struct UnsubscribeFooter")

end UnsubscribeFooter

namespace PostProcessStep

/-- The variant of a step. -/
def kind : PostProcessStep → StepKind
  | .ensureUnsubscribe _ => .ensureUnsubscribe
  | .tripleBraceUrls => .tripleBraceUrls

/-- The step of a variant with its content. -/
def ofContent (kind : StepKind) (content : Datum) : Except Mismatch PostProcessStep := do
  match kind with
  | .ensureUnsubscribe => return .ensureUnsubscribe (← UnsubscribeFooter.ofContent content)
  | .tripleBraceUrls => Fallback.refuseContent content; return .tripleBraceUrls

end PostProcessStep

/-! ## The fields of a description -/

/-- What is known of a description while its fields are read. -/
structure TableDraft where
  id? : Option Text := none
  name? : Option Text := none
  knownTags? : Option (Dictionary Text) := none
  fallback? : Option Fallback := none
  steps? : Option (List PostProcessStep) := none

/-- The description when all fields are read; known variables and steps need not be given. -/
def TableDraft.finish (d : TableDraft) : Except Mismatch PresetDescription := do
  let need (field? : Option Text) (name : String) : Except Mismatch Text :=
    match field? with
    | some value => .ok value
    | none => .error (.missingField name)
  let id ← need d.id? "id"
  let name ← need d.name? "name"
  match d.fallback? with
  | none => throw (.missingField "fallback")
  | some fallback =>
    return { id, name, knownTags := d.knownTags?.getD .empty, fallback, steps := d.steps?.getD [] }

end Mailout
