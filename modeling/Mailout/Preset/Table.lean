import Mailout.PostProcess.Step
import Mailout.Preset.Basic
import Mailout.Preset.Fallback
import Mailout.Text.Blank

/-!
# Table presets

A table preset gives the spelling of known variables, a rule for all others, and the steps of its
post-processing. `validate?` names the first thing that keeps a table from being of use.
-/

namespace Mailout

open Text

/-- A preset made of a table of known variables and a rule for the others. -/
structure TablePreset where
  id : Text
  name : Text
  knownTags : Dictionary Text := {}
  fallback : Fallback
  steps : List PostProcessStep := []
  deriving DecidableEq

/-- What keeps a table preset from being of use. -/
inductive TableProblem where
  | blankId
  | blankName (id : Text)
  /-- A known variable is written as nothing. -/
  | emptyLiteral (id variableName : Text)
  /-- A pattern has no place for the variable. -/
  | fixedPattern (id : Text)
  /-- An unsubscribe step has no token to look for. -/
  | noToken (id : Text)
  deriving DecidableEq, Repr

namespace TableProblem

private def ofPreset (id : Text) : String := "preset '" ++ String.ofList id ++ "' "

/-- The wording of the problem. -/
def message : TableProblem → String
  | .blankId => "preset id must not be empty"
  | .blankName id => ofPreset id ++ "must have a name"
  | .emptyLiteral id v => ofPreset id ++ "maps '" ++ String.ofList v ++ "' to an empty string"
  | .fixedPattern id =>
    ofPreset id ++ "fallback pattern must contain " ++ String.ofList Fallback.namePlace ++ " or "
      ++ String.ofList Fallback.upperPlace
  | .noToken id => ofPreset id ++ "unsubscribe step needs at least one token"

end TableProblem

namespace TablePreset

/-! ## Making a table -/

/-- The table without known variables and steps. -/
def new (id name : Text) (fallback : Fallback) : TablePreset := ⟨id, name, .empty, fallback, []⟩

/-- The table with the spelling of a variable. -/
def withTag (t : TablePreset) (variableName literal : Text) : TablePreset :=
  { t with knownTags := t.knownTags.insert variableName literal }

/-- The table with one more step at the end. -/
def withStep (t : TablePreset) (step : PostProcessStep) : TablePreset :=
  { t with steps := t.steps ++ [step] }

/-! ## The check -/

/-- Whether a rule writes the same for all variables. -/
def isFixed : Fallback → Bool
  | .template pattern =>
    !contains Fallback.namePlace pattern && !contains Fallback.upperPlace pattern
  | _ => false

/-- Whether a step looks for no token. -/
def lacksToken : PostProcessStep → Bool
  | .ensureUnsubscribe footer => footer.tokens.all List.isEmpty
  | .tripleBraceUrls => false

/-- The first problem of the table, if it has any. -/
def validate? (t : TablePreset) : Option TableProblem :=
  if (trim t.id).isEmpty then some .blankId
  else if (trim t.name).isEmpty then some (.blankName t.id)
  else
    match t.knownTags.entries.find? (·.2.isEmpty) with
    | some (v, _) => some (.emptyLiteral t.id v)
    | none =>
      if isFixed t.fallback then some (.fixedPattern t.id)
      else if t.steps.any lacksToken then some (.noToken t.id)
      else none

/-- What it takes to pass the check. -/
theorem validate?_eq_none_iff {t : TablePreset} :
    t.validate? = none ↔ trim t.id ≠ [] ∧ trim t.name ≠ [] ∧ (∀ e ∈ t.knownTags.entries, e.2 ≠ []) ∧
      isFixed t.fallback = false ∧ ∀ step ∈ t.steps, lacksToken step = false := by
  have hentries : t.knownTags.entries.find? (·.2.isEmpty) = none ↔
      ∀ e ∈ t.knownTags.entries, e.2 ≠ [] := by
    simp [List.find?_eq_none]
  have hguard : ∀ (c : Prop) [Decidable c] (problem : TableProblem) (next : Option TableProblem),
      (if c then some problem else next) = none ↔ ¬ c ∧ next = none := by
    intro c _ problem next
    split <;> simp [*]
  rw [← hentries, validate?, hguard, hguard]
  cases t.knownTags.entries.find? (·.2.isEmpty) with
  | none => simp [hguard]
  | some e => simp

/-- The table itself, unless it has a problem. -/
def checked (t : TablePreset) : Except TableProblem TablePreset :=
  match t.validate? with
  | some problem => .error problem
  | none => .ok t

/-! ## Use -/

/-- A variable as the table writes it. -/
def transformTag (t : TablePreset) (variableName : Text) : Text :=
  (t.knownTags.get? variableName).getD (t.fallback.apply variableName)

/-- The page after all steps, and what there is to report. -/
def postProcess (t : TablePreset) (html : Text) : Text × List LogEntry :=
  PostProcessStep.applyAll t.steps html

/-- The table as a preset. -/
def toPreset (t : TablePreset) : Preset where
  id := t.id
  name := t.name
  transformTag := t.transformTag
  postProcess := t.postProcess

end TablePreset

end Mailout
