import Mailout.Markup.Strip
import Mailout.Preset.Table

/-!
# Errors of an export

An export ends with the first thing that goes wrong. What the renderer and the compiler fail with is
theirs (`ε`): an error of the export holds it as it is, and has its wording.
-/

namespace Mailout

/-- Why an export, or the reading of a preset, has no result. -/
inductive ExportError (ε : Type := String) where
  /-- No preset has this identifier. -/
  | presetNotFound (id : String)
  | render (cause : ε)
  | compile (cause : ε)
  /-- Markup could not be rewritten. -/
  | rewrite (reason : String)
  /-- The description of a preset is of no use. -/
  | config (reason : String)
  deriving DecidableEq, Repr

namespace ExportError

/-- The wording of the error. -/
def message [ToString ε] : ExportError ε → String
  | .presetNotFound id => "Preset not found: " ++ id
  | .render cause => toString cause
  | .compile cause => toString cause
  | .rewrite reason => "Rewrite error: " ++ reason
  | .config reason => "Preset config error: " ++ reason

/-- The error of markup that could not be rewritten. -/
def ofRewrite (e : RewriteError) : ExportError ε := .rewrite e.message

/-- The error of a table that is of no use. -/
def ofTable (p : TableProblem) : ExportError ε := .config p.message

end ExportError

end Mailout
