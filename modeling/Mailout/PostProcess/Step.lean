import Mailout.PostProcess.Footer
import Mailout.PostProcess.UrlSpan

/-!
# Post-processing steps

What a provider needs done to the compiled page. Steps run one after the other, each on what the
one before made; their log entries follow in the same order.
-/

namespace Mailout

/-- An adjustment of the compiled page. -/
inductive PostProcessStep where
  /-- A footer unless one of its tokens is there. -/
  | ensureUnsubscribe (footer : UnsubscribeFooter)
  /-- A third pair of braces for URL spans. -/
  | tripleBraceUrls
  deriving DecidableEq, Repr

namespace PostProcessStep

/-- The page after the step, and what there is to report. -/
def apply (step : PostProcessStep) (html : Text) : Text × List LogEntry :=
  match step with
  | .ensureUnsubscribe footer => footer.ensure html
  | .tripleBraceUrls => (UrlSpan.tripleBrace html, [])

/-- The page after several steps, and what there is to report. -/
def applyAll : List PostProcessStep → Text → Text × List LogEntry
  | [], html => (html, [])
  | step :: steps, html =>
    let (html, log) := step.apply html
    let (html, rest) := applyAll steps html
    (html, log ++ rest)

end PostProcessStep

end Mailout
