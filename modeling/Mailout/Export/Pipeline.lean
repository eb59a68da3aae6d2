import Mailout.Diagnostic
import Mailout.Export.Options
import Mailout.Preset.Builtin

/-!
# The export

An export turns a document into a page for one provider. Its stages run in a fixed order: resolve
the preset, render, strip, fill in merge tags, compile, strip, post-process, wrap. The first stage
that fails ends the export, and no later stage runs.

Renderer and compiler belong to the caller. They may do more than answer, so the export runs in the
monad that they run in (`m`), and their errors are of the caller's own type (`ε`). A `Trace` keeps
what they were asked and what they answered, and what was reported on the way, also when the export
fails. It is the renderer and the compiler that are watched for it (`watched`): the export itself
takes no notes of its calls.
-/

namespace Mailout

/-- What the compiler makes of layout markup. -/
structure CompileOutput where
  html : Text
  diagnostics : List Diagnostic := []
  deriving DecidableEq, Repr

/-- What there is to report of the diagnostics, if there are any. -/
def CompileOutput.issues (c : CompileOutput) (preset : Text) : List LogEntry :=
  if c.diagnostics.isEmpty then [] else [.issues c.diagnostics.length preset]

/-- The compiled page as it goes into post-processing: without editor tokens, if that is asked
for. -/
def ExportOptions.stripPage (o : ExportOptions) (html : Text) : Except RewriteError Text :=
  if o.stripCompiled then strip html else .ok html

/-- A call of one of the caller's functions, and what it was given. -/
inductive Call (δ : Type) where
  | render (document : δ)
  | compile (markup : Text)
  deriving DecidableEq, Repr

/-- A call of one of the caller's functions that has returned, and its answer. -/
inductive Exchange (δ ε : Type) where
  | render (document : δ) (answer : Except ε Text)
  | compile (markup : Text) (answer : Except ε CompileOutput)

/-- The call without its answer. -/
def Exchange.call : Exchange δ ε → Call δ
  | .render document _ => .render document
  | .compile markup _ => .compile markup

/-- What happened during an export of a document, in order. -/
structure Trace (δ : Type) (ε : Type := String) where
  exchanges : List (Exchange δ ε) := []
  log : List LogEntry := []

/-- The calls of the caller's functions, in order. -/
def Trace.calls (t : Trace δ ε) : List (Call δ) := t.exchanges.map Exchange.call

/-- The result of an export. -/
structure ExportResult where
  /-- The page as the provider wants it. -/
  html : Text
  /-- The layout markup that was compiled. -/
  intermediateMarkup : Text
  diagnostics : List Diagnostic
  deriving DecidableEq, Repr

/-- Whether the compiler had nothing to say. -/
def ExportResult.isClean (r : ExportResult) : Bool := r.diagnostics.isEmpty

/-- A computation in the caller's monad that may fail and keeps a log either way. -/
abbrev ExportM (ε : Type) (m : Type → Type) := ExceptT (ExportError ε) (StateT (List LogEntry) m)

namespace ExportM

variable {m : Type → Type} [Monad m]

/-- Adds entries to the log. -/
def report (entries : List LogEntry) : ExportM ε m Unit := modify (· ++ entries)

/-- Takes the result of a stage that may fail. -/
def stage (result : Except κ α) (wrapError : κ → ExportError ε) : ExportM ε m α :=
  match result with
  | .ok a => pure a
  | .error e => throw (wrapError e)

/-- Runs one of the caller's functions and takes its answer. -/
def call (answer : m (Except κ α)) (wrapError : κ → ExportError ε) : ExportM ε m α := do
  stage (← answer) wrapError

end ExportM

/-- An exporter of documents of type `δ`. -/
structure Exporter (δ : Type) (ε : Type := String) (m : Type → Type := Id) where
  renderer : δ → m (Except ε Text)
  compiler : Text → m (Except ε CompileOutput)
  registry : PresetRegistry := .builtin

/-- A computation that puts a note of what it gives behind the notes there are. -/
def noting {m : Type → Type} [Monad m] (note : α → χ) (x : m α) : StateT (List χ) m α := do
  let a ← x
  modify (· ++ [note a])
  return a

namespace Exporter

open ExportM

variable {m : Type → Type} [Monad m]

/-- Exports a document for the preset that is meant. -/
def exportM (e : Exporter δ ε m) (document : δ) (ref : PresetRef) (options : ExportOptions) :
    ExportM ε m ExportResult := do
  let (preset, found) ← stage (e.registry.resolve ref) id
  report (found ++ [.started preset.id])
  let rendered ← call (e.renderer document) .render
  report [.rendered (Text.utf8Size rendered)]
  let stripped ← stage (strip rendered) .ofRewrite
  let markup := preset.transform options.overrides stripped
  report [.substituted preset.id options.overrides.size]
  let compiled ← call (e.compiler markup) .compile
  report (.compiled (Text.utf8Size compiled.html) :: compiled.issues preset.id)
  let page ← stage (options.stripPage compiled.html) .ofRewrite
  let (html, adjusted) := preset.postProcess page
  report (adjusted ++ [.postProcessed preset.id (Text.utf8Size html)])
  return ⟨options.applyWrap html, markup, compiled.diagnostics⟩

/-- The exporter with a renderer and a compiler that note what they are asked and what they
answer. -/
def watched (e : Exporter δ ε m) : Exporter δ ε (StateT (List (Exchange δ ε)) m) where
  renderer document := noting (.render document) (e.renderer document)
  compiler markup := noting (.compile markup) (e.compiler markup)
  registry := e.registry

/-- The result of an export, and what happened on the way. -/
def run (e : Exporter δ ε m) (document : δ) (ref : PresetRef) (options : ExportOptions) :
    m (Except (ExportError ε) ExportResult × Trace δ ε) := do
  let ((outcome, log), exchanges) ←
    ((e.watched.exportM document ref options).run.run []).run []
  return (outcome, { exchanges, log })

/-- The export for the preset with an identifier. -/
def runFor (e : Exporter δ ε m) (id : String) (document : δ) (options : ExportOptions) :
    m (Except (ExportError ε) ExportResult × Trace δ ε) :=
  e.run document (.byName id.toList) options

/-- The export for Mailchimp. -/
def exportMailchimp (e : Exporter δ ε m) := e.runFor "mailchimp"

/-- The export for SendGrid. -/
def exportSendgrid (e : Exporter δ ε m) := e.runFor "sendgrid"

/-- The export for Brevo. -/
def exportBrevo (e : Exporter δ ε m) := e.runFor "brevo"

/-- The export for Postmark. -/
def exportPostmark (e : Exporter δ ε m) := e.runFor "postmark"

/-- The export for Mailgun. -/
def exportMailgun (e : Exporter δ ε m) := e.runFor "mailgun"

/-- The export for plain handlebars. -/
def exportHandlebars (e : Exporter δ ε m) := e.runFor "handlebars"

end Exporter

/-- One export with the built-in presets. -/
def exportOnce (renderer : δ → Except ε Text) (compiler : Text → Except ε CompileOutput)
    (document : δ) (ref : PresetRef) (options : ExportOptions) :
    Except (ExportError ε) ExportResult × Trace δ ε :=
  Exporter.run (m := Id) { renderer, compiler } document ref options

end Mailout
