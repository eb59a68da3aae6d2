import Mailout.Text.Basic

/-!
# Log entries

What an export reports about its progress, as values. The wording is in `LogEntry.message` alone.
-/

namespace Mailout

/-- A report about the progress of an export. -/
inductive LogEntry where
  /-- A preset was found under the identifier asked for. -/
  | resolved (requested name : Text)
  | started (preset : Text)
  | rendered (bytes : Nat)
  | substituted (preset : Text) (overrides : Nat)
  | compiled (bytes : Nat)
  | issues (count : Nat) (preset : Text)
  | footerInserted (offset : Nat)
  | footerSkipped
  | postProcessed (preset : Text) (bytes : Nat)
  deriving DecidableEq, Repr

namespace LogEntry

/-- Issues of the compiler are a warning; all else is for debugging. -/
def level : LogEntry → String
  | .issues .. => "WARN"
  | _ => "DEBUG"

/-- The wording of an entry. -/
def message : LogEntry → String
  | .resolved requested name =>
    "Resolved preset '" ++ String.ofList requested ++ "' (" ++ String.ofList name ++ ")"
  | .started preset => "Exporting for preset '" ++ String.ofList preset ++ "'"
  | .rendered bytes => "Rendered " ++ toString bytes ++ " bytes of layout markup"
  | .substituted preset overrides =>
    "Resolved merge tags for '" ++ String.ofList preset ++ "' (" ++ toString overrides
      ++ " override(s))"
  | .compiled bytes => "Compiled " ++ toString bytes ++ " bytes of HTML"
  | .issues count preset =>
    "Compiler reported " ++ toString count ++ " issue(s) exporting for '" ++ String.ofList preset
      ++ "'"
  | .footerInserted offset => "Injecting unsubscribe footer at byte " ++ toString offset
  | .footerSkipped => "No </body> found, skipping unsubscribe footer"
  | .postProcessed preset bytes =>
    "Post-processed for '" ++ String.ofList preset ++ "' (" ++ toString bytes ++ " bytes)"

/-- An entry as one line: its level and its wording. -/
def line (e : LogEntry) : String := e.level ++ " " ++ e.message

end LogEntry

end Mailout
