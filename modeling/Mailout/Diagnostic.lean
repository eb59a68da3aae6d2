import Mailout.Json.Writer

/-!
# Diagnostics

What the compiler has to say about a line of its input. A diagnostic is advice: it never ends an
export.
-/

namespace Mailout

/-- A remark of the compiler. -/
structure Diagnostic where
  /-- The line of the compiler's input, from one on. -/
  line : Nat
  message : Text
  deriving DecidableEq, Repr

namespace Diagnostic

/-- The remark for people. -/
def describe (d : Diagnostic) : Text :=
  "line ".toList ++ (toString d.line).toList ++ [':', ' '] ++ d.message

/-- The remark as a JSON object. -/
def toJson (d : Diagnostic) : Text :=
  Json.writeObject
    [("line".toList, (toString d.line).toList), ("message".toList, Json.writeText d.message)]

end Diagnostic

end Mailout
