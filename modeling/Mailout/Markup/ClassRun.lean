import Mailout.Markup.ClassList
import Mailout.Text.Search

/-!
# Class runs

A conditional comment holds markup as its text. What looks like a class attribute there is a *class
run*: spaces, `class=` or `css-class=`, and a value between quotes. `parts` reads a text as class
runs and literal characters; the sources of the parts are the text (`parts_source`).

Where a run has no closing quote, the rest of the text is literal.
-/

namespace Mailout

open Text

/-- A class attribute as it stands in the text of a comment. -/
structure ClassRun where
  /-- The spaces in front of the name, at least one. -/
  space : Text
  /-- The name with its `=`. -/
  name : Text
  quote : Char
  value : Text
  deriving DecidableEq, Repr

namespace ClassRun

/-- The run's text with another value. -/
def withValue (r : ClassRun) (value : Text) : Text :=
  r.space ++ r.name ++ r.quote :: value ++ [r.quote]

/-- The run's own text. -/
def source (r : ClassRun) : Text := r.withValue r.value

/-- Whether the run's value is to be edited. -/
def isDirty (r : ClassRun) : Bool := (ClassList.clean? r.value).isSome

/-- The run without editor tokens; nothing is left of a run without authored tokens. -/
def cleaned (r : ClassRun) : Text :=
  match ClassList.clean? r.value with
  | none => r.source
  | some [] => []
  | some kept => r.withValue kept

/-- The name of a class attribute with its `=` at the start of a text, and what follows. -/
def readName (s : Text) : Option (Text × Text) :=
  match after? "css-class=".toList s with
  | some rest => some ("css-class=".toList, rest)
  | none => (after? "class=".toList s).map ("class=".toList, ·)

/-- What a text starts with. -/
inductive Start where
  /-- No class run. -/
  | other
  /-- A class run without its closing quote. -/
  | unclosed
  | run (r : ClassRun) (rest : Text)

/-- What the text starts with, if its first character is a space. -/
def read (s : Text) : Start :=
  match readName (s.dropWhile isMarkupSpace) with
  | some (name, quote :: rest) =>
    if quote == '"' || quote == '\'' then
      match cut? [quote] rest with
      | some (value, rest) => .run ⟨s.takeWhile isMarkupSpace, name, quote, value⟩ rest
      | none => .unclosed
    else .other
  | _ => .other

theorem readName_append {s name rest : Text} (h : readName s = some (name, rest)) :
    name ++ rest = s := by
  unfold readName at h
  split at h
  · next r hr =>
    simp only [Option.some.injEq, Prod.mk.injEq] at h
    rw [← h.1, ← h.2]
    exact (after?_eq_some_iff.mp hr).symm
  · simp only [Option.map_eq_some_iff, Prod.mk.injEq] at h
    obtain ⟨r, hr, rfl, rfl⟩ := h
    exact (after?_eq_some_iff.mp hr).symm

theorem read_append {s rest : Text} {r : ClassRun} (h : read s = .run r rest) :
    r.source ++ rest = s := by
  unfold read at h
  split at h
  · next name quote rest' hn =>
    split at h
    · split at h
      · next value rest'' hv =>
        simp only [Start.run.injEq] at h
        obtain ⟨rfl, rfl⟩ := h
        have h1 := readName_append hn
        rw [cut?_eq_some hv] at h1
        conv => rhs; rw [← List.takeWhile_append_dropWhile (p := isMarkupSpace) (l := s), ← h1]
        simp [source, withValue]
      · simp at h
    · simp at h
  · simp at h

theorem read_length {s rest : Text} {r : ClassRun} (h : read s = .run r rest) :
    rest.length < s.length := by
  rw [← read_append h]
  simp [source, withValue]; omega

/-! ## Parts of a text -/

/-- A literal character or a class run. -/
inductive Part where
  | literal (c : Char)
  | run (r : ClassRun)
  deriving DecidableEq, Repr

/-- The text a part stands for. -/
def Part.source : Part → Text
  | .literal c => [c]
  | .run r => r.source

/-- The text of a part without editor tokens. -/
def Part.cleaned : Part → Text
  | .literal c => [c]
  | .run r => r.cleaned

/-- Whether a part is to be edited. -/
def Part.isDirty : Part → Bool
  | .literal _ => false
  | .run r => r.isDirty

/-- The text read as class runs and literal characters. -/
def parts : Text → List Part
  | [] => []
  | c :: s =>
    if isMarkupSpace c then
      match _h : read (c :: s) with
      | .other => .literal c :: parts s
      | .unclosed => (c :: s).map .literal
      | .run r rest => .run r :: parts rest
    else .literal c :: parts s
termination_by s => s.length
decreasing_by
  · simp
  · exact read_length _h
  · simp

/-- The parts make up the text. -/
theorem parts_source (s : Text) : (parts s).flatMap Part.source = s := by
  fun_induction parts s with
  | case1 => rfl
  | case2 c s _ _ ih => simp [ih, Part.source]
  | case3 c s _ _ =>
    generalize c :: s = t
    induction t with
    | nil => rfl
    | cons d t ih => simpa [Part.source] using ih
  | case4 c s _ r rest h ih => simp [ih, Part.source, read_append h]
  | case5 c s _ ih => simp [ih, Part.source]

/-- The text without editor tokens in its class runs, or no result if no run is to be edited. -/
def clean? (s : Text) : Option Text :=
  if (parts s).any Part.isDirty then some ((parts s).flatMap Part.cleaned) else none

end ClassRun

end Mailout
