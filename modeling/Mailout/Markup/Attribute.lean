import Mailout.Text.Blank
import Mailout.Text.Search

/-!
# The inside of a tag

After its name a tag holds attributes and ends at `>`. `readTagBody` reads that part; it has no
result when the text ends first.

## Rules

* A name ends at a space, `/`, `>` or `=`. An `=` where a name is due belongs to the name.
* A value is quoted, or it ends at a space or `>`; a `/` in it belongs to it.
* A `/` between attributes is skipped; right in front of `>` it closes the element itself.
* A `>` where a value is due ends the tag. Such a tag is *dangling*.
-/

namespace Mailout

open Text

/-- An attribute of a tag. -/
structure Attribute where
  /-- The name as written. -/
  name : Text
  /-- The value as written, without quotes; empty if there is none. -/
  value : Text
  /-- The attribute's own text in the tag. -/
  source : Text
  deriving DecidableEq, Repr

namespace Attribute

/-- Whether the attribute has this name, in any case of letters. A byte order mark is not part of
a name. -/
def isNamed (name : Text) (a : Attribute) : Bool := sameLetters (dropMark a.name) name

/-- A character that a name goes on with. -/
def isNamePart (c : Char) : Bool := !(isMarkupSpace c || c == '/' || c == '>' || c == '=')

/-- A character that an unquoted value goes on with. -/
def isValuePart (c : Char) : Bool := !(isMarkupSpace c || c == '>')

/-- An attribute, whether it is dangling, and the text after it. -/
structure Reading where
  attr : Attribute
  dangling : Bool
  rest : Text

/-- The value after `=` for the attribute that is called `name` and starts the text `whole`. -/
def readValue (name whole : Text) : Text → Option Reading
  | [] => none
  | c :: s =>
    if c == '>' then some ⟨⟨name, [], name⟩, true, c :: s⟩
    else if c == '"' || c == '\'' then
      (cut? [c] s).map fun (value, rest) => ⟨⟨name, value, consumed whole rest⟩, false, rest⟩
    else
      let rest := s.dropWhile isValuePart
      some ⟨⟨name, c :: s.takeWhile isValuePart, consumed whole rest⟩, false, rest⟩

/-- The attribute whose name begins with `c` and goes on in the text. -/
def read (c : Char) (s : Text) : Option Reading :=
  let name := c :: s.takeWhile isNamePart
  let afterName := s.dropWhile isNamePart
  match afterName.dropWhile isMarkupSpace with
  | '=' :: t => readValue name (c :: s) (t.dropWhile isMarkupSpace)
  | _ => some ⟨⟨name, [], name⟩, false, afterName⟩

theorem readValue_suffix {name whole s : Text} {r : Reading} (h : readValue name whole s = some r) :
    r.rest <:+ s := by
  cases s with
  | nil => simp [readValue] at h
  | cons c s =>
    simp only [readValue] at h
    split at h
    · simp only [Option.some.injEq] at h
      subst h
      exact List.suffix_refl _
    · split at h
      · simp only [Option.map_eq_some_iff, Prod.exists] at h
        obtain ⟨value, rest, hc, rfl⟩ := h
        refine ⟨c :: (value ++ [c]), ?_⟩
        rw [cut?_eq_some hc]
        simp
      · simp only [Option.some.injEq] at h
        subst h
        exact (List.dropWhile_suffix _).trans (List.suffix_cons _ _)

/-- What is left after an attribute is the end of the text after its first character. -/
theorem read_suffix {c : Char} {s : Text} {r : Reading} (h : read c s = some r) : r.rest <:+ s := by
  simp only [read] at h
  split at h
  · next t ht =>
    refine (readValue_suffix h).trans ((List.dropWhile_suffix _).trans ?_)
    refine List.IsSuffix.trans ?_ (List.dropWhile_suffix isNamePart)
    refine List.IsSuffix.trans ?_ (List.dropWhile_suffix isMarkupSpace)
    rw [ht]
    exact List.suffix_cons _ _
  · simp only [Option.some.injEq] at h
    subst h
    exact List.dropWhile_suffix _

/-! ## Writing -/

/-- The text of a value between double quotes. -/
def quoteValue (value : Text) : Text :=
  value.flatMap fun
    | '"' => "&quot;".toList
    | c => [c]

/-- The attribute with another value, written anew. -/
def withValue (a : Attribute) (value : Text) : Attribute :=
  ⟨a.name, quoteValue value, a.name ++ '=' :: '"' :: quoteValue value ++ ['"']⟩

end Attribute

/-! ## The body of a tag -/

/-- What a tag holds after its name. -/
structure TagBody where
  attributes : List Attribute
  selfClosing : Bool
  /-- The tag ends where a value is due. -/
  dangling : Bool
  deriving DecidableEq, Repr

/-- The body of a tag up to its `>`, and the text after it. -/
def readTagBody : Text → Option (TagBody × Text)
  | [] => none
  | '>' :: s => some (⟨[], false, false⟩, s)
  | '/' :: '>' :: s => some (⟨[], true, false⟩, s)
  | c :: s =>
    if c == '/' || isMarkupSpace c then readTagBody s
    else
      match _h : Attribute.read c s with
      | none => none
      | some r =>
        (readTagBody r.rest).map fun (body, rest) =>
          (⟨r.attr :: body.attributes, body.selfClosing, r.dangling || body.dangling⟩, rest)
termination_by s => s.length
decreasing_by
  · simp
  · have := (Attribute.read_suffix _h).length_le
    simp only [List.length_cons]
    omega

theorem readTagBody_suffix {s rest : Text} {b : TagBody} (h : readTagBody s = some (b, rest)) :
    rest <:+ s ∧ rest.length < s.length := by
  fun_induction readTagBody s generalizing b with
  | case1 => simp at h
  | case2 s =>
    simp only [Option.some.injEq, Prod.mk.injEq] at h
    obtain ⟨-, rfl⟩ := h
    exact ⟨List.suffix_cons _ _, by simp⟩
  | case3 s =>
    simp only [Option.some.injEq, Prod.mk.injEq] at h
    obtain ⟨-, rfl⟩ := h
    exact ⟨(List.suffix_cons _ _).trans (List.suffix_cons _ _), by simp only [List.length_cons]; omega⟩
  | case4 c s _ _ hc ih =>
    obtain ⟨h1, h2⟩ := ih h
    exact ⟨h1.trans (List.suffix_cons _ _), by simp only [List.length_cons]; omega⟩
  | case5 => simp at h
  | case6 c s _ _ hc r hr ih =>
    simp only [Option.map_eq_some_iff, Prod.mk.injEq, Prod.exists] at h
    obtain ⟨b', rest', hb, -, rfl⟩ := h
    obtain ⟨h1, h2⟩ := ih hb
    have := Attribute.read_suffix hr
    exact ⟨h1.trans (this.trans (List.suffix_cons _ _)), by
      have := this.length_le
      simp only [List.length_cons]
      omega⟩

end Mailout
