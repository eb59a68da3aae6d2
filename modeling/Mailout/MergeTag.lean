import Mailout.Text.Blank
import Mailout.Text.Identifier

/-!
# Merge tags

A merge tag is two opening braces, blanks, an identifier, blanks and two closing braces. Everything
else in a text is literal, also a brace run that only looks like a tag.

## Segments

`segments` reads a text from left to right as tags and literal characters; the sources of the
segments are the text (`segments_source`). Listing the tags and naming their variables are views of
the segments. Replacing them is a loop of its own, since what a tag is replaced by may depend on the
tags before it (`replaceM`).

## Termination

A tag that is read is not empty (`read?_length`), so the text left to cut becomes shorter.
-/

namespace Mailout

/-- A merge tag as it stands in a text. -/
structure MergeTag where
  /-- The tag's own text, braces included. -/
  source : Text
  /-- The variable between the braces. -/
  name : Text
  deriving DecidableEq, Repr

namespace MergeTag

open Text

/-! ## The grammar -/

/-- The tag's text is braces, blanks, the name, blanks and braces, and the name is an identifier. -/
def IsWritten (t : MergeTag) : Prop :=
  isIdentifier t.name = true ∧
    ∃ before after : Text, before.all isBlank ∧ after.all isBlank ∧
      t.source = '{' :: '{' :: (before ++ t.name ++ after ++ ['}', '}'])

/-- The tag at the start of a text, and the text after it. -/
def read? : Text → Option (MergeTag × Text)
  | '{' :: '{' :: s =>
    match readIdentifier (trimStart s) with
    | none => none
    | some (name, tail) =>
      match trimStart tail with
      | '}' :: '}' :: rest => some (⟨consumed ('{' :: '{' :: s) rest, name⟩, rest)
      | _ => none
  | _ => none

theorem read?_append {s rest : Text} {t : MergeTag} (h : read? s = some (t, rest)) :
    t.source ++ rest = s ∧ t.IsWritten := by
  unfold read? at h
  split at h
  · next s =>
    split at h
    · simp at h
    · next name tail hname =>
      split at h
      · next rest' htail =>
        simp only [Option.some.injEq, Prod.mk.injEq] at h
        obtain ⟨rfl, rfl⟩ := h
        have e : '{' :: '{' :: s
            = ('{' :: '{' :: (s.takeWhile isBlank ++ name ++ tail.takeWhile isBlank
              ++ ['}', '}'])) ++ rest' := by
          have h1 := List.takeWhile_append_dropWhile (p := isBlank) (l := s)
          have h2 := List.takeWhile_append_dropWhile (p := isBlank) (l := tail)
          have h3 := readIdentifier_append hname
          simp only [trimStart] at h3 htail
          rw [htail] at h2
          simp only [List.cons_append, List.append_assoc, List.nil_append, List.cons.injEq,
            true_and]
          rw [h2, h3, h1]
        refine ⟨consumed_append ⟨_, e.symm⟩, isIdentifier_of_readIdentifier hname,
          s.takeWhile isBlank, tail.takeWhile isBlank, List.all_takeWhile, List.all_takeWhile, ?_⟩
        show consumed ('{' :: '{' :: s) rest' = _
        rw [e]
        exact consumed_of_append _ _
      · simp at h
  · simp at h

theorem read?_length {s rest : Text} {t : MergeTag} (h : read? s = some (t, rest)) :
    rest.length < s.length := by
  obtain ⟨h, -, _, _, -, -, hs⟩ := read?_append h
  rw [← h, hs]
  simp; omega

/-! ## Segments of a text -/

/-- A literal character or a merge tag. -/
inductive Segment where
  | literal (c : Char)
  | tag (t : MergeTag)
  deriving DecidableEq, Repr

/-- The text a segment stands for. -/
def Segment.source : Segment → Text
  | .literal c => [c]
  | .tag t => t.source

/-- The text read as tags and literal characters. After a brace that starts no tag the next
character is tried, so the tag inside a longer brace run is found. -/
def segments : Text → List Segment
  | [] => []
  | c :: s =>
    match _h : read? (c :: s) with
    | some (t, rest) => .tag t :: segments rest
    | none => .literal c :: segments s
termination_by s => s.length
decreasing_by
  · exact read?_length _h
  · simp

/-- The segments make up the text. -/
theorem segments_source (s : Text) : (segments s).flatMap Segment.source = s := by
  fun_induction segments s with
  | case1 => rfl
  | case2 c s t rest h ih => simp [ih, Segment.source, (read?_append h).1]
  | case3 c s h ih => simp [ih, Segment.source]

/-! ## Views of the segments -/

/-- A tag with the byte range it covers. -/
structure Occurrence where
  start : Nat
  stop : Nat
  name : Text
  deriving DecidableEq, Repr

/-- The tags among the segments when the first segment begins at byte `offset`. -/
def occurrencesFrom (offset : Nat) : List Segment → List Occurrence
  | [] => []
  | .literal c :: segs => occurrencesFrom (offset + c.utf8Size) segs
  | .tag t :: segs =>
    let stop := offset + utf8Size t.source
    ⟨offset, stop, t.name⟩ :: occurrencesFrom stop segs

/-- The tags of a text from left to right. -/
def occurrences (s : Text) : List Occurrence := occurrencesFrom 0 (segments s)

/-- The variables of the tags, each once, in the order of first appearance. -/
def names (s : Text) : List Text := ((occurrences s).map Occurrence.name).eraseDups

/-! ## Replacing the tags -/

/-- The text from `last` on with its tags replaced, when all of it up to `s`, which begins at byte
`offset`, has been read. Only a tag with a replacement has the text in front of it written; any
other tag stays in what is written later. -/
def replaceFromM {m : Type → Type} [Monad m] (resolve : Occurrence → m (Option Text)) (last : Text)
    (offset : Nat) : Text → m Text
  | [] => pure last
  | c :: s =>
    match _h : read? (c :: s) with
    | none => replaceFromM resolve last (offset + c.utf8Size) s
    | some (t, rest) => do
      let stop := offset + utf8Size t.source
      match ← resolve ⟨offset, stop, t.name⟩ with
      | none => replaceFromM resolve last stop rest
      | some text =>
        return consumed last (c :: s) ++ text ++ (← replaceFromM resolve rest stop rest)
termination_by s => s.length
decreasing_by
  · simp
  · exact read?_length _h
  · exact read?_length _h

/-- The text with each tag replaced by what `resolve` makes of it, which may depend on what it was
asked before; a tag without a replacement stays as it was written. Replacements are not read
again. -/
def replaceM {m : Type → Type} [Monad m] (resolve : Occurrence → m (Option Text)) (s : Text) :
    m Text :=
  replaceFromM resolve s 0 s

/-- The text with its tags replaced, each by itself. -/
def replace (resolve : Occurrence → Option Text) (s : Text) : Text :=
  Id.run (replaceM (fun o => pure (resolve o)) s)

end MergeTag

end Mailout
