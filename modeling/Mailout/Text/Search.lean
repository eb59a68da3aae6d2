import Mailout.Text.Basic

/-!
# Searching text

`cut? needle s` finds the first place where `needle` stands in `s` and returns the text on both
sides of it. Membership and replacement are built on it.

## Main statements

* `cut?_eq_some` — the two sides with the needle between them are the text;
* `contains_iff` — `contains` is the infix relation.
-/

namespace Mailout.Text

/-- The text before and after the first place where `needle` stands. -/
def cut? (needle : Text) : Text → Option (Text × Text)
  | [] => if needle.isEmpty then some ([], []) else none
  | c :: s =>
    match after? needle (c :: s) with
    | some rest => some ([], rest)
    | none => (cut? needle s).map fun (front, rest) => (c :: front, rest)

theorem cut?_eq_some {needle s front rest : Text} (h : cut? needle s = some (front, rest)) :
    s = front ++ needle ++ rest := by
  induction s generalizing front with
  | nil =>
    simp only [cut?] at h
    split at h
    · simp_all
    · simp at h
  | cons c s ih =>
    simp only [cut?] at h
    split at h
    · next e =>
      simp only [Option.some.injEq, Prod.mk.injEq] at h
      obtain ⟨rfl, rfl⟩ := h
      simpa using after?_eq_some_iff.mp e
    · simp only [Option.map_eq_some_iff, Prod.mk.injEq, Prod.exists] at h
      obtain ⟨f, r, hc, rfl, rfl⟩ := h
      simp [ih hc]

theorem cut?_length {needle s front rest : Text} (h : cut? needle s = some (front, rest)) :
    s.length = front.length + needle.length + rest.length := by
  rw [cut?_eq_some h]
  simp; omega

theorem cut?_isSome_of_infix {needle front rest : Text} :
    (cut? needle (front ++ needle ++ rest)).isSome = true := by
  induction front with
  | nil =>
    have h : after? needle (needle ++ rest) = some rest := after?_eq_some_iff.mpr rfl
    cases e : needle ++ rest with
    | nil =>
      have : needle = [] := by
        cases needle <;> simp_all
      subst this
      simp_all [cut?]
    | cons c s =>
      rw [e] at h
      simp [cut?, h, e]
  | cons c front ih =>
    simp only [List.cons_append, cut?]
    split
    · rfl
    · simpa using ih

/-- Whether `needle` stands somewhere in the text. -/
def contains (needle s : Text) : Bool := (cut? needle s).isSome

theorem contains_iff {needle s : Text} : contains needle s = true ↔ needle <:+: s := by
  constructor
  · intro h
    obtain ⟨⟨front, rest⟩, h⟩ := Option.isSome_iff_exists.mp h
    exact ⟨front, rest, (cut?_eq_some h).symm⟩
  · rintro ⟨front, rest, rfl⟩
    exact cut?_isSome_of_infix

/-! ## Replacing -/

/-- `text` before every character and at the end: what replacing the empty text by it makes. -/
def interleave (text : Text) : Text → Text
  | [] => text
  | c :: s => text ++ c :: interleave text s

/-- Every place where the non-empty text `n :: needle` stands, from left to right and without
overlap, replaced by `text`. -/
def replaceFrom (n : Char) (needle text s : Text) : Text :=
  match _h : cut? (n :: needle) s with
  | none => s
  | some (front, rest) => front ++ text ++ replaceFrom n needle text rest
termination_by s.length
decreasing_by
  have := cut?_length _h
  simp at this
  omega

/-- Every place where `needle` stands replaced by `text`. The empty text stands before every
character and at the end. -/
def replaceAll (needle text s : Text) : Text :=
  match needle with
  | [] => interleave text s
  | n :: needle => replaceFrom n needle text s

end Mailout.Text
