import Mailout.Proofs.Text.Search

/-!
# Replacing from left to right

Where the needle stands it is replaced, and the replacing goes on behind it; where it does not, one
character is passed. What is said here holds for every needle that is not empty.

## Main statements

* `replaceAll_append_needle`, `replaceAll_cons` — the two steps;
* `replaceAll_append_of_not_mem` — a text without the needle's first character is passed;
* `replaceAll_eq_self`, `infix_replaceAll` — what comes out without the needle, and with it.
-/

namespace Mailout.Text

theorem after?_eq_none_iff {p s : Text} : after? p s = none ↔ ¬ p <+: s := by
  constructor
  · rintro h ⟨rest, hrest⟩
    rw [after?_eq_some_iff.mpr hrest.symm] at h
    cases h
  · intro h
    cases ha : after? p s with
    | none => rfl
    | some rest => exact absurd ⟨rest, (after?_eq_some_iff.mp ha).symm⟩ h

theorem replaceFrom_of_none {n : Char} {needle text s : Text} (h : cut? (n :: needle) s = none) :
    replaceFrom n needle text s = s := by
  rw [replaceFrom]
  split
  · rfl
  · next h' => rw [h] at h'; cases h'

theorem replaceFrom_of_some {n : Char} {needle text s front rest : Text}
    (h : cut? (n :: needle) s = some (front, rest)) :
    replaceFrom n needle text s = front ++ text ++ replaceFrom n needle text rest := by
  rw [replaceFrom]
  split
  · next h' => rw [h] at h'; cases h'
  · next h' =>
    rw [h] at h'
    obtain ⟨rfl, rfl⟩ := Prod.mk.inj (Option.some.inj h')
    rfl

section Steps

variable {needle text : Text} (hne : needle ≠ [])
include hne

theorem replaceAll_nil : replaceAll needle text [] = [] := by
  obtain ⟨n, needle, rfl⟩ := List.exists_cons_of_ne_nil hne
  exact replaceFrom_of_none rfl

/-- Where the needle stands it is replaced. -/
theorem replaceAll_append_needle (s : Text) :
    replaceAll needle text (needle ++ s) = text ++ replaceAll needle text s := by
  obtain ⟨n, needle, rfl⟩ := List.exists_cons_of_ne_nil hne
  have hcut : cut? (n :: needle) (n :: needle ++ s) = some ([], s) :=
    cut?_of_not_mem List.not_mem_nil s
  exact replaceFrom_of_some hcut

/-- Where the needle does not stand a character is passed. -/
theorem replaceAll_cons {c : Char} {s : Text} (h : ¬ needle <+: c :: s) :
    replaceAll needle text (c :: s) = c :: replaceAll needle text s := by
  obtain ⟨n, needle, rfl⟩ := List.exists_cons_of_ne_nil hne
  have hcut := cut?_cons_of_none (after?_eq_none_iff.mpr h)
  show replaceFrom n needle text (c :: s) = c :: replaceFrom n needle text s
  cases hs : cut? (n :: needle) s with
  | none =>
    rw [hs] at hcut
    rw [replaceFrom_of_none hcut, replaceFrom_of_none hs]
  | some sides =>
    rw [hs] at hcut
    rw [replaceFrom_of_some hcut, replaceFrom_of_some hs]
    rfl

/-- Without the needle a text stays as it is. -/
theorem replaceAll_eq_self {s : Text} (h : ¬ needle <:+: s) : replaceAll needle text s = s := by
  obtain ⟨n, needle, rfl⟩ := List.exists_cons_of_ne_nil hne
  exact replaceFrom_of_none (cut?_eq_none_iff.mpr h)

/-- With the needle a text has the replacement in the end. -/
theorem infix_replaceAll {s : Text} (h : needle <:+: s) : text <:+: replaceAll needle text s := by
  obtain ⟨n, needle, rfl⟩ := List.exists_cons_of_ne_nil hne
  cases hcut : cut? (n :: needle) s with
  | none => exact absurd h (cut?_eq_none_iff.mp hcut)
  | some sides =>
    exact ⟨sides.1, replaceFrom n needle text sides.2, (replaceFrom_of_some hcut).symm⟩

end Steps

/-- A needle is not found at a character that it does not begin with. -/
theorem not_prefix_of_head? {needle s : Text} {n c : Char} (hn : needle.head? = some n)
    (hc : n ≠ c) : ¬ needle <+: c :: s := by
  obtain ⟨needle, rfl⟩ := List.head?_eq_some_iff.mp hn
  exact fun h => hc (List.cons_prefix_cons.mp h).1

/-- A text without the needle's first character is passed. -/
theorem replaceAll_append_of_not_mem {needle text t : Text} {n : Char} (hn : needle.head? = some n)
    (ht : n ∉ t) (s : Text) : replaceAll needle text (t ++ s) = t ++ replaceAll needle text s := by
  have hne : needle ≠ [] := List.ne_nil_of_mem (List.mem_of_head? hn)
  induction t with
  | nil => rfl
  | cons c t ih =>
    rw [List.mem_cons, not_or] at ht
    rw [List.cons_append, replaceAll_cons hne (not_prefix_of_head? hn ht.1), ih ht.2,
      List.cons_append]

end Mailout.Text
