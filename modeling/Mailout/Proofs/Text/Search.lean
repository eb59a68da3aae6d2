import Mailout.Text.Search

/-!
# What a search has read

A reader that stops at a character never looks behind it, and a search that found its needle reads
nothing after it. Both are said here as equations about a text with another ending.

## Main statements

* `takeWhile_append_stop`, `dropWhile_append_stop` — the reading of a class of characters stops at
  the first one outside;
* `after?_append_stop`, `afterLetters?_append_stop` — whether a text starts with another one is
  decided in front of a character that the other one does not have;
* `cut?_singleton_iff` — the first place of one character;
* `cut?_of_not_mem` — the first place of a needle behind a text without its first character;
* `cut?_append` — the first place of a needle does not depend on the text after it.
-/

namespace Mailout.Text

/-! ## Stopping at a character -/

theorem takeWhile_append_stop {p : Char → Bool} {c : Char} (hc : p c = false) (s t : Text) :
    (s ++ c :: t).takeWhile p = s.takeWhile p := by
  induction s with
  | nil => simp [hc]
  | cons d s ih =>
    by_cases hd : p d = true
    · simp [hd, ih]
    · simp [hd]

theorem dropWhile_append_stop {p : Char → Bool} {c : Char} (hc : p c = false) (s t : Text) :
    (s ++ c :: t).dropWhile p = s.dropWhile p ++ c :: t := by
  induction s with
  | nil => simp [hc]
  | cons d s ih =>
    by_cases hd : p d = true
    · simp [hd, ih]
    · simp [hd]

/-- The first character left is outside the class. -/
theorem not_of_mem_head?_dropWhile {p : Char → Bool} {s : Text} {c : Char}
    (h : c ∈ (s.dropWhile p).head?) : p c = false := by
  have := List.head?_dropWhile_not p s
  rw [Option.mem_def.mp h] at this
  simpa using this

/-- A text that begins outside the class is left as it is. -/
theorem dropWhile_eq_self {p : Char → Bool} {s : Text} (h : ∀ c ∈ s.head?, p c = false) :
    s.dropWhile p = s := by
  cases s with
  | nil => rfl
  | cons c s => simp [h c rfl]

theorem takeWhile_eq_nil {p : Char → Bool} {s : Text} (h : ∀ c ∈ s.head?, p c = false) :
    s.takeWhile p = [] := by
  cases s with
  | nil => rfl
  | cons c s => simp [h c rfl]

/-- Characters of the class in front of a text that begins outside it are what is taken. -/
theorem takeWhile_append_eq {p : Char → Bool} {s t : Text} (hs : s.all p = true)
    (ht : ∀ c ∈ t.head?, p c = false) : (s ++ t).takeWhile p = s := by
  rw [List.takeWhile_append_of_pos (List.all_eq_true.mp hs), takeWhile_eq_nil ht, List.append_nil]

theorem dropWhile_append_eq {p : Char → Bool} {s t : Text} (hs : s.all p = true)
    (ht : ∀ c ∈ t.head?, p c = false) : (s ++ t).dropWhile p = t := by
  rw [List.dropWhile_append_of_pos (List.all_eq_true.mp hs), dropWhile_eq_self ht]

/-! ## The start of a text -/

theorem after?_append (p s : Text) : after? p (p ++ s) = some s := after?_eq_some_iff.mpr rfl

/-- A start without the character `d` is found in front of `d` or not at all. -/
theorem after?_append_stop {p : Text} {d : Char} (hd : d ∉ p) (s t : Text) :
    after? p (s ++ d :: t) = (after? p (s ++ [d])).map (· ++ t) := by
  induction p generalizing s with
  | nil => simp [after?]
  | cons a p ih =>
    simp only [List.mem_cons, not_or] at hd
    cases s with
    | nil => simp [after?, Ne.symm hd.1]
    | cons c s =>
      by_cases hc : a = c
      · simp [after?, hc, ih hd.2]
      · simp [after?, hc]

/-- The same up to the case of letters. -/
theorem afterLetters?_append_stop {p : Text} {d : Char} (hd : ∀ a ∈ p, a.toLower ≠ d.toLower)
    (s t : Text) : afterLetters? p (s ++ d :: t) = (afterLetters? p (s ++ [d])).map (· ++ t) := by
  induction p generalizing s with
  | nil => simp [afterLetters?]
  | cons a p ih =>
    simp only [List.mem_cons, forall_eq_or_imp] at hd
    cases s with
    | nil => simp [afterLetters?, hd.1]
    | cons c s =>
      by_cases hc : a.toLower = c.toLower
      · simp [afterLetters?, hc, ih hd.2]
      · simp [afterLetters?, hc]

theorem afterLetters?_append_stop_ne_nil {p : Text} {d : Char}
    (hd : ∀ a ∈ p, a.toLower ≠ d.toLower) (s : Text) : afterLetters? p (s ++ [d]) ≠ some [] := by
  induction p generalizing s with
  | nil => simp [afterLetters?]
  | cons a p ih =>
    simp only [List.mem_cons, forall_eq_or_imp] at hd
    cases s with
    | nil => simp [afterLetters?, hd.1]
    | cons c s =>
      by_cases hc : a.toLower = c.toLower
      · simp [afterLetters?, hc, ih hd.2]
      · simp [afterLetters?, hc]

theorem after?_move {p s t : Text} {d : Char} (hd : d ∉ p) (h : after? p (s ++ d :: t) = none)
    (t' : Text) : after? p (s ++ d :: t') = none := by
  rw [after?_append_stop hd, Option.map_eq_none_iff] at h ⊢
  exact h

theorem afterLetters?_move {p s t : Text} {d : Char} (hd : ∀ a ∈ p, a.toLower ≠ d.toLower)
    (h : afterLetters? p (s ++ d :: t) = none) (t' : Text) :
    afterLetters? p (s ++ d :: t') = none := by
  rw [afterLetters?_append_stop hd, Option.map_eq_none_iff] at h ⊢
  exact h

theorem afterLetters?_move_some {p s t u : Text} {d : Char} (hd : ∀ a ∈ p, a.toLower ≠ d.toLower)
    (h : afterLetters? p (s ++ d :: t) = some (u ++ d :: t)) (t' : Text) :
    afterLetters? p (s ++ d :: t') = some (u ++ d :: t') := by
  rw [afterLetters?_append_stop hd, Option.map_eq_some_iff] at h ⊢
  obtain ⟨v, hv, he⟩ := h
  rw [← List.singleton_append, ← List.append_assoc, List.append_left_inj] at he
  exact ⟨v, hv, by rw [he]; simp⟩

/-- A start that is found in a text with another ending, and lies in front of it, is found. -/
theorem prefix_append_of_length_le {p s t : Text} (hl : p.length ≤ s.length) (h : p <+: s ++ t)
    (t' : Text) : p <+: s ++ t' :=
  (List.prefix_of_prefix_length_le h (List.prefix_append s t) hl).trans (List.prefix_append s t')

/-! ## Whether a needle stands -/

theorem cut?_eq_none_iff {needle s : Text} : cut? needle s = none ↔ ¬ needle <:+: s := by
  rw [← contains_iff, contains, Option.not_isSome_iff_eq_none]

/-! ## The first place of a character -/

/-- Where the needle does not stand the search goes on. -/
theorem cut?_cons_of_none {needle s : Text} {c : Char} (h : after? needle (c :: s) = none) :
    cut? needle (c :: s) = (cut? needle s).map fun p => (c :: p.1, p.2) := by
  rw [cut?, h]

theorem cut?_singleton_iff {d : Char} {s front rest : Text} :
    cut? [d] s = some (front, rest) ↔ s = front ++ d :: rest ∧ d ∉ front := by
  induction s generalizing front with
  | nil => simp [cut?]
  | cons c s ih =>
    by_cases hc : d = c
    · subst hc
      simp only [cut?, after?, beq_self_eq_true, if_true, Option.some.injEq, Prod.mk.injEq]
      constructor
      · rintro ⟨rfl, rfl⟩
        simp
      · rintro ⟨hs, hd⟩
        cases front with
        | nil => simpa using hs
        | cons e front => simp_all
    · rw [cut?_cons_of_none (by simp [after?, hc])]
      cases front with
      | nil => simp [Ne.symm hc]
      | cons e front =>
        simp only [Option.map_eq_some_iff, Prod.mk.injEq, Prod.exists, List.cons.injEq,
          List.cons_append, List.mem_cons, not_or]
        constructor
        · rintro ⟨f, r, hf, ⟨rfl, rfl⟩, rfl⟩
          obtain ⟨rfl, hd⟩ := ih.mp hf
          exact ⟨⟨rfl, rfl⟩, hc, hd⟩
        · rintro ⟨⟨rfl, rfl⟩, -, hd⟩
          exact ⟨front, rest, ih.mpr ⟨rfl, hd⟩, ⟨rfl, rfl⟩, rfl⟩

/-! ## The first place of a needle -/

/-- A text without the needle's first character is all that stands in front of it. -/
theorem cut?_of_not_mem {n : Char} {needle front : Text} (h : n ∉ front) (rest : Text) :
    cut? (n :: needle) (front ++ n :: (needle ++ rest)) = some (front, rest) := by
  induction front with
  | nil =>
    have hafter : after? (n :: needle) (n :: (needle ++ rest)) = some rest := after?_append _ rest
    rw [List.nil_append, cut?, hafter]
  | cons c front ih =>
    rw [List.mem_cons, not_or] at h
    rw [List.cons_append, cut?_cons_of_none (by simp [after?, h.1]), ih h.2]
    rfl

/-- **What follows the needle has no part in finding it.** -/
theorem cut?_append {needle front rest : Text} (hn : needle ≠ [])
    (h : cut? needle (front ++ needle ++ rest) = some (front, rest)) (rest' : Text) :
    cut? needle (front ++ needle ++ rest') = some (front, rest') := by
  induction front with
  | nil =>
    obtain ⟨n, ns, rfl⟩ := List.exists_cons_of_ne_nil hn
    simp only [List.nil_append, List.cons_append]
    rw [cut?, ← List.cons_append, after?_append]
  | cons c front ih =>
    have hnone : ∀ r : Text, after? needle (c :: front ++ needle ++ rest) ≠ some r := by
      intro r hr
      simp only [List.cons_append] at h hr
      rw [cut?, hr] at h
      cases h
    have hnone' : after? needle (c :: front ++ needle ++ rest') = none := by
      cases ha : after? needle (c :: front ++ needle ++ rest') with
      | none => rfl
      | some r =>
        -- the needle would lie in front of `rest'`, and so in front of `rest` too
        obtain ⟨r', hr'⟩ := prefix_append_of_length_le
          (by simp only [List.length_append]; omega) ⟨r, (after?_eq_some_iff.mp ha).symm⟩ rest
        exact absurd (after?_eq_some_iff.mpr hr'.symm) (hnone r')
    simp only [List.cons_append] at h hnone hnone' ⊢
    rw [cut?_cons_of_none (Option.eq_none_iff_forall_ne_some.mpr hnone)] at h
    rw [cut?_cons_of_none hnone']
    simp only [Option.map_eq_some_iff, Prod.mk.injEq, Prod.exists, List.cons.injEq, true_and] at h
    obtain ⟨f, r, hf, rfl, rfl⟩ := h
    rw [ih hf]
    rfl

end Mailout.Text
