import Mailout.Text.Blank

/-!
# Words as parts of a text

Where a text is put together again from some of its words, nothing comes to stand there that did not
stand in one of the words, as long as it has no space.

## Main statements

* `infix_append_cons` — a part without a character lies on one side of it;
* `infix_append_middle` — so it does if it shares no character with the middle of a text;
* `infix_append_cases` — any other part of two texts lies in one of them or goes over the boundary;
* `exists_of_infix_joinWords` — a part of joined words without a space is a part of one of them.
-/

namespace Mailout.Text

/-! ## Parts of a text -/

/-- A part without the character `c` lies in front of `c` or behind it. -/
theorem infix_append_cons {w s t : Text} {c : Char} (hc : c ∉ w) (h : w <:+: s ++ c :: t) :
    w <:+: s ∨ w <:+: t := by
  rcases List.infix_append_iff.mp h with h | h | ⟨w₁, w₂, rfl, hs, ht⟩
  · exact Or.inl h
  · rcases List.infix_cons_iff.mp h with h | h
    · rcases List.prefix_cons_iff.mp h with rfl | ⟨u, rfl, -⟩
      · exact Or.inl (List.nil_infix)
      · exact absurd List.mem_cons_self hc
    · exact Or.inr h
  · rcases List.prefix_cons_iff.mp ht with rfl | ⟨u, rfl, -⟩
    · rw [List.append_nil]
      exact Or.inl hs.isInfix
    · exact absurd (List.mem_append_right w₁ List.mem_cons_self) hc

/-- A part of two texts lies in one of them, or it has something of both. -/
theorem infix_append_cases {w s t : Text} (h : w <:+: s ++ t) :
    w <:+: s ∨ w <:+: t ∨ ∃ w₁ w₂, w = w₁ ++ w₂ ∧ w₁ ≠ [] ∧ w₂ ≠ [] ∧ w₁ <:+ s ∧ w₂ <+: t := by
  rcases List.infix_append_iff.mp h with h | h | ⟨w₁, w₂, rfl, hs, ht⟩
  · exact Or.inl h
  · exact Or.inr (Or.inl h)
  · by_cases hw₁ : w₁ = []
    · rw [hw₁, List.nil_append]
      exact Or.inr (Or.inl ht.isInfix)
    · by_cases hw₂ : w₂ = []
      · rw [hw₂, List.append_nil]
        exact Or.inl hs.isInfix
      · exact Or.inr (Or.inr ⟨w₁, w₂, rfl, hw₁, hw₂, hs, ht⟩)

/-- A part that shares no character with the middle of a text lies on one side of it. -/
theorem infix_append_middle {w s m t : Text} (hne : m ≠ []) (hm : ∀ c ∈ m, c ∉ w) :
    w <:+: s ++ m ++ t ↔ w <:+: s ∨ w <:+: t := by
  constructor
  · intro h
    induction m generalizing s with
    | nil => exact absurd rfl hne
    | cons c m ih =>
      rw [List.append_assoc, List.cons_append] at h
      rcases infix_append_cons (hm c List.mem_cons_self) h with h | h
      · exact Or.inl h
      · by_cases hm' : m = []
        · rw [hm', List.nil_append] at h
          exact Or.inr h
        · rw [← List.nil_append (m ++ t), ← List.append_assoc] at h
          refine (ih hm' (fun c hc => hm c (List.mem_cons_of_mem _ hc)) h).imp (fun h => ?_) id
          rw [List.infix_nil.mp h]
          exact List.nil_infix
  · rintro (h | h)
    · rw [List.append_assoc]
      exact h.trans (List.prefix_append s _).isInfix
    · exact h.trans (List.suffix_append _ t).isInfix

/-- A part does not begin in a text without its first character. -/
theorem infix_append_of_not_mem {w s t : Text} {n : Char} (hn : w.head? = some n) (hs : n ∉ s) :
    w <:+: s ++ t ↔ w <:+: t := by
  obtain ⟨w, rfl⟩ := List.head?_eq_some_iff.mp hn
  induction s with
  | nil => rfl
  | cons c s ih =>
    rw [List.mem_cons, not_or] at hs
    rw [List.cons_append, List.infix_cons_iff, ih hs.2]
    refine or_iff_right ?_
    intro h
    exact hs.1 (List.cons_prefix_cons.mp h).1

/-- A start without the character `d` ends in front of `d`. -/
theorem prefix_of_not_mem {w s t : Text} {d : Char} (hd : d ∉ w) (h : w <+: s ++ d :: t) :
    w <+: s := by
  rcases List.prefix_or_prefix_of_prefix h (List.prefix_append s (d :: t)) with hw | ⟨u, rfl⟩
  · exact hw
  · rcases List.prefix_cons_iff.mp ((List.prefix_append_right_inj s).mp h) with rfl | ⟨u, rfl, -⟩
    · simp
    · exact absurd (List.mem_append_right s List.mem_cons_self) hd

/-! ## Words -/

/-- Joined words have as many characters of a kind as the words, if the space is not one of them. -/
theorem countP_joinWords {p : Char → Bool} (hp : p ' ' = false) (ws : List Text) :
    (joinWords ws).countP p = ws.flatten.countP p := by
  induction ws with
  | nil => rfl
  | cons w ws ih =>
    cases ws with
    | nil => rw [joinWords_singleton, List.flatten_singleton]
    | cons v ws =>
      rw [joinWords_cons_cons, List.countP_append, List.countP_cons_of_neg (by simp [hp]), ih,
        ← List.countP_append]
      rfl

/-- **A part of joined words without a space is a part of one of the words.** -/
theorem exists_of_infix_joinWords {ws : List Text} {w : Text} (hne : w ≠ []) (hw : ' ' ∉ w)
    (h : w <:+: joinWords ws) : ∃ v ∈ ws, w <:+: v := by
  induction ws with
  | nil => exact absurd (List.infix_nil.mp h) hne
  | cons v ws ih =>
    cases ws with
    | nil =>
      rw [joinWords_singleton] at h
      exact ⟨v, List.mem_singleton_self v, h⟩
    | cons u ws =>
      rw [joinWords_cons_cons] at h
      rcases infix_append_cons hw h with h | h
      · exact ⟨v, List.mem_cons_self, h⟩
      · obtain ⟨x, hx, h⟩ := ih h
        exact ⟨x, List.mem_cons_of_mem v hx, h⟩

end Mailout.Text
