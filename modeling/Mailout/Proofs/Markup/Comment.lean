import Mailout.Markup.Comment
import Mailout.Proofs.Text.Search

/-!
# Comments in front of any text

A comment that ends is read up to its end whatever follows it. Between `<!--` and `-->` a content is
read back if and only if it does not end the comment itself (`readComment_closed_iff`).
-/

namespace Mailout.Markup

open Text

/-! ## The content of a comment -/

/-- The content does not end the comment that it stands in, between `<!--` and `-->`. -/
structure IsCommentContent (content : Text) : Prop where
  not_gt : ¬ ['>'] <+: content
  not_dash_gt : ¬ ['-', '>'] <+: content
  not_closing : ¬ ['-', '-', '>'] <:+: content
  not_closing_bang : ¬ ['-', '-', '!', '>'] <:+: content

instance (content : Text) : Decidable (IsCommentContent content) :=
  decidable_of_iff
    ((¬ ['>'] <+: content ∧ ¬ ['-', '>'] <+: content) ∧
      ¬ contains ['-', '-', '>'] content = true ∧ ¬ contains ['-', '-', '!', '>'] content = true)
    ⟨fun h => ⟨h.1.1, h.1.2, mt contains_iff.mpr h.2.1, mt contains_iff.mpr h.2.2⟩,
      fun h => ⟨⟨h.not_gt, h.not_dash_gt⟩, mt contains_iff.mp h.not_closing,
        mt contains_iff.mp h.not_closing_bang⟩⟩

/-- A character that begins no closing sequence belongs to the content. -/
theorem cutComment_cons {c : Char} {s : Text} (h : ¬ ['-', '-', '>'] <+: c :: s)
    (hbang : ¬ ['-', '-', '!', '>'] <+: c :: s) :
    cutComment (c :: s) = (cutComment s).map fun (content, rest) => (c :: content, rest) := by
  rw [cutComment]
  · rintro t rfl rfl
    exact h ⟨t, rfl⟩
  · rintro t rfl rfl
    exact hbang ⟨t, rfl⟩

theorem cutComment_append {content : Text} (h : ¬ ['-', '-', '>'] <:+: content)
    (hbang : ¬ ['-', '-', '!', '>'] <:+: content) (rest : Text) :
    cutComment (content ++ '-' :: '-' :: '>' :: rest) = some (content, rest) := by
  induction content with
  | nil => rfl
  | cons c content ih =>
    have ih := ih (fun hi => h (hi.trans (List.suffix_cons c content).isInfix))
      (fun hi => hbang (hi.trans (List.suffix_cons c content).isInfix))
    rw [List.cons_append, cutComment_cons, ih]
    · rfl
    · rintro ⟨t, ht⟩
      -- a closing sequence that begins in the content ends in it
      match content with
      | [] => simp at ht
      | [d] => simp at ht
      | d :: e :: content =>
        simp only [List.cons_append, List.nil_append, List.cons.injEq] at ht
        obtain ⟨rfl, rfl, rfl, -⟩ := ht
        exact h ⟨[], content, rfl⟩
    · rintro ⟨t, ht⟩
      match content with
      | [] => simp at ht
      | [d] => simp at ht
      | [d, e] => simp at ht
      | d :: e :: f :: content =>
        simp only [List.cons_append, List.nil_append, List.cons.injEq] at ht
        obtain ⟨rfl, rfl, rfl, rfl, -⟩ := ht
        exact hbang ⟨[], content, rfl⟩

/-- The content ends in front of every closing sequence. -/
theorem cutComment_length_le {s content rest front back : Text} {closing : Text}
    (hc : closing = ['-', '-', '>'] ∨ closing = ['-', '-', '!', '>'])
    (hs : s = front ++ closing ++ back) (h : cutComment s = some (content, rest)) :
    content.length ≤ front.length := by
  fun_induction cutComment s generalizing front content rest with
  | case1 s =>
    simp only [Option.some.injEq, Prod.mk.injEq] at h
    simp [← h.1]
  | case2 s =>
    simp only [Option.some.injEq, Prod.mk.injEq] at h
    simp [← h.1]
  | case3 c s h1 h2 ih =>
    simp only [Option.map_eq_some_iff, Prod.mk.injEq, Prod.exists] at h
    obtain ⟨content', rest', hcut, rfl, -⟩ := h
    cases front with
    | nil =>
      rcases hc with rfl | rfl
      · simp only [List.nil_append, List.cons_append, List.cons.injEq] at hs
        exact (h1 back hs.1 hs.2).elim
      · simp only [List.nil_append, List.cons_append, List.cons.injEq] at hs
        exact (h2 back hs.1 hs.2).elim
    | cons d front =>
      simp only [List.cons_append, List.cons.injEq] at hs
      simpa using ih hs.2 hcut
  | case4 => cases h

/-- A closing sequence is found. -/
theorem cutComment_isSome {closing s : Text}
    (hc : closing = ['-', '-', '>'] ∨ closing = ['-', '-', '!', '>']) (h : closing <:+: s) :
    (cutComment s).isSome = true := by
  obtain ⟨front, rest, rfl⟩ := h
  induction front with
  | nil =>
    rcases hc with rfl | rfl
    · rfl
    · rfl
  | cons c front ih =>
    rw [List.cons_append, List.cons_append]
    unfold cutComment
    split
    · rfl
    · rfl
    · next h => cases h; simpa using ih
    · next h => cases h

/-- A closing sequence is found whatever follows it. -/
theorem exists_cutComment {s content rest : Text} (h : cutComment s = some (content, rest)) :
    ∃ closing : Text, s = content ++ (closing ++ '>' :: rest) ∧ 2 ≤ closing.length ∧
      ∀ rest', cutComment (content ++ (closing ++ '>' :: rest')) = some (content, rest') := by
  fun_induction cutComment s generalizing content rest with
  | case1 s =>
    simp only [Option.some.injEq, Prod.mk.injEq] at h
    obtain ⟨rfl, rfl⟩ := h
    exact ⟨['-', '-'], rfl, Nat.le_refl 2, fun _ => rfl⟩
  | case2 s =>
    simp only [Option.some.injEq, Prod.mk.injEq] at h
    obtain ⟨rfl, rfl⟩ := h
    exact ⟨['-', '-', '!'], rfl, by decide, fun _ => rfl⟩
  | case3 c s h1 h2 ih =>
    simp only [Option.map_eq_some_iff, Prod.mk.injEq, Prod.exists] at h
    obtain ⟨content', rest', hcut, rfl, rfl⟩ := h
    obtain ⟨closing, rfl, hl, hread⟩ := ih hcut
    refine ⟨closing, rfl, hl, fun rest => ?_⟩
    -- the closing sequence is as long as what the reader looks at
    have hmove {p : Text} (hp : p.length ≤ 4)
        (hn : ¬ p <+: c :: (content' ++ (closing ++ '>' :: rest'))) :
        ¬ p <+: c :: (content' ++ (closing ++ '>' :: rest)) := by
      intro hq
      have e (r : Text) : c :: (content' ++ (closing ++ '>' :: r))
          = (c :: content' ++ closing ++ ['>']) ++ r := by simp
      rw [e] at hn hq
      refine hn (prefix_append_of_length_le ?_ hq rest')
      simp only [List.length_append, List.length_cons, List.length_nil]
      omega
    rw [List.cons_append, cutComment_cons, hread]
    · rfl
    · refine hmove (by decide) ?_
      rintro ⟨t, ht⟩
      simp only [List.cons_append, List.nil_append, List.cons.injEq] at ht
      exact h1 t ht.1.symm ht.2.symm
    · refine hmove (by decide) ?_
      rintro ⟨t, ht⟩
      simp only [List.cons_append, List.nil_append, List.cons.injEq] at ht
      exact h2 t ht.1.symm ht.2.symm
  | case4 => cases h

theorem prefix_dropBegunClosing (s : Text) : dropBegunClosing s <+: s := by
  have hprefix {r : Text} (front : Text) (h : s.reverse = front ++ r) : r.reverse <+: s := by
    rw [← List.reverse_reverse s, h, List.reverse_append]
    exact List.prefix_append _ _
  unfold dropBegunClosing
  split
  · next r h => exact hprefix ['!', '-', '-'] h
  · next r h => exact hprefix ['-', '-'] h
  · next r h => exact hprefix ['-'] h
  · exact List.prefix_refl s

/-- The content in front of the first closing sequence holds none. -/
theorem not_infix_of_cutComment {s content rest closing : Text}
    (hc : closing = ['-', '-', '>'] ∨ closing = ['-', '-', '!', '>'])
    (h : cutComment s = some (content, rest)) : ¬ closing <:+: content := by
  rintro ⟨front, back, rfl⟩
  obtain ⟨closing', hs, -, -⟩ := exists_cutComment h
  rw [List.append_assoc] at hs
  have hle := cutComment_length_le hc hs h
  simp only [List.length_append] at hle
  rcases hc with rfl | rfl
  · simp at hle; omega
  · simp at hle; omega

/-- The content of a comment holds no `-->`. -/
theorem not_closing_infix_readComment (s : Text) :
    ¬ ['-', '-', '>'] <:+: (readComment s).1 := by
  unfold readComment
  split
  · simp
  · simp
  · cases hcut : cutComment s with
    | none =>
      -- without a closing sequence in the text there is none in a part of it
      intro h
      have hsome := cutComment_isSome (.inl rfl) (h.trans (prefix_dropBegunClosing s).isInfix)
      rw [hcut] at hsome
      cases hsome
    | some p => exact not_infix_of_cutComment (Or.inl rfl) hcut

/-- A loose comment ends at the first `>`. -/
theorem not_mem_readLoose (s : Text) : '>' ∉ (readLoose s).1 := by
  unfold readLoose
  cases hcut : cut? ['>'] s with
  | none =>
    intro h
    obtain ⟨front, back, rfl⟩ := List.append_of_mem h
    rw [cut?_eq_none_iff] at hcut
    exact hcut ⟨front, back, by simp⟩
  | some p => exact (cut?_singleton_iff.mp hcut).2

/-! ## Comments between `<!--` and `-->` -/

theorem readComment_eq {s : Text} (h : ¬ ['>'] <+: s) (hdash : ¬ ['-', '>'] <+: s) :
    readComment s = (cutComment s).getD (dropBegunClosing s, []) := by
  rw [readComment]
  · rintro t rfl
    exact h ⟨t, rfl⟩
  · rintro t rfl
    exact hdash ⟨t, rfl⟩

/-- In front of `-->` the start of a content is a start of the whole. -/
theorem not_prefix_closed {content : Text} (rest : Text) (h : ¬ ['>'] <+: content)
    (hdash : ¬ ['-', '>'] <+: content) :
    ¬ ['>'] <+: content ++ '-' :: '-' :: '>' :: rest ∧
      ¬ ['-', '>'] <+: content ++ '-' :: '-' :: '>' :: rest := by
  match content with
  | [] => simp
  | [c] =>
    refine ⟨fun hp => h ?_, ?_⟩
    · simpa using hp
    · simp
  | c :: d :: content =>
    refine ⟨fun hp => h ?_, fun hp => hdash ?_⟩
    · simpa using hp
    · simpa using hp

/-- **A content is read back if and only if it does not end the comment itself.** -/
theorem readComment_closed_iff {content rest : Text} :
    readComment (content ++ '-' :: '-' :: '>' :: rest) = (content, rest) ↔
      IsCommentContent content := by
  constructor
  · intro h
    have hgt : ¬ ['>'] <+: content := by
      rintro ⟨t, rfl⟩
      simp [readComment] at h
    have hdash : ¬ ['-', '>'] <+: content := by
      rintro ⟨t, rfl⟩
      simp [readComment] at h
    obtain ⟨hgt', hdash'⟩ := not_prefix_closed rest hgt hdash
    obtain ⟨⟨content', rest'⟩, hcut⟩ := Option.isSome_iff_exists.mp
      (cutComment_isSome (.inl rfl) (s := content ++ '-' :: '-' :: '>' :: rest)
        ⟨content, rest, by simp⟩)
    rw [readComment_eq hgt' hdash', hcut] at h
    obtain ⟨rfl, rfl⟩ := Prod.mk.inj h
    exact ⟨hgt, hdash, not_infix_of_cutComment (Or.inl rfl) hcut,
      not_infix_of_cutComment (Or.inr rfl) hcut⟩
  · intro h
    obtain ⟨hgt', hdash'⟩ := not_prefix_closed rest h.not_gt h.not_dash_gt
    rw [readComment_eq hgt' hdash', cutComment_append h.not_closing h.not_closing_bang]
    rfl

/-- A comment that ends is read whatever follows it: one that something follows ends, and one that
cannot be content of another comment. -/
theorem exists_readComment {s content rest : Text} (hend : rest ≠ [] ∨ ¬ IsCommentContent s)
    (h : readComment s = (content, rest)) :
    ∃ u : Text, s = u ++ '>' :: rest ∧ content.Sublist u ∧
      ∀ rest', readComment (u ++ '>' :: rest') = (content, rest') := by
  by_cases hgt : ['>'] <+: s
  · obtain ⟨t, rfl⟩ := hgt
    obtain ⟨rfl, rfl⟩ := Prod.mk.inj h
    exact ⟨[], rfl, .slnil, fun _ => rfl⟩
  · by_cases hdash : ['-', '>'] <+: s
    · obtain ⟨t, rfl⟩ := hdash
      obtain ⟨rfl, rfl⟩ := Prod.mk.inj h
      exact ⟨['-'], rfl, by simp, fun _ => rfl⟩
    · rw [readComment_eq hgt hdash] at h
      cases hcut : cutComment s with
      | none =>
        rw [hcut] at h
        have hno {closing : Text}
            (hc : closing = ['-', '-', '>'] ∨ closing = ['-', '-', '!', '>']) :
            ¬ closing <:+: s := by
          intro hi
          have hsome := cutComment_isSome hc hi
          rw [hcut] at hsome
          cases hsome
        rcases hend with hrest | hnot
        · exact absurd (Prod.mk.inj h).2.symm hrest
        · exact absurd ⟨hgt, hdash, hno (.inl rfl), hno (.inr rfl)⟩ hnot
      | some p =>
        rw [hcut] at h
        obtain rfl : p = (content, rest) := h
        obtain ⟨closing, rfl, hl, hread⟩ := exists_cutComment hcut
        refine ⟨content ++ closing, by simp, List.sublist_append_left _ _, fun rest' => ?_⟩
        have hmove {p : Text} (hp : p.length ≤ 2)
            (hn : ¬ p <+: content ++ (closing ++ '>' :: rest)) :
            ¬ p <+: content ++ (closing ++ '>' :: rest') := by
          intro hq
          rw [← List.append_assoc] at hn hq
          refine hn (prefix_append_of_length_le ?_ hq _)
          rw [List.length_append]
          omega
        rw [List.append_assoc, readComment_eq (hmove (by decide) hgt) (hmove (by decide) hdash),
          hread]
        rfl

/-- A loose comment that ends is read whatever follows it. -/
theorem exists_readLoose {s content rest : Text} (hrest : rest ≠ [])
    (h : readLoose s = (content, rest)) :
    s = content ++ '>' :: rest ∧
      ∀ rest', readLoose (content ++ '>' :: rest') = (content, rest') := by
  unfold readLoose at h
  cases hcut : cut? ['>'] s with
  | none =>
    rw [hcut] at h
    exact absurd (Prod.mk.inj h).2.symm hrest
  | some p =>
    rw [hcut] at h
    obtain rfl : p = (content, rest) := h
    obtain ⟨rfl, hgt⟩ := cut?_singleton_iff.mp hcut
    refine ⟨rfl, fun rest' => ?_⟩
    rw [readLoose, cut?_singleton_iff.mpr ⟨rfl, hgt⟩]
    rfl

end Mailout.Markup
