import Mathlib.Data.List.Basic
import Mailout.Proofs.Markup.ClassRun
import Mailout.Proofs.Markup.Rewritten
import Mailout.Proofs.Text.Words

/-!
# Comments that cannot be written

A comment that is read holds no `-->`, and neither does what is left of one of its class runs. A run
of which nothing is left, however, brings together what stood on its two sides. That is the only way
in which cleaning a comment makes a closing sequence, and the only reason for which markup is
refused.

## How it goes

1. A closing sequence of the cleaned text begins in front of some part: it cannot lie in what is left
   of a run, and cannot go over its end either, which is a quote (`exists_prefix_of_infix`).
2. From there on its characters are literal ones, behind runs that go: what is left of another run
   begins with a space (`exists_literal_of_prefix`).

## Main statements

* `closing_infix_cleaned_iff` — when the cleaned text of a comment holds `-->`;
* `strip_isOk_iff` — when markup can be stripped.
-/

namespace Mailout

open Text

namespace ClassRun

/-! ## What is left of a run -/

/-- The text begins with a space and ends with a quote. -/
structure IsFenced (t : Text) : Prop where
  first : ∃ c u, t = c :: u ∧ isMarkupSpace c = true
  last : ∃ u q, t = u ++ [q] ∧ (q = '"' ∨ q = '\'')

/-- Only an empty end of such a text has no quote. -/
theorem IsFenced.eq_nil_of_suffix {t w : Text} (h : IsFenced t) (hw : w <:+ t) (hdouble : '"' ∉ w)
    (hsingle : '\'' ∉ w) : w = [] := by
  obtain ⟨v, q, rfl, hquote⟩ := h.last
  rcases List.suffix_concat_iff.mp hw with rfl | ⟨u, rfl, -⟩
  · rfl
  · rcases hquote with rfl | rfl
    · exact absurd (by simp) hdouble
    · exact absurd (by simp) hsingle

theorem IsRun.isFenced {r : ClassRun} (h : r.IsRun) (value : Text) :
    IsFenced (r.withValue value) := by
  refine ⟨?_, r.space ++ r.name ++ r.quote :: value, r.quote, by simp [withValue], h.quote⟩
  obtain ⟨c, u, hs⟩ := List.exists_cons_of_ne_nil h.space_ne_nil
  refine ⟨c, u ++ r.name ++ r.quote :: value ++ [r.quote], by simp [withValue, hs], ?_⟩
  exact List.all_eq_true.mp h.space c (by rw [hs]; exact List.mem_cons_self)

/-- A run goes, stays as it is, or keeps its authored tokens. -/
theorem cleaned_cases (r : ClassRun) :
    r.cleaned = [] ∨ r.cleaned = r.source ∨
      r.cleaned = r.withValue (joinWords (ClassList.authored r.value)) := by
  unfold cleaned
  cases hc : ClassList.clean? r.value with
  | none => exact Or.inr (Or.inl rfl)
  | some kept =>
    unfold ClassList.clean? at hc
    split at hc
    · obtain rfl := Option.some.inj hc
      cases hk : joinWords (ClassList.authored r.value) with
      | nil => exact Or.inl rfl
      | cons c kept => exact Or.inr (Or.inr rfl)
    · cases hc

theorem IsRun.isFenced_cleaned {r : ClassRun} (h : r.IsRun) :
    r.cleaned = [] ∨ IsFenced r.cleaned := by
  rcases cleaned_cases r with hr | hr | hr
  · exact Or.inl hr
  · exact Or.inr (hr ▸ h.isFenced r.value)
  · exact Or.inr (hr ▸ h.isFenced _)

/-- What is left of a run holds a closing sequence only if the run's value does. -/
theorem IsRun.not_closing_infix_withValue {r : ClassRun} (h : r.IsRun) {value : Text}
    (hvalue : ¬ ['-', '-', '>'] <:+: value) : ¬ ['-', '-', '>'] <:+: r.withValue value := by
  intro hi
  have hquote : r.quote ∉ ['-', '-', '>'] := by
    rcases h.quote with hq | hq
    · rw [hq]; decide
    · rw [hq]; decide
  have hparts : r.withValue value = (r.space ++ r.name) ++ r.quote :: (value ++ r.quote :: []) := by
    simp [withValue]
  rw [hparts] at hi
  rcases infix_append_cons hquote hi with hi | hi
  · -- neither the spaces nor the name have a `>`
    rcases List.mem_append.mp (hi.mem (show '>' ∈ ['-', '-', '>'] by simp)) with hm | hm
    · exact absurd (List.all_eq_true.mp h.space _ hm) (by decide)
    · rcases h.name with hn | hn
      · rw [hn] at hm; exact absurd hm (by decide)
      · rw [hn] at hm; exact absurd hm (by decide)
  · rcases infix_append_cons hquote hi with hi | hi
    · exact hvalue hi
    · exact absurd (List.infix_nil.mp hi) (by simp)

theorem not_closing_infix_cleaned {s : Text} (h : ¬ ['-', '-', '>'] <:+: s) {r : ClassRun}
    (hr : .run r ∈ parts s) : ¬ ['-', '-', '>'] <:+: r.cleaned := by
  have hrun := isRun_of_mem_parts hr
  have hsource : r.source <:+: s := source_infix_of_mem_parts hr
  rcases cleaned_cases r with hc | hc | hc
  · rw [hc]
    simp
  · rw [hc]
    exact fun hi => h (hi.trans hsource)
  · rw [hc]
    refine hrun.not_closing_infix_withValue fun hi => ?_
    obtain ⟨w, hw, hi⟩ := exists_of_infix_joinWords (by simp) (by decide) hi
    have hword : w <:+: r.value := infix_of_mem_words (List.mem_filter.mp hw).1
    have hvalue : r.value <:+: r.source := ⟨r.space ++ r.name ++ [r.quote], [r.quote], by
      simp [source, withValue]⟩
    exact h (((hi.trans hword).trans hvalue).trans hsource)

/-! ## Where a closing sequence comes together -/

/-- A text that begins with no space begins, behind runs that go, with a literal character. -/
theorem exists_literal_of_prefix {ps : List Part}
    (hrun : ∀ r, .run r ∈ ps → r.cleaned = [] ∨ IsFenced r.cleaned) {c : Char} {w : Text}
    (hc : isMarkupSpace c = false) (h : c :: w <+: ps.flatMap Part.cleaned) :
    ∃ gone back, ps = gone ++ .literal c :: back ∧ (∀ p ∈ gone, p.cleaned = []) ∧
      w <+: back.flatMap Part.cleaned := by
  induction ps with
  | nil => cases List.prefix_nil.mp h
  | cons p ps ih =>
    have ih := ih fun r hr => hrun r (List.mem_cons_of_mem p hr)
    rw [List.flatMap_cons] at h
    cases p with
    | literal d =>
      obtain ⟨rfl, hw⟩ := List.cons_prefix_cons.mp h
      exact ⟨[], ps, rfl, by simp, hw⟩
    | run r =>
      rcases hrun r List.mem_cons_self with hr | hr
      · have hgone : (Part.run r).cleaned = [] := hr
        rw [hgone, List.nil_append] at h
        obtain ⟨gone, back, rfl, hall, h⟩ := ih h
        exact ⟨.run r :: gone, back, rfl, List.forall_mem_cons.mpr ⟨hgone, hall⟩, h⟩
      · obtain ⟨d, u, hd, hspace⟩ := hr.first
        have hcleaned : (Part.run r).cleaned = d :: u := hd
        rw [hcleaned, List.cons_append] at h
        obtain ⟨rfl, -⟩ := List.cons_prefix_cons.mp h
        rw [hc] at hspace
        cases hspace

/-- A closing sequence that lies in no run begins in front of some part. -/
theorem exists_prefix_of_infix {ps : List Part}
    (hrun : ∀ r, .run r ∈ ps → r.cleaned = [] ∨ IsFenced r.cleaned)
    (hnot : ∀ r, .run r ∈ ps → ¬ ['-', '-', '>'] <:+: r.cleaned)
    (h : ['-', '-', '>'] <:+: ps.flatMap Part.cleaned) :
    ∃ front back, ps = front ++ back ∧ ['-', '-', '>'] <+: back.flatMap Part.cleaned := by
  induction ps with
  | nil => cases List.infix_nil.mp h
  | cons p ps ih =>
    have ih := ih (fun r hr => hrun r (List.mem_cons_of_mem p hr))
      fun r hr => hnot r (List.mem_cons_of_mem p hr)
    rw [List.flatMap_cons] at h
    have hlater (h : ['-', '-', '>'] <:+: ps.flatMap Part.cleaned) :
        ∃ front back, p :: ps = front ++ back ∧ ['-', '-', '>'] <+: back.flatMap Part.cleaned := by
      obtain ⟨front, back, hps, hback⟩ := ih h
      exact ⟨p :: front, back, by rw [hps, List.cons_append], hback⟩
    cases p with
    | literal c =>
      rcases List.infix_cons_iff.mp h with h | h
      · exact ⟨[], .literal c :: ps, rfl, h⟩
      · exact hlater h
    | run r =>
      rcases List.infix_append_iff.mp h with h | h | ⟨w₁, w₂, hw, hsuffix, h₂⟩
      · exact absurd h (hnot r List.mem_cons_self)
      · exact hlater h
      · -- what lies in the run has no quote, and the run ends with one
        have hmem {c : Char} (hc : c ∈ w₁) : c ∈ ['-', '-', '>'] := by rw [hw]; simp [hc]
        have hnil : w₁ = [] := by
          rcases hrun r List.mem_cons_self with hr | hr
          · have hgone : (Part.run r).cleaned = [] := hr
            rw [hgone] at hsuffix
            exact List.suffix_nil.mp hsuffix
          · exact hr.eq_nil_of_suffix hsuffix (fun hc => absurd (hmem hc) (by decide))
              fun hc => absurd (hmem hc) (by decide)
        rw [hnil, List.nil_append] at hw
        exact hlater (hw ▸ h₂.isInfix)

/-- Two hyphens and a `>` of the text come together: nothing stands between them but class runs that
go, and there is at least one. -/
def JoinsClosing (s : Text) : Prop :=
  ∃ front gone gone' back, parts s = front ++ .literal '-' :: (gone ++ .literal '-' ::
      (gone' ++ .literal '>' :: back)) ∧
    gone ++ gone' ≠ [] ∧ ∀ p ∈ gone ++ gone', p.cleaned = []

theorem flatMap_cleaned_of_gone {gone : List Part} (h : ∀ p ∈ gone, p.cleaned = []) :
    gone.flatMap Part.cleaned = [] := List.flatMap_eq_nil_iff.mpr h

/-- **The cleaned text holds a closing sequence if and only if one comes together** where class runs
go. -/
theorem closing_infix_cleaned_iff {s : Text} (h : ¬ ['-', '-', '>'] <:+: s) :
    ['-', '-', '>'] <:+: (parts s).flatMap Part.cleaned ↔ JoinsClosing s := by
  constructor
  · intro hi
    have hrun (r : ClassRun) (hr : .run r ∈ parts s) : r.cleaned = [] ∨ IsFenced r.cleaned :=
      (isRun_of_mem_parts hr).isFenced_cleaned
    obtain ⟨front, ps, hps, hprefix⟩ :=
      exists_prefix_of_infix hrun (fun r hr => not_closing_infix_cleaned h hr) hi
    rw [hps] at hrun
    have hrun := fun r hr => hrun r (List.mem_append_right front hr)
    -- the three characters one after the other, each behind runs that go
    obtain ⟨gone₀, ps, rfl, -, hprefix⟩ := exists_literal_of_prefix hrun (by decide) hprefix
    have hrun := fun r hr => hrun r (List.mem_append_right gone₀ (List.mem_cons_of_mem _ hr))
    obtain ⟨gone, ps, rfl, hgone, hprefix⟩ := exists_literal_of_prefix hrun (by decide) hprefix
    have hrun := fun r hr => hrun r (List.mem_append_right gone (List.mem_cons_of_mem _ hr))
    obtain ⟨gone', back, rfl, hgone', -⟩ := exists_literal_of_prefix hrun (by decide) hprefix
    refine ⟨front ++ gone₀, gone, gone', back, by rw [hps, List.append_assoc], fun hnil => ?_, ?_⟩
    · -- with nothing between them they would stand in the text itself
      obtain ⟨rfl, rfl⟩ := List.append_eq_nil_iff.mp hnil
      refine h ⟨(front ++ gone₀).flatMap Part.source, back.flatMap Part.source, ?_⟩
      conv => rhs; rw [← parts_source s, hps]
      simp [Part.source]
    · intro p hp
      rcases List.mem_append.mp hp with hp | hp
      · exact hgone p hp
      · exact hgone' p hp
  · rintro ⟨front, gone, gone', back, hps, -, hall⟩
    have hgone := flatMap_cleaned_of_gone fun p hp => hall p (List.mem_append_left gone' hp)
    have hgone' := flatMap_cleaned_of_gone fun p hp => hall p (List.mem_append_right gone hp)
    refine ⟨front.flatMap Part.cleaned, back.flatMap Part.cleaned, ?_⟩
    rw [hps]
    simp [hgone, hgone', Part.cleaned]

/-- Where a closing sequence comes together a run is to be edited. -/
theorem JoinsClosing.any_isDirty {s : Text} (h : JoinsClosing s) :
    (parts s).any Part.isDirty = true := by
  obtain ⟨front, gone, gone', back, hps, hne, hall⟩ := h
  obtain ⟨p, hp⟩ := List.exists_mem_of_ne_nil _ hne
  have hmem : p ∈ parts s := by
    rw [hps]
    rcases List.mem_append.mp hp with hp | hp
    · simp [hp]
    · simp [hp]
  refine List.any_eq_true.mpr ⟨p, hmem, ?_⟩
  cases p with
  | literal c => exact absurd (hall _ hp) (by simp [Part.cleaned])
  | run r =>
    have hr : r.cleaned = [] := hall _ hp
    show (ClassList.clean? r.value).isSome = true
    cases hc : ClassList.clean? r.value with
    | some kept => rfl
    | none =>
      -- a clean run stays, and is not empty
      simp only [cleaned, hc, source, withValue] at hr
      simp at hr

end ClassRun

/-! ## Comments of a text -/

namespace Markup

/-- **No comment that is read holds a `-->`.** -/
theorem not_closing_infix_of_mem_tokensFrom {ctx : Context} {s source content : Text}
    (h : .comment source content ∈ tokensFrom ctx s) : ¬ ['-', '-', '>'] <:+: content := by
  fun_induction tokensFrom ctx s with
  | case1 => cases h
  | case2 ctx c s t rest hread ih =>
    rcases List.mem_cons.mp h with rfl | h
    · obtain ⟨-, -, hmarkup⟩ := readMarkup_of_readToken hread (by simp) (by simp) (by simp)
      obtain ⟨u, -, hu | hu⟩ := content_of_readMarkup hmarkup
      · have hnot := not_closing_infix_readComment u
        rwa [hu] at hnot
      · have hnot := not_mem_readLoose u
        rw [hu] at hnot
        exact fun hi => hnot (hi.mem (by simp))
    · exact ih h

end Markup

open Markup ClassRun

/-! ## Markup that can be stripped -/

theorem Token.canStrip_comment_iff {source content : Text} :
    (Token.comment source content).CanStrip ↔
      ∀ text ∈ clean? (dropMark content), ¬ ['-', '-', '>'] <:+: text := by
  unfold CanStrip cleaned strip
  cases hclean : clean? (dropMark content) with
  | none => simp [hclean]
  | some text =>
    simp only [hclean, Option.mem_def, Option.some.injEq, forall_eq', ← contains_iff]
    cases hcontains : contains ['-', '-', '>'] text with
    | true => simp
    | false => simp

/-- A text without `-->` has none when it is cleaned, unless one comes together. -/
theorem ClassRun.forall_clean?_iff {s : Text} (h : ¬ ['-', '-', '>'] <:+: s) :
    (∀ text ∈ clean? s, ¬ ['-', '-', '>'] <:+: text) ↔ ¬ JoinsClosing s := by
  unfold clean?
  cases hdirty : (parts s).any Part.isDirty with
  | false =>
    have hjoins : ¬ JoinsClosing s := fun hj => by
      rw [hj.any_isDirty] at hdirty
      cases hdirty
    simp [hjoins]
  | true =>
    rw [if_pos rfl, ← closing_infix_cleaned_iff h]
    simp

/-- **Markup can be stripped if and only if no closing sequence comes together in a comment.** -/
theorem strip_isOk_iff (markup : Text) :
    (∃ stripped, strip markup = .ok stripped) ↔
      ∀ source content, .comment source content ∈ tokens markup →
        ¬ JoinsClosing (dropMark content) := by
  simp only [strip_eq_ok_iff, exists_and_left, exists_eq, and_true]
  have hcomment {source content : Text} (hm : .comment source content ∈ tokens markup) :
      (Token.comment source content).CanStrip ↔ ¬ JoinsClosing (dropMark content) := by
    have hnot := not_closing_infix_of_mem_tokensFrom hm
    rw [Token.canStrip_comment_iff, ClassRun.forall_clean?_iff]
    exact fun hi => hnot (hi.trans (dropMark_suffix content).isInfix)
  constructor
  · exact fun hall source content hm => (hcomment hm).mp (hall _ hm)
  · intro hall t ht
    cases t with
    | comment source content => exact (hcomment ht).mpr (hall source content ht)
    | _ => rfl

/-- A run between two hyphens and a `>` goes, and what is left would close the comment. -/
theorem strip_error_comment :
    strip "<!--a- class=\"editor-x\"->-->".toList = .error .closingInComment := by
  decide +kernel

end Mailout
