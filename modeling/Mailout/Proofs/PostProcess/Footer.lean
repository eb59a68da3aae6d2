import Mailout.PostProcess.Footer
import Mailout.Proofs.Text.Letters
import Mailout.Proofs.Text.Search

/-!
# Whether a page offers a way out

A page offers a way out if one of the footer's tokens stands in it. A token that is empty says
nothing, but it stands in every page, so with one among the tokens no footer is ever put in
(`ensure_of_nil_mem`).

## Main statements

* `offers_ensure_iff` — when a page that has a body end offers a way out afterwards;
* `offers_ensure` — it does if no token is empty and the link is written as it is;
* `infix_ensure` — a text that no body end cuts stays in the page;
* `settled_ensure` — with such tokens a page is settled afterwards: it offers a way out, or it has
  no body end.
-/

namespace Mailout

open Text

/-! ## The end of the body -/

/-- An end tag of the body stands at the start of the text: `</body` in any case of letters, and
behind it `>`, a space, a tab or a line break. -/
def IsBodyEnd (s : Text) : Prop :=
  ∃ tag c rest, s = tag ++ c :: rest ∧ lowerAscii tag = "</body".toList ∧
    c ∈ ['>', ' ', '\t', '\n', '\r']

theorem startsBodyEnd_iff {s : Text} : startsBodyEnd s = true ↔ IsBodyEnd s := by
  unfold startsBodyEnd
  constructor
  · intro h
    split at h
    · next c rest hafter =>
      obtain ⟨tag, rfl, hsame⟩ := afterLetters?_eq_some_iff.mp hafter
      refine ⟨tag, c, rest, rfl, (sameLetters_iff.mp hsame).symm, ?_⟩
      simpa [or_assoc] using h
    · cases h
  · rintro ⟨tag, c, rest, rfl, htag, hc⟩
    have hafter : afterLetters? ['<', '/', 'b', 'o', 'd', 'y'] (tag ++ c :: rest)
        = some (c :: rest) := afterLetters?_eq_some_iff.mpr ⟨tag, rfl, sameLetters_iff.mpr htag.symm⟩
    rw [hafter]
    simpa [or_assoc] using hc

/-- The cut is made if a body end stands somewhere. -/
theorem cutAtBodyEnd_isSome_iff {s : Text} :
    (cutAtBodyEnd s).isSome = true ↔ ∃ front rest, s = front ++ rest ∧ startsBodyEnd rest = true := by
  constructor
  · intro h
    obtain ⟨⟨front, rest⟩, h⟩ := Option.isSome_iff_exists.mp h
    exact ⟨front, rest, (cutAtBodyEnd_append h).symm, startsBodyEnd_of_cutAtBodyEnd h⟩
  · rintro ⟨front, rest, rfl, h⟩
    induction front with
    | nil =>
      cases rest with
      | nil => cases h
      | cons c rest =>
        rw [List.nil_append, cutAtBodyEnd]
        split
        · rfl
        · rw [if_pos h]; rfl
    | cons c front ih =>
      obtain ⟨p, hp⟩ := Option.isSome_iff_exists.mp ih
      rw [List.cons_append, cutAtBodyEnd, hp]
      rfl

/-- What makes a body end is a text without braces at its start, whatever follows it. -/
theorem exists_bodyEnd {s : Text} (h : startsBodyEnd s = true) :
    ∃ w rest, s = w ++ rest ∧ (∀ t, startsBodyEnd (w ++ t) = true) ∧
      ∀ d ∈ w, d ≠ '{' ∧ d ≠ '}' := by
  unfold startsBodyEnd at h
  split at h
  · next c t hafter =>
    obtain ⟨front, rfl, hsame⟩ := afterLetters?_eq_some_iff.mp hafter
    refine ⟨front ++ [c], t, by simp, fun t' => ?_, fun d hd => ?_⟩
    · have hafter' : afterLetters? ['<', '/', 'b', 'o', 'd', 'y'] (front ++ [c] ++ t')
          = some (c :: t') := afterLetters?_eq_some_iff.mpr ⟨front, by simp, hsame⟩
      rw [startsBodyEnd, hafter']
      exact h
    · rcases List.mem_append.mp hd with hd | hd
      · have hlower : d.toLower ∈ lowerAscii ['<', '/', 'b', 'o', 'd', 'y'] := by
          rw [sameLetters_iff.mp hsame]
          exact List.mem_map_of_mem hd
        constructor <;> rintro rfl <;> revert hlower <;> decide
      · rw [List.mem_singleton.mp hd]
        constructor <;> rintro rfl <;> revert h <;> decide
  · cases h

/-- No body end begins behind the first character of the text, whatever follows the text. -/
def IsUncut (w : Text) : Prop :=
  ∀ front rest : Text, w = front ++ rest → front ≠ [] → rest ≠ [] →
    ∀ s, startsBodyEnd (rest ++ s) = false

/-- A body end begins with `<`. -/
theorem isUncut_of_not_mem_tail {w : Text} (h : '<' ∉ w.tail) : IsUncut w := by
  rintro front rest rfl hfront hrest s
  match front, rest with
  | a :: front, c :: rest =>
    have hc : '<'.toLower ≠ c.toLower := fun he =>
      h (by simp [eq_of_toLower_eq he.symm (by decide)])
    have hnone : afterLetters? ['<', '/', 'b', 'o', 'd', 'y'] (c :: rest ++ s) = none := by
      rw [List.cons_append, afterLetters?, if_neg fun he => hc (beq_iff_eq.mp he)]
    rw [startsBodyEnd, hnone]

/-! ## The tokens -/

namespace UnsubscribeFooter

variable {f : UnsubscribeFooter} {html : Text}

/-- A token that is not empty stands in the text. -/
def Offers (f : UnsubscribeFooter) (html : Text) : Prop := ∃ w ∈ f.tokens, w ≠ [] ∧ w <:+: html

theorem isPresentIn_iff : f.isPresentIn html = true ↔ [] ∈ f.tokens ∨ f.Offers html := by
  simp only [isPresentIn, List.any_eq_true, contains_iff]
  constructor
  · rintro ⟨w, hw, h⟩
    by_cases hne : w = []
    · exact .inl (hne ▸ hw)
    · exact .inr ⟨w, hw, hne, h⟩
  · rintro (h | ⟨w, hw, -, h⟩)
    · exact ⟨[], h, List.nil_infix⟩
    · exact ⟨w, hw, h⟩

/-- A page that offers a way out is left as it is. -/
theorem ensure_of_offers (h : f.Offers html) : f.ensure html = (html, []) := by
  rw [ensure, if_pos (isPresentIn_iff.mpr (.inr h))]

/-- With an empty token among the others every page is left as it is. -/
theorem ensure_of_nil_mem (h : [] ∈ f.tokens) (html : Text) : f.ensure html = (html, []) := by
  rw [ensure, if_pos (isPresentIn_iff.mpr (.inl h))]

/-- **A page with a body end offers a way out afterwards** if it did before, or if no token is empty
and it does with the footer in it. -/
theorem offers_ensure_iff {front rest : Text} (h : cutAtBodyEnd html = some (front, rest)) :
    f.Offers (f.ensure html).1 ↔
      f.Offers html ∨ [] ∉ f.tokens ∧ f.Offers (front ++ f.toHtml ++ rest) := by
  by_cases hnil : [] ∈ f.tokens
  · rw [ensure_of_nil_mem hnil]
    simp [hnil]
  by_cases hoffers : f.Offers html
  · rw [ensure_of_offers hoffers]
    simp [hoffers]
  · have hpresent : f.isPresentIn html = false := by
      rw [← Bool.not_eq_true, isPresentIn_iff]
      exact fun h => h.elim hnil hoffers
    rw [ensure, hpresent, h]
    simp [hnil, hoffers]

/-- A footer offers a way out by itself if escaping does not change its link. -/
theorem offers_toHtml (htokens : f.tokens ≠ []) (hempty : [] ∉ f.tokens)
    (hlink : escapeQuotedValue f.href = f.href) : f.Offers f.toHtml := by
  have hmem : f.href ∈ f.tokens := by
    obtain ⟨w, ws, h⟩ := List.exists_cons_of_ne_nil htokens
    rw [href, h]
    exact List.mem_cons_self
  refine ⟨f.href, hmem, fun h => hempty (h ▸ hmem), ?_⟩
  rw [toHtml, hlink]
  exact ⟨frameOpen, frameMiddle ++ escapeContent f.label ++ frameClose, by simp⟩

/-- **A page with a body end offers a way out afterwards** if no token is empty and escaping does
not change the link. -/
theorem offers_ensure (hbody : (cutAtBodyEnd html).isSome = true) (htokens : f.tokens ≠ [])
    (hempty : [] ∉ f.tokens) (hlink : escapeQuotedValue f.href = f.href) :
    f.Offers (f.ensure html).1 := by
  obtain ⟨⟨front, rest⟩, h⟩ := Option.isSome_iff_exists.mp hbody
  obtain ⟨w, hw, hne, hstands⟩ := offers_toHtml htokens hempty hlink
  exact (offers_ensure_iff h).mpr (.inr ⟨hempty, w, hw, hne,
    hstands.trans (List.infix_append front f.toHtml rest)⟩)

/-! ## What stays of a page -/

/-- The text afterwards is the text before, or else the text before offers no way out and the footer
is put in front of a body end. -/
theorem ensure_cases (f : UnsubscribeFooter) (html : Text) :
    (f.ensure html).1 = html ∨ ¬ f.Offers html ∧ ∃ front rest, html = front ++ rest ∧
      IsBodyEnd rest ∧ (f.ensure html).1 = front ++ f.toHtml ++ rest := by
  rw [ensure]
  split
  · exact .inl rfl
  · next habsent =>
    split
    · exact .inl rfl
    · next front rest h =>
      exact .inr ⟨fun hoffers => habsent (isPresentIn_iff.mpr (.inr hoffers)), front, rest,
        (cutAtBodyEnd_append h).symm, startsBodyEnd_iff.mp (startsBodyEnd_of_cutAtBodyEnd h), rfl⟩

/-- **A text that no body end cuts stays where it stands.** -/
theorem infix_ensure {w : Text} (hw : IsUncut w) (h : w <:+: html) : w <:+: (f.ensure html).1 := by
  rcases ensure_cases f html with he | ⟨-, front, rest, rfl, hend, he⟩
  · rwa [he]
  · rw [he]
    have hfront : front <:+: front ++ f.toHtml ++ rest := ⟨[], f.toHtml ++ rest, by simp⟩
    have hrest : rest <:+: front ++ f.toHtml ++ rest := ⟨front ++ f.toHtml, [], by simp⟩
    rcases List.infix_append_iff.mp h with h | h | ⟨w₁, w₂, rfl, h₁, h₂⟩
    · exact h.trans hfront
    · exact h.trans hrest
    · by_cases hne₁ : w₁ = []
      · rw [hne₁, List.nil_append]
        exact h₂.isInfix.trans hrest
      by_cases hne₂ : w₂ = []
      · rw [hne₂, List.append_nil]
        exact h₁.isInfix.trans hfront
      · -- the body end would begin inside the text
        obtain ⟨t, rfl⟩ := h₂
        have hend := startsBodyEnd_iff.mpr hend
        rw [hw w₁ w₂ rfl hne₁ hne₂] at hend
        cases hend

/-- A page keeps its body end. -/
theorem cutAtBodyEnd_ensure (h : (cutAtBodyEnd html).isSome = true) :
    (cutAtBodyEnd (f.ensure html).1).isSome = true := by
  rcases ensure_cases f html with he | ⟨-, front, rest, -, hend, he⟩
  · rwa [he]
  · rw [he]
    exact cutAtBodyEnd_isSome_iff.mpr
      ⟨front ++ f.toHtml, rest, rfl, startsBodyEnd_iff.mpr hend⟩

/-! ## Pages that are settled -/

/-- Nothing is left to do for the page: it offers a way out, or there is no body end to put one
at. -/
def Settled (f : UnsubscribeFooter) (html : Text) : Prop :=
  f.Offers html ∨ ∀ front rest, html = front ++ rest → ¬ IsBodyEnd rest

/-- A page that is settled is left as it is. -/
theorem ensure_of_settled (h : f.Settled html) : (f.ensure html).1 = html := by
  rcases h with h | h
  · rw [ensure_of_offers h]
  · rcases ensure_cases f html with he | ⟨-, front, rest, hcut, hend, -⟩
    · exact he
    · exact absurd hend (h front rest hcut)

/-- **A page is settled afterwards** if no token is empty and escaping does not change the link. -/
theorem settled_ensure (htokens : f.tokens ≠ []) (hempty : [] ∉ f.tokens)
    (hlink : escapeQuotedValue f.href = f.href) (html : Text) : f.Settled (f.ensure html).1 := by
  by_cases hbody : (cutAtBodyEnd html).isSome = true
  · exact .inl (offers_ensure hbody htokens hempty hlink)
  · rcases ensure_cases f html with he | ⟨-, front, rest, hcut, hend, -⟩
    · rw [he]
      refine .inr fun front rest hcut hend => hbody ?_
      exact cutAtBodyEnd_isSome_iff.mpr ⟨front, rest, hcut, startsBodyEnd_iff.mpr hend⟩
    · exact absurd (cutAtBodyEnd_isSome_iff.mpr ⟨front, rest, hcut, startsBodyEnd_iff.mpr hend⟩) hbody

end UnsubscribeFooter

end Mailout
