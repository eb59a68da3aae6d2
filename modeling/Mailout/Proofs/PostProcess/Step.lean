import Mailout.PostProcess.Step
import Mailout.Proofs.PostProcess.Footer
import Mailout.Proofs.PostProcess.Widening

/-!
# What runs of steps keep

A step keeps the body ends of a page, and it keeps a text unless it may write something inside it
(`Keeps`). What each step keeps is kept by any number of them (`applyAll_of_apply`).

## Main statements

* `offers_applyAll` — a run of steps with an unsubscribe step among them leaves a page that offers a
  way out.
-/

namespace Mailout.PostProcessStep

open Text

/-! ## One step -/

/-- The step writes nothing inside the text, wherever it stands in a page. -/
def Keeps (w : Text) : PostProcessStep → Prop
  | .ensureUnsubscribe _ => IsUncut w
  | .tripleBraceUrls => UrlSpan.HasNoLonePair w

/-- **A text that a step keeps stays in the page.** -/
theorem infix_apply {step : PostProcessStep} {w html : Text} (hw : step.Keeps w)
    (h : w <:+: html) : w <:+: (step.apply html).1 := by
  cases step with
  | ensureUnsubscribe f => exact UnsubscribeFooter.infix_ensure hw h
  | tripleBraceUrls => exact UrlSpan.infix_tripleBrace hw h

/-- **A page keeps its body end.** -/
theorem cutAtBodyEnd_apply (step : PostProcessStep) {html : Text}
    (h : (cutAtBodyEnd html).isSome = true) : (cutAtBodyEnd (step.apply html).1).isSome = true := by
  cases step with
  | ensureUnsubscribe f => exact UnsubscribeFooter.cutAtBodyEnd_ensure h
  | tripleBraceUrls =>
    obtain ⟨front, s, rfl, hs⟩ := cutAtBodyEnd_isSome_iff.mp h
    obtain ⟨w, rest, rfl, hw, hbraces⟩ := exists_bodyEnd hs
    -- the end tag has no braces, so it is found in the page as it is afterwards
    have hlone : UrlSpan.HasNoLonePair w := UrlSpan.hasNoLonePair_of_not_mem hbraces
    have hstands : w <:+: front ++ (w ++ rest) := ⟨front, rest, by simp⟩
    obtain ⟨front', rest', he⟩ := UrlSpan.infix_tripleBrace hlone hstands
    rw [List.append_assoc] at he
    exact cutAtBodyEnd_isSome_iff.mpr ⟨front', w ++ rest', he.symm, hw rest'⟩

/-! ## A run of steps -/

theorem applyAll_append (steps steps' : List PostProcessStep) (html : Text) :
    (applyAll (steps ++ steps') html).1 = (applyAll steps' (applyAll steps html).1).1 := by
  induction steps generalizing html with
  | nil => rfl
  | cons step steps ih => exact ih _

/-- What every step keeps is kept by all of them one after the other. -/
theorem applyAll_of_apply (P : Text → Prop) {steps : List PostProcessStep} {html : Text}
    (hstep : ∀ step ∈ steps, ∀ html, P html → P (step.apply html).1) (h : P html) :
    P (applyAll steps html).1 := by
  induction steps generalizing html with
  | nil => exact h
  | cons step steps ih =>
    exact ih (fun s hs => hstep s (List.mem_cons_of_mem _ hs)) (hstep step List.mem_cons_self _ h)

/-- **A run of steps with an unsubscribe step among them leaves a page that offers a way out** if
the page has a body end, no token is empty, escaping does not change the link, and the steps that
follow keep the tokens. -/
theorem offers_applyAll {f : UnsubscribeFooter} {before after : List PostProcessStep} {html : Text}
    (hbody : (cutAtBodyEnd html).isSome = true) (htokens : f.tokens ≠ []) (hempty : [] ∉ f.tokens)
    (hlink : escapeQuotedValue f.href = f.href)
    (hkeep : ∀ step ∈ after, ∀ w ∈ f.tokens, step.Keeps w) :
    f.Offers (applyAll (before ++ .ensureUnsubscribe f :: after) html).1 := by
  have hbody' : (cutAtBodyEnd (applyAll before html).1).isSome = true :=
    applyAll_of_apply (fun html => (cutAtBodyEnd html).isSome = true)
      (fun step _ _ => cutAtBodyEnd_apply step) hbody
  obtain ⟨w, hw, hne, hstands⟩ :=
    UnsubscribeFooter.offers_ensure hbody' htokens hempty hlink
  have hkept : w <:+: (applyAll after (f.ensure (applyAll before html).1).1).1 :=
    applyAll_of_apply (w <:+: ·) (fun step hs _ => infix_apply (hkeep step hs w hw)) hstands
  rw [applyAll_append]
  exact ⟨w, hw, hne, hkept⟩

end Mailout.PostProcessStep
