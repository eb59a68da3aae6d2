import Mailout.Preset.Builtin
import Mailout.Proofs.PostProcess.Step
import Mathlib.Data.List.Basic

/-!
# Tables that promise a way out

A table with an unsubscribe step is checked for a token to look for. The check asks for one token
that is not empty, while the step looks for all of them, and an empty one is found in every page: a
table can pass the check and leave a page without a way out (`not_offers_empty_token`). Without
empty tokens the promise is kept, if the link shows the token as it is and no later step writes
inside a token (`offers_postProcess`).
-/

namespace Mailout.TablePreset

open Text UnsubscribeFooter

/-- A table that passes the check has a token for each of its unsubscribe steps. -/
theorem exists_token {t : TablePreset} (h : t.validate? = none) {f : UnsubscribeFooter}
    (hf : .ensureUnsubscribe f ∈ t.steps) : ∃ w ∈ f.tokens, w ≠ [] := by
  obtain ⟨-, -, -, -, hsteps⟩ := validate?_eq_none_iff.mp h
  simpa [lacksToken] using hsteps _ hf

/-- **A checked table offers a way out** in every page with a body end and for each of its
unsubscribe steps, if the step has no empty token, escaping does not change its link, and the steps
that follow keep its tokens. -/
theorem offers_postProcess {t : TablePreset} {f : UnsubscribeFooter}
    {before after : List PostProcessStep} {html : Text} (hcheck : t.validate? = none)
    (hsteps : t.steps = before ++ .ensureUnsubscribe f :: after)
    (hbody : (cutAtBodyEnd html).isSome = true) (hempty : [] ∉ f.tokens)
    (hlink : escapeQuotedValue f.href = f.href)
    (hkeep : ∀ step ∈ after, ∀ w ∈ f.tokens, step.Keeps w) :
    f.Offers (t.postProcess html).1 := by
  have htokens : f.tokens ≠ [] := by
    obtain ⟨w, hw, -⟩ := exists_token hcheck (f := f) (by simp [hsteps])
    exact List.ne_nil_of_mem hw
  rw [postProcess, hsteps]
  exact PostProcessStep.offers_applyAll hbody htokens hempty hlink hkeep

/-- Mailchimp's table with URL spans rewritten before and after its own step, and with a second
footer at the end. -/
theorem offers_postProcess_mailchimp :
    let f : UnsubscribeFooter := { tokens := ["*|UNSUB|*".toList, "*|UNSUBSCRIBE|*".toList] }
    let after := [.tripleBraceUrls, .ensureUnsubscribe { tokens := [triple "unsubscribe"] }]
    let t : TablePreset :=
      { mailchimp with steps := [.tripleBraceUrls] ++ .ensureUnsubscribe f :: after }
    let html := "<p>Hello</p></body>".toList
    t.validate? = none ∧ (cutAtBodyEnd html).isSome = true ∧ [] ∉ f.tokens ∧
      escapeQuotedValue f.href = f.href ∧ (∀ step ∈ after, ∀ w ∈ f.tokens, step.Keeps w) ∧
      f.Offers (t.postProcess html).1 := by
  intro f after t html
  have hcheck : t.validate? = none := by decide +kernel
  have hbody : (cutAtBodyEnd html).isSome = true := by decide +kernel
  have hempty : [] ∉ f.tokens := by decide +kernel
  have hlink : escapeQuotedValue f.href = f.href := by decide +kernel
  have hchars : ∀ w ∈ f.tokens, (w.all fun d => d != '{' && d != '}') = true ∧ '<' ∉ w.tail := by
    decide +kernel
  have hkeep : ∀ step ∈ after, ∀ w ∈ f.tokens, step.Keeps w := by
    intro step hstep w hw
    obtain ⟨hbraces, hlt⟩ := hchars w hw
    rcases List.mem_cons.mp hstep with rfl | hstep
    · refine UrlSpan.hasNoLonePair_of_not_mem fun d hd => ?_
      simpa using List.all_eq_true.mp hbraces d hd
    · rw [List.mem_singleton.mp hstep]
      exact isUncut_of_not_mem_tail hlt
  exact ⟨hcheck, hbody, hempty, hlink, hkeep,
    offers_postProcess hcheck rfl hbody hempty hlink hkeep⟩

/-- A table passes the check with an empty token among the others, and leaves a page with a body end
as it is. -/
theorem not_offers_empty_token :
    let f : UnsubscribeFooter := { tokens := [[], "*|UNSUB|*".toList] }
    let t : TablePreset :=
      { id := ['t'], name := ['T'], fallback := .handlebars, steps := [.ensureUnsubscribe f] }
    let html := "<p>Hello</p></body>".toList
    t.validate? = none ∧ .ensureUnsubscribe f ∈ t.steps ∧ (cutAtBodyEnd html).isSome = true ∧
      (t.postProcess html).1 = html ∧ ¬ f.Offers (t.postProcess html).1 := by
  intro f t html
  have hpage : (t.postProcess html).1 = html := by decide +kernel
  refine ⟨by decide +kernel, List.mem_singleton_self _, by decide +kernel, hpage, ?_⟩
  rw [hpage]
  rintro ⟨w, hw, hne, h⟩
  have hcontains : ∀ w ∈ f.tokens, w ≠ [] → contains w html = false := by decide +kernel
  rw [← contains_iff, hcontains w hw hne] at h
  cases h

end Mailout.TablePreset
