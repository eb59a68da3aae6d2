import Mathlib.Data.List.Basic
import Mailout.Proofs.Export.Stages
import Mailout.Proofs.PostProcess.Footer

/-!
# What Mailchimp is sent

Mailchimp's preset has one step, and that step settles a page (`settled_postProcess`): the page
offers a way out, or there is no body end to put a footer at. In an export it is the last stage
before the wrap, so no stage after it can take the footer out again.
-/

namespace Mailout

open Text

namespace TablePreset

/-- The footer that Mailchimp asks for. -/
def mailchimpFooter : UnsubscribeFooter :=
  { tokens := ["*|UNSUB|*".toList, "*|UNSUBSCRIBE|*".toList] }

theorem offers_mailchimpFooter_iff {html : Text} :
    mailchimpFooter.Offers html ↔
      "*|UNSUB|*".toList <:+: html ∨ "*|UNSUBSCRIBE|*".toList <:+: html := by
  simp [UnsubscribeFooter.Offers, mailchimpFooter]

/-- Mailchimp's only step puts in the footer. -/
theorem mailchimp_postProcess (html : Text) :
    (mailchimp.postProcess html).1 = (mailchimpFooter.ensure html).1 := rfl

/-- **Mailchimp's preset settles every page.** -/
theorem settled_postProcess (html : Text) :
    mailchimpFooter.Settled (mailchimp.postProcess html).1 := by
  have htokens : mailchimpFooter.tokens ≠ [] := by decide
  have hempty : [] ∉ mailchimpFooter.tokens := by decide
  have hlink : escapeQuotedValue mailchimpFooter.href = mailchimpFooter.href := by decide
  exact UnsubscribeFooter.settled_ensure htokens hempty hlink html

end TablePreset

namespace Exporter

open TablePreset

variable {δ ε : Type} {m : Type → Type} {document : δ} {options : ExportOptions}

/-- What comes out for Mailchimp is what its preset makes of the compiled page. -/
theorem ComesOut.exists_page {registry : PresetRegistry} {result : ExportResult}
    {xs : List (Exchange δ ε)}
    (hpreset : registry.get? "mailchimp".toList = some mailchimp.toPreset)
    (hwrap : options.wrap = none)
    (h : ComesOut registry document (.byName "mailchimp".toList) options (.ok result) xs) :
    ∃ compiled page, .compile result.intermediateMarkup (.ok compiled) ∈ xs ∧
      (if options.stripCompiled then strip compiled.html else .ok compiled.html) = .ok page ∧
      result.html = (mailchimp.postProcess page).1 := by
  have hresolve : (registry.resolve (.byName "mailchimp".toList) : Except (ExportError ε) _)
      = .ok (mailchimp.toPreset, [.resolved "mailchimp".toList mailchimp.toPreset.name]) := by
    rw [PresetRegistry.resolve, hpreset]
  cases h with
  | @done preset _ _ _ page compiled resolve strip stripPage =>
    obtain ⟨rfl, -⟩ := Prod.mk.inj (Except.ok.inj (resolve.symm.trans hresolve))
    exact ⟨compiled, page, by simp, stripPage, by rw [hwrap]; rfl⟩

/-- **An export for Mailchimp offers a way out**, or its page has no body end. The page is the
compiled one, stripped if that is asked for, with one footer in front of a body end at most, and
with none if it offered a way out before; Mailchimp's preset has nothing left to do for it. The
compiled page is what the compiler answered when it was asked for the markup in the result, with all
that the compiler's answers always have. -/
theorem mailchimp_offers [Monad m] [LawfulMonad m] {e : Exporter δ ε m} {q : Exchange δ ε → Prop}
    (hpreset : e.registry.get? "mailchimp".toList = some mailchimp.toPreset)
    (hwrap : options.wrap = none) (hq : e.Honours q) :
    Always (fun p => ∀ result, p.1 = .ok result →
      ("*|UNSUB|*".toList <:+: result.html ∨ "*|UNSUBSCRIBE|*".toList <:+: result.html ∨
        ∀ front rest, result.html = front ++ rest → ¬ IsBodyEnd rest) ∧
      (∃ compiled page, .compile result.intermediateMarkup (.ok compiled) ∈ p.2.exchanges ∧
        q (.compile result.intermediateMarkup (.ok compiled)) ∧
        (if options.stripCompiled then strip compiled.html else .ok compiled.html) = .ok page ∧
        (result.html = page ∨ ¬ mailchimpFooter.Offers page ∧ ∃ front rest, page = front ++ rest ∧
          IsBodyEnd rest ∧ result.html = front ++ mailchimpFooter.toHtml ++ rest)) ∧
      (mailchimp.toPreset.postProcess result.html).1 = result.html)
      (e.exportMailchimp document options) := by
  refine Always.imp (always_comesOut hq) ?_
  rintro ⟨outcome, trace⟩ ⟨hout, hanswers⟩ result rfl
  obtain ⟨compiled, page, hcompile, hpage, hhtml⟩ := hout.exists_page hpreset hwrap
  have hsettled : mailchimpFooter.Settled result.html := hhtml ▸ settled_postProcess page
  refine ⟨?_, ⟨compiled, page, hcompile, hanswers _ hcompile, hpage, ?_⟩, ?_⟩
  · rw [← or_assoc, ← offers_mailchimpFooter_iff]
    exact hsettled
  · rw [hhtml, mailchimp_postProcess]
    exact UnsubscribeFooter.ensure_cases mailchimpFooter page
  · show (mailchimp.postProcess result.html).1 = result.html
    rw [mailchimp_postProcess]
    exact UnsubscribeFooter.ensure_of_settled hsettled

/-- A document that is exported for Mailchimp, where the compiler writes the end tag of the body in
capitals. Renderer and compiler are functions here, so the compiled page is the compiler's value. -/
theorem mailchimp_offers_capitals :
    let e : Exporter Text :=
      { renderer := .ok
        compiler := fun markup => .ok { html := "<body>".toList ++ markup ++ "</BODY >".toList } }
    let result : ExportResult :=
      ⟨"<body><p>Hi</p>".toList ++ mailchimpFooter.toHtml ++ "</BODY >".toList,
        "<p>Hi</p>".toList, []⟩
    e.registry.get? "mailchimp".toList = some mailchimp.toPreset ∧
    (e.exportMailchimp "<p class=\"editor-a\">Hi</p>".toList {}).1 = .ok result ∧
    ("*|UNSUB|*".toList <:+: result.html ∨ "*|UNSUBSCRIBE|*".toList <:+: result.html ∨
      ∀ front rest, result.html = front ++ rest → ¬ IsBodyEnd rest) ∧
    (∃ compiled page, e.compiler result.intermediateMarkup = .ok compiled ∧
      strip compiled.html = .ok page ∧
      (result.html = page ∨ ¬ mailchimpFooter.Offers page ∧ ∃ front rest, page = front ++ rest ∧
        IsBodyEnd rest ∧ result.html = front ++ mailchimpFooter.toHtml ++ rest)) ∧
    (mailchimp.toPreset.postProcess result.html).1 = result.html := by
  intro e result
  have hpreset : e.registry.get? "mailchimp".toList = some mailchimp.toPreset := rfl
  have hrun : (e.exportMailchimp "<p class=\"editor-a\">Hi</p>".toList {}).1 = .ok result := by
    decide +kernel
  obtain ⟨hoffers, ⟨compiled, page, -, hcompile, hpage, hfooter⟩, hdone⟩ :=
    always_id_iff.mp (mailchimp_offers hpreset rfl (honours_isBy e)) result hrun
  exact ⟨hpreset, hrun, hoffers, ⟨compiled, page, hcompile, hpage, hfooter⟩, hdone⟩

end Exporter

end Mailout
