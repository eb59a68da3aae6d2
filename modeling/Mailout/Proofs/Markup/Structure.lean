import Mathlib.Data.List.Forall2
import Mailout.Proofs.Markup.Standing

/-!
# The structure of stripped markup

Stripping keeps the tokens of markup one by one if and only if every token stands: the reader then
comes to each of them as it was written. Otherwise an edited comment ends early and its content
becomes markup, an attribute takes the next one for its value, or the text after a dangling tag
becomes the text of its element.

## Main statements

* `allStand_of_tokensFrom` — markup whose stripped tokens are read back stands;
* `keepsStructure_iff` — when stripping keeps the structure.
-/

namespace Mailout.Markup

open Text Attribute

/-! ## Tokens that are read back stand -/

/-- An edited comment or tag that is read back stands, as far as what follows it goes. -/
theorem stands_nil_of_readToken {ctx : Context} {c c' : Char} {s s' rest rest' : Text} {t : Token}
    (h : readToken ctx c s = (t, rest)) (hcan : t.CanStrip)
    (hs' : t.cleaned.source ++ rest' = c' :: s')
    (hread : readToken ctx c' s' = (t.cleaned, rest')) : Stands ctx [] t := by
  cases t with
  | comment source content =>
    intro text hclean
    obtain ⟨hmode, -, -⟩ := readMarkup_of_readToken h (by simp) (by simp) (by simp)
    rw [Token.cleaned_comment hcan hclean] at hs' hread
    obtain ⟨-, rfl, hmarkup⟩ := readMarkup_of_readToken hread (by simp [Token.commentOf])
      (by simp [Token.commentOf]) (by simp [Token.commentOf])
    obtain rfl : '!' :: '-' :: '-' :: (text ++ '-' :: '-' :: '>' :: rest') = s' := by
      simpa [Token.commentOf, Token.source] using hs'
    exact readMarkup_commentOf_iff.mp hmarkup
  | startTag source tag =>
    intro attrs hclean
    refine ⟨?_, fun _ => trivial⟩
    obtain ⟨hmode, rfl, htag⟩ := readMarkup_of_readToken h (by simp) (by simp) (by simp)
    have htag := isRead_of_readMarkup htag
    have hw := htag.isWritten_cleaned hclean
    rw [Token.cleaned_startTag hclean] at hs' hread
    obtain ⟨-, rfl, hmarkup⟩ := readMarkup_of_readToken hread (by simp [Token.startTagWith])
      (by simp [Token.startTagWith]) (by simp [Token.startTagWith])
    obtain ⟨s'', hs'', hiff, -⟩ :=
      @readMarkup_startTagWith_iff ctx.isForeign tag htag attrs hw rest'
    obtain rfl : s'' = s' := (List.cons.inj (hs''.symm.trans hs')).2
    exact hiff.mp (congrArg Prod.fst hmarkup)
  | char _ => trivial
  | scrap _ => trivial
  | cdata _ => trivial
  | doctype _ => trivial
  | endTag _ _ => trivial

/-- Markup inside a text-only element is its own end tag. -/
theorem endsAt_of_readToken {mode : Mode} {kinds : List ContentKind} {c : Char} {s rest : Text}
    {t : Token} (hmode : mode.IsOpening) (hdata : mode ≠ .data)
    (h : readToken ⟨mode, kinds⟩ c s = (t, rest)) (hchar : ∀ d, t ≠ .char d) :
    c = '<' ∧ (∃ name ∈ mode.endName?, startsTagName ('/' :: name) s = true) ∧
      ((∃ source n, t = .endTag source n) ∨ ∃ source, t = .scrap source) := by
  by_cases hc : c = '<'
  · subst hc
    cases hname : mode.endName? with
    | none =>
      cases mode with
      | data => exact absurd rfl hdata
      | plain => exact absurd (Prod.mk.inj h).1.symm (hchar '<')
      | textOnly n => cases hname
      | script st => cases hname
    | some name =>
      rw [readToken_of_endName hmode hname] at h
      cases hs : startsTagName ('/' :: name) s with
      | false =>
        rw [readOwnEnd_char hs] at h
        exact absurd (Prod.mk.inj h).1.symm (hchar '<')
      | true =>
        refine ⟨rfl, ⟨name, rfl, hs⟩, ?_⟩
        rcases endTag_or_scrap_of_readOwnEnd hs h with ⟨source, n, rfl⟩ | ⟨source, rfl, -⟩
        · exact Or.inl ⟨source, n, rfl⟩
        · exact Or.inr ⟨source, rfl⟩
  · have hread : readToken ⟨mode, kinds⟩ c s = (.char c, s) := by simp [readToken, hc]
    rw [hread] at h
    exact absurd (Prod.mk.inj h).1.symm (hchar c)

/-- The reading of what is written for a token begins with that token. -/
theorem readToken_of_tokensFrom {ctx : Context} {s rest' : Text} {t : Token} {us : List Token}
    (hs : t.source ++ rest' = s) (h : tokensFrom ctx s = t :: us) :
    ∃ c s', s = c :: s' ∧ readToken ctx c s' = (t, rest') ∧
      tokensFrom (ctx.after t rest') rest' = us := by
  cases s with
  | nil =>
    rw [tokensFrom] at h
    cases h
  | cons c s' =>
    obtain ⟨u, r, hread⟩ : ∃ u r, readToken ctx c s' = (u, r) := ⟨_, _, rfl⟩
    rw [tokensFrom_cons hread] at h
    obtain ⟨rfl, rfl⟩ := List.cons.inj h
    obtain rfl : r = rest' := List.append_cancel_left ((source_append hread).trans hs.symm)
    exact ⟨c, s', rfl, hread, rfl⟩

/-- A token that is written as another kind than a comment and a start tag was not edited. -/
theorem cleaned_eq_self {t : Token} (hcan : t.CanStrip)
    (hcomment : ∀ source content, t.cleaned ≠ .comment source content)
    (htag : ∀ source tag, t.cleaned ≠ .startTag source tag) : t.cleaned = t := by
  rcases hcan.cleaned_cases with ht | ⟨_, _, _, -, -, ht⟩ | ⟨_, _, _, -, -, ht⟩
  · exact ht
  · exact absurd ht (hcomment _ _)
  · exact absurd ht (htag _ _)

/-- Markup that is read back inside a text-only element was its end tag. -/
theorem endsAt_of_cleaned {mode : Mode} {kinds : List ContentKind} {c c' : Char}
    {s s' rest rest' : Text} {t : Token} (hmode : mode.IsOpening) (hdata : mode ≠ .data)
    (h : readToken ⟨.data, kinds⟩ c s = (t, rest)) (hcan : t.CanStrip)
    (hstart : SameStart rest rest') (hs' : t.cleaned.source ++ rest' = c' :: s')
    (hread : readToken ⟨mode, kinds⟩ c' s' = (t.cleaned, rest')) (hchar : ∀ d, t ≠ .char d) :
    mode.EndsAt (c :: s) ∧ ((∃ source n, t = .endTag source n) ∨ ∃ source, t = .scrap source) := by
  have hne : ∀ d, t.cleaned ≠ .char d := by
    intro d hd
    have ht := cleaned_eq_self hcan (by simp [hd]) (by simp [hd])
    exact hchar d (ht.symm.trans hd)
  obtain ⟨rfl, ⟨name, hname, hstarts⟩, hkind⟩ := endsAt_of_readToken hmode hdata hread hne
  have ht : t.cleaned = t := by
    rcases hkind with ⟨_, _, hkind⟩ | ⟨_, hkind⟩
    · exact cleaned_eq_self hcan (by simp [hkind]) (by simp [hkind])
    · exact cleaned_eq_self hcan (by simp [hkind]) (by simp [hkind])
  rw [ht] at hs' hkind
  refine ⟨?_, hkind⟩
  have hsource := source_append h
  cases hu : t.source with
  | nil =>
    -- no token is empty
    have hlength := readToken_length ⟨.data, kinds⟩ c s
    rw [h, ← hsource, hu] at hlength
    exact absurd hlength (Nat.lt_irrefl _)
  | cons d u =>
    rw [hu] at hs' hsource
    obtain ⟨rfl, rfl⟩ := List.cons.inj hs'
    obtain ⟨rfl, rfl⟩ := List.cons.inj hsource
    have hslash : ∀ a ∈ '/' :: name, a.toLower ≠ '<' :=
      (hmode.isLetters hname).slash_toLower_ne (show '<'.isAlpha = false by decide) (by decide)
    have hsame : startsTagName ('/' :: name) (u ++ rest) = true := by
      rw [(hstart.append u).startsTagName_eq hslash]
      exact hstarts
    exact Or.inr ⟨name, hname, rfl, hsame⟩

/-- **Two readers that read the same tokens meet at the element's end tag.** -/
theorem textUpToEnd_of_tokensFrom {mode : Mode} {kinds : List ContentKind} {s : Text}
    (hmode : mode.IsOpening) (hdata : mode ≠ .data)
    (hcan : ∀ t ∈ tokensFrom ⟨.data, kinds⟩ s, t.CanStrip)
    (h : tokensFrom ⟨mode, kinds⟩ (written (tokensFrom ⟨.data, kinds⟩ s))
      = (tokensFrom ⟨.data, kinds⟩ s).map Token.cleaned) :
    TextUpToEnd mode (tokensFrom ⟨.data, kinds⟩ s) := by
  generalize hctx : (⟨.data, kinds⟩ : Context) = ctx at hcan h ⊢
  fun_induction tokensFrom ctx s with
  | case1 => trivial
  | case2 ctx c s t rest hread ih =>
    subst hctx
    simp only [List.mem_cons, forall_eq_or_imp] at hcan
    have hstart := sameStart_written _ _ hcan.2
    rw [written_cons, List.map_cons] at h
    obtain ⟨c', s', hs', hread', htail⟩ := readToken_of_tokensFrom rfl h
    by_cases hchar : ∃ d, t = .char d
    · obtain ⟨d, rfl⟩ := hchar
      obtain ⟨rfl, -, hafter⟩ := readToken_opened_of_char hmode hdata hread hstart
      have hcleaned : (Token.char c).cleaned = .char c := rfl
      rw [hcleaned, hafter] at htail
      exact ih rfl hcan.2 htail
    · -- the same token in a page and inside the element: only the end tag is
      obtain ⟨hends, hkind⟩ := endsAt_of_cleaned hmode hdata hread hcan.1 hstart hs' hread'
        fun d hd => hchar ⟨d, hd⟩
      rw [← tokensFrom_cons_source hread] at hends
      rcases hkind with ⟨source, n, rfl⟩ | ⟨source, rfl⟩
      · exact hends
      · exact hends

theorem textUpToEnd_data (ts : List Token) : TextUpToEnd .data ts := by
  induction ts with
  | nil => trivial
  | cons t ts ih =>
    cases t with
    | char _ => exact ih
    | _ => exact Or.inl rfl

/-- A token stands if it is read back and what follows it is. -/
theorem stands_of_tokensFrom {ctx : Context} {c c' : Char} {s s' rest : Text} {t : Token}
    (h : readToken ctx c s = (t, rest)) (hcan : t.CanStrip)
    (hcan' : ∀ u ∈ tokensFrom (ctx.after t rest) rest, u.CanStrip) {rest' : Text}
    (hrest' : rest' = written (tokensFrom (ctx.after t rest) rest))
    (hs' : t.cleaned.source ++ rest' = c' :: s')
    (hread : readToken ctx c' s' = (t.cleaned, rest'))
    (htail : tokensFrom (ctx.after t.cleaned rest') rest'
      = (tokensFrom (ctx.after t rest) rest).map Token.cleaned) :
    Stands ctx (tokensFrom (ctx.after t rest) rest) t := by
  have hnil := stands_nil_of_readToken h hcan hs' hread
  cases t with
  | startTag source tag =>
    intro attrs hclean
    refine ⟨(hnil attrs hclean).1, fun hd => ?_⟩
    -- both readers have the same kinds of content open, and come apart in the mode only
    have hkinds : ctx.kindsAfterStart ⟨tag.name, attrs, tag.body.selfClosing, false⟩
        = ctx.kindsAfterStart tag := kindsAfterStart_eq rfl rfl (others_cleanAttributes? hclean)
    rw [Token.cleaned_startTag hclean, Token.startTagWith, after_startTag, hkinds] at htail
    rw [after_startTag, if_pos hd] at hcan' hrest' htail ⊢
    rw [hrest'] at htail
    by_cases hdata : ctx.opens tag = .data
    · rw [hdata]
      exact textUpToEnd_data _
    · refine textUpToEnd_of_tokensFrom ?_ hdata hcan' htail
      unfold Context.opens
      split
      · trivial
      · exact Mode.isOpening_ofName _
  | comment source content => exact hnil
  | char _ => trivial
  | scrap _ => trivial
  | cdata _ => trivial
  | doctype _ => trivial
  | endTag _ _ => trivial

/-- **Markup whose stripped tokens are read back stands.** -/
theorem allStand_of_tokensFrom {ctx ctx' : Context} {s : Text} (hnamed : ctx.mode.IsNamed)
    (hcan : ∀ t ∈ tokensFrom ctx s, t.CanStrip) (hstep : InStep ctx ctx' (tokensFrom ctx s))
    (h : tokensFrom ctx' (written (tokensFrom ctx s))
      = (tokensFrom ctx s).map Token.cleaned) : AllStand ctx (tokensFrom ctx s) := by
  fun_induction tokensFrom ctx s generalizing ctx' with
  | case1 => trivial
  | case2 ctx c s t rest hread ih =>
    simp only [List.mem_cons, forall_eq_or_imp] at hcan
    have hstart := sameStart_written _ _ hcan.2
    rw [written_cons, List.map_cons] at h
    obtain ⟨c', s', hs', hread', htail⟩ := readToken_of_tokensFrom rfl h
    have hstands : Stands ctx (tokensFrom (ctx.after t rest) rest) t := by
      cases hstep with
      | same => exact stands_of_tokensFrom hread hcan.1 hcan.2 rfl hs' hread' htail
      | @opened kinds mode _ hmode hpage htext =>
        by_cases hdata : mode = .data
        · subst hdata
          exact stands_of_tokensFrom hread hcan.1 hcan.2 rfl hs' hread' htail
        · exact stands_of_textUpToEnd hmode hdata hread (tokensFrom_cons_source hread) htext
    obtain ⟨-, hstep'⟩ := inStep_after hnamed hread hcan.1 hstart hstands hstep
    refine ⟨hstands, ?_⟩
    rw [tokensFrom_source]
    exact ih (Context.isNamed_after hnamed t rest) hcan.2 hstep' htail

/-! ## Structure -/

/-- The two tokens differ at most in the text of a comment, or in a tag's class lists. -/
inductive SameStructure : Token → Token → Prop
  | refl (t : Token) : SameStructure t t
  | comment (source content source' content' : Text) :
      SameStructure (.comment source content) (.comment source' content')
  | startTag {source source' : Text} {tag tag' : StartTag} (hname : tag.name = tag'.name)
      (hself : tag.body.selfClosing = tag'.body.selfClosing)
      (hothers : others tag.attributes = others tag'.attributes) :
      SameStructure (.startTag source tag) (.startTag source' tag')

/-- Read again, stripped markup has the tokens of the markup in the same order, each of them
stripped and otherwise the same. Tokens of the same kinds are not enough: where a comment ends
early, what it held can by chance begin a tag that is like the one behind the comment. -/
def KeepsStructure (markup stripped : Text) : Prop :=
  List.Forall₂ (fun t t' => SameStructure t t' ∧ t.strip = .ok t') (tokens markup) (tokens stripped)

theorem sameStructure_cleaned {t : Token} (hcan : t.CanStrip) : SameStructure t t.cleaned := by
  rcases hcan.cleaned_cases with ht | ⟨_, _, _, rfl, -, ht⟩ | ⟨_, tag, attrs, rfl, hclean, ht⟩
  · rw [ht]
    exact .refl t
  · rw [ht]
    exact .comment _ _ _ _
  · rw [ht]
    exact .startTag rfl rfl (others_cleanAttributes? hclean).symm

/-- The structure is kept if the stripped tokens are read back. -/
theorem keepsStructure_iff_tokens {markup stripped : Text}
    (hcan : ∀ t ∈ tokens markup, t.CanStrip) :
    KeepsStructure markup stripped ↔ tokens stripped = (tokens markup).map Token.cleaned := by
  constructor
  · intro h
    have hcleaned : List.Forall₂ (fun t t' => t' = t.cleaned) (tokens markup) (tokens stripped) :=
      h.imp fun _ _ ht => (Token.strip_eq_ok_iff.mp ht.2).2
    rw [← List.forall₂_eq_eq_eq, List.forall₂_map_right_iff]
    exact hcleaned.flip
  · intro h
    rw [KeepsStructure, h, List.forall₂_map_right_iff, List.forall₂_same]
    exact fun t ht => ⟨sameStructure_cleaned (hcan t ht), hcan t ht⟩

/-- **Stripping keeps the structure of markup if and only if every token stands.** -/
theorem keepsStructure_iff {markup stripped : Text} (h : strip markup = .ok stripped) :
    KeepsStructure markup stripped ↔ AllStand {} (tokens markup) := by
  obtain ⟨hcan, rfl⟩ := strip_eq_ok_iff.mp h
  rw [keepsStructure_iff_tokens hcan]
  constructor
  · exact allStand_of_tokensFrom trivial hcan (.same _ _)
  · exact fun hall => tokensFrom_written trivial hcan hall (.same _ _)

/-- Paragraph, text and comment of this markup stay, so its structure is kept. -/
theorem keepsStructure_paragraph :
    strip "<p class=\"editor-a b\">c</p><!-- class=\"editor-d\" -->".toList
        = .ok "<p class=\"b\">c</p><!-- -->".toList ∧
      KeepsStructure "<p class=\"editor-a b\">c</p><!-- class=\"editor-d\" -->".toList
        "<p class=\"b\">c</p><!-- -->".toList := by
  have h : strip "<p class=\"editor-a b\">c</p><!-- class=\"editor-d\" -->".toList
      = .ok "<p class=\"b\">c</p><!-- -->".toList := by decide +kernel
  exact ⟨h, (keepsStructure_iff h).mpr (by decide +kernel)⟩

/-- An edited comment that begins with `>` ends there: what it held is text of the page. -/
theorem not_keepsStructure_comment :
    strip "<!-- class=\"editor-x\">a-->".toList = .ok "<!-->a-->".toList ∧
      ¬ KeepsStructure "<!-- class=\"editor-x\">a-->".toList "<!-->a-->".toList := by
  refine ⟨by decide +kernel, fun h => ?_⟩
  have hone : (tokens "<!-- class=\"editor-x\">a-->".toList).length = 1 := by decide +kernel
  have hfive : (tokens "<!-->a-->".toList).length = 5 := by decide +kernel
  have hlength := h.length_eq
  rw [hone, hfive] at hlength
  cases hlength

end Mailout.Markup
