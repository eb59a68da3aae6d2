import Mathlib.Data.List.Basic
import Mailout.Proofs.Markup.Throughout
import Mailout.Proofs.Markup.Weight

/-!
# Stripping a second time

Stripping stripped markup changes nothing if and only if no token of it is to be edited: an edit
takes weight away, and no other edit can bring it back. Whether a token is to be edited again is
seen on the markup itself, as long as its tokens stand.

## Main statements

* `weight_cleaned_lt` — an edited token loses weight;
* `strip_eq_self_iff` — stripping keeps markup that has clean tokens only;
* `strip_strip_iff` — when stripping a second time changes nothing.
-/

namespace Mailout.Markup

open Text Attribute

/-! ## Clean tokens -/

/-- The token is not to be edited. -/
def IsClean : Token → Prop
  | .comment _ content => ClassRun.clean? (dropMark content) = none
  | .startTag _ tag =>
    ∀ n ∈ annotatedNames, ∀ a ∈ (named n tag.attributes).head?, IsAuthored a.value
  | _ => True

instance : DecidablePred IsClean
  | .comment _ content => inferInstanceAs (Decidable (ClassRun.clean? (dropMark content) = none))
  | .startTag _ tag =>
    inferInstanceAs (Decidable (∀ n ∈ annotatedNames, ∀ a ∈ (named n tag.attributes).head?, _))
  | .char _ | .scrap _ | .cdata _ | .doctype _ | .endTag .. => .isTrue trivial

/-- The token is not to be edited again after it is stripped. -/
def Settles : Token → Prop
  | .comment _ content =>
    ∀ text ∈ ClassRun.clean? (dropMark content), ClassRun.clean? (dropMark text) = none
  | .startTag _ tag =>
    ∀ n ∈ annotatedNames, ∀ a ∈ (remaining n tag.attributes).head?, IsAuthored a.value
  | _ => True

instance : DecidablePred Settles
  | .comment _ content =>
    inferInstanceAs (Decidable (∀ text ∈ ClassRun.clean? (dropMark content), _ = _))
  | .startTag _ tag =>
    inferInstanceAs (Decidable (∀ n ∈ annotatedNames, ∀ a ∈ (remaining n tag.attributes).head?, _))
  | .char _ | .scrap _ | .cdata _ | .doctype _ | .endTag .. => .isTrue trivial

/-- **A stripped token is clean** if and only if it is not to be edited again. -/
theorem settles_iff {t : Token} (hcan : t.CanStrip) : Settles t ↔ IsClean t.cleaned := by
  cases t with
  | startTag source tag =>
    obtain ⟨source', selfClosing, dangling, ht⟩ := Token.cleaned_startTag_eq source tag
    rw [ht]
    refine forall_congr' fun n => forall_congr' fun hn => ?_
    show _ ↔ ∀ a ∈ (named n ((cleanAttributes? tag.attributes).getD tag.attributes)).head?, _
    rw [named_cleanAttributes? _ hn]
  | comment source content =>
    cases hclean : ClassRun.clean? (dropMark content) with
    | none =>
      have ht : (Token.comment source content).cleaned = .comment source content := by
        simp only [Token.cleaned, Token.strip, hclean]
      rw [ht]
      simp only [Settles, IsClean, hclean]
      simp
    | some text =>
      rw [Token.cleaned_comment hcan hclean]
      simp only [Settles, IsClean, hclean, Token.commentOf]
      simp
  | _ => exact Iff.rfl

theorem isClean_startTag_iff {source : Text} {tag : StartTag} :
    IsClean (.startTag source tag) ↔ cleanAttributes? tag.attributes = none := by
  rw [cleanAttributes?_eq_none_iff]
  simp only [cleanAttribute?_eq_none_iff]
  exact Iff.rfl

theorem strip_of_isClean {t : Token} (h : IsClean t) : t.strip = .ok t := by
  cases t with
  | comment source content =>
    have h : ClassRun.clean? (dropMark content) = none := h
    simp only [Token.strip, h]
  | startTag source tag =>
    simp only [Token.strip, isClean_startTag_iff.mp h, Option.elim_none]
  | _ => rfl

/-! ## What an edit takes away -/

theorem readComment_sublist (s : Text) : ((readComment s).1 ++ (readComment s).2).Sublist s := by
  unfold readComment
  split
  · exact List.sublist_cons_self _ _
  · exact (List.sublist_cons_self _ _).trans (List.sublist_cons_self _ _)
  · cases hcut : cutComment s with
    | none =>
      rw [Option.getD_none, List.append_nil]
      exact (prefix_dropBegunClosing s).sublist
    | some p =>
      obtain ⟨content, rest⟩ := p
      obtain ⟨closing, hs, -, -⟩ := exists_cutComment hcut
      rw [Option.getD_some, hs]
      refine List.Sublist.append_left ?_ content
      exact (List.sublist_cons_self _ _).trans (List.sublist_append_right _ _)

theorem readLoose_sublist (s : Text) : ((readLoose s).1 ++ (readLoose s).2).Sublist s := by
  unfold readLoose
  cases hcut : cut? ['>'] s with
  | none => rw [Option.getD_none, List.append_nil]
  | some p =>
    rw [Option.getD_some, cut?_eq_some hcut, List.append_assoc]
    exact List.Sublist.append_left (List.sublist_cons_self _ _) p.1

/-- A comment's own text holds its content. -/
theorem sublist_of_readMarkup {foreign : Bool} {s rest source content : Text}
    (h : readMarkup foreign s = (.comment source content, rest)) :
    (content ++ rest).Sublist s := by
  obtain ⟨t, ht, hread | hread⟩ := content_of_readMarkup h
  · have hsub := readComment_sublist t
    rw [hread] at hsub
    exact hsub.trans ht.sublist
  · have hsub := readLoose_sublist t
    rw [hread] at hsub
    exact hsub.trans ht.sublist

/-- A tag's own text holds its name and its attributes. -/
theorem sublist_of_readMarkup_startTag {foreign : Bool} {s rest source : Text} {tag : StartTag}
    (h : readMarkup foreign s = (.startTag source tag, rest)) :
    (tag.name ++ tag.attributes.flatMap Attribute.source ++ rest).Sublist s := by
  obtain ⟨_, _, t, -, -, -, hspell, rfl⟩ := exists_spells_of_readMarkup h
  rw [List.append_assoc]
  exact (hspell.sources_sublist.append_right rest).append_left tag.name

theorem weight_render (tag : StartTag) :
    weight tag.render = weight tag.name + weight (tag.attributes.flatMap Attribute.source) := by
  have hspaced (as : List Attribute) :
      weight (spaced as) = weight (as.flatMap Attribute.source) := by
    induction as with
    | nil => rfl
    | cons a as ih =>
      have e : spaced (a :: as) = ' ' :: a.source ++ spaced as := rfl
      rw [e, weight_append, weight_cons_of_not (by decide), ih, List.flatMap_cons, weight_append]
  have hending (selfClosing bare : Bool) : weight (tagEnding selfClosing bare) = 0 := by
    cases selfClosing <;> cases bare <;> rfl
  rw [render_eq, weight_cons_of_not (by decide)]
  simp only [weight_append, hspaced, hending, Nat.add_zero]

/-- **An edited token loses weight.** -/
theorem weight_cleaned_lt {ctx : Context} {c : Char} {s rest : Text} {t : Token}
    (h : readToken ctx c s = (t, rest)) (hcan : t.CanStrip) (hdirty : ¬ IsClean t) :
    weight t.cleaned.source < weight t.source := by
  have hsource := source_append h
  cases t with
  | comment source content =>
    obtain ⟨-, rfl, hread⟩ := readMarkup_of_readToken h (by simp) (by simp) (by simp)
    have hsub := weight_le_of_sublist (sublist_of_readMarkup hread)
    have hweight := congrArg weight hsource
    cases hclean : ClassRun.clean? (dropMark content) with
    | none => exact absurd hclean hdirty
    | some text =>
      have hlt := ClassRun.weight_clean?_lt hclean
      have hmark := weight_le_of_sublist (dropMark_suffix content).sublist
      have hcomment : weight (Token.commentOf text).source = weight text := by
        simp [Token.commentOf, Token.source, weight, isHeavy]
      rw [Token.cleaned_comment hcan hclean, hcomment]
      show _ < weight source
      change weight (source ++ rest) = _ at hweight
      rw [weight_append, weight_cons_of_not (by decide)] at hweight
      rw [weight_append] at hsub
      omega
  | startTag source tag =>
    obtain ⟨-, rfl, hread⟩ := readMarkup_of_readToken h (by simp) (by simp) (by simp)
    have hsub := weight_le_of_sublist (sublist_of_readMarkup_startTag hread)
    have hweight := congrArg weight hsource
    cases hclean : cleanAttributes? tag.attributes with
    | none => exact absurd (isClean_startTag_iff.mpr hclean) hdirty
    | some attrs =>
      have hlt := weight_cleanAttributes?_lt (isRead_of_readMarkup hread).attributes hclean
      rw [Token.cleaned_startTag hclean]
      show weight (StartTag.render _) < weight source
      rw [weight_render]
      change weight (source ++ rest) = _ at hweight
      rw [weight_append, weight_cons_of_not (by decide)] at hweight
      simp only [weight_append] at hsub
      show weight tag.name + weight (attrs.flatMap _) < _
      omega
  | _ => exact absurd trivial hdirty

/-- Tokens that weigh as much as what is written for them are clean. -/
theorem isClean_of_weight_le {ctx : Context} {s : Text}
    (hcan : ∀ t ∈ tokensFrom ctx s, t.CanStrip) :
    weight (written (tokensFrom ctx s)) ≤ weight s ∧
      (weight s ≤ weight (written (tokensFrom ctx s)) → ∀ t ∈ tokensFrom ctx s, IsClean t) := by
  fun_induction tokensFrom ctx s with
  | case1 => simp [written]
  | case2 ctx c s t rest h ih =>
    simp only [List.mem_cons, forall_eq_or_imp] at hcan ⊢
    obtain ⟨hle, heq⟩ := ih hcan.2
    have hsource := source_append h
    -- no token gains weight, so one that loses some is not made up for
    rw [written_cons, ← hsource, weight_append, weight_append]
    by_cases hclean : IsClean t
    · have ht : t.cleaned = t := (Token.strip_eq_ok_iff.mp (strip_of_isClean hclean)).2.symm
      rw [ht]
      exact ⟨by omega, fun hge => ⟨hclean, heq (by omega)⟩⟩
    · have hlt := weight_cleaned_lt h hcan.1 hclean
      exact ⟨by omega, fun hge => absurd hge (by omega)⟩

/-! ## Stripping twice -/

/-- **Stripping keeps markup if and only if all its tokens are clean.** -/
theorem strip_eq_self_iff {s : Text} : strip s = .ok s ↔ ∀ t ∈ tokens s, IsClean t := by
  rw [strip_eq_ok_iff]
  constructor
  · rintro ⟨hcan, hs⟩
    exact (isClean_of_weight_le hcan).2 (Nat.le_of_eq (congrArg weight hs))
  · intro h
    have hstrip (t : Token) (ht : t ∈ tokens s) : t.CanStrip ∧ t = t.cleaned :=
      Token.strip_eq_ok_iff.mp (strip_of_isClean (h t ht))
    refine ⟨fun t ht => (hstrip t ht).1, ?_⟩
    conv => lhs; rw [← tokens_source s]
    exact List.flatMap_congr fun t ht => congrArg Token.source (hstrip t ht).2

/-- **Stripping a second time changes nothing** if and only if no token is to be edited again, as
long as tokens stand or a comment that ends early leaves text of the page behind, and every token
that is read from there on is clean (`Throughout`). If all tokens stand, it is a matter of the
single tokens. -/
theorem strip_strip_iff {markup stripped : Text} (h : strip markup = .ok stripped) :
    (strip stripped = .ok stripped ↔ Throughout Settles IsClean {} (tokens markup)) ∧
      (AllStand {} (tokens markup) →
        (strip stripped = .ok stripped ↔ ∀ t ∈ tokens markup, Settles t)) := by
  obtain ⟨hcan, rfl⟩ := strip_eq_ok_iff.mp h
  have hnamed : (Context.mode {}).IsNamed := trivial
  have hiff := throughout_iff (fun _ => settles_iff) (fun _ => trivial) hnamed hcan (.same _ _)
  rw [strip_eq_self_iff]
  exact ⟨hiff.symm, fun hall => hiff.symm.trans (throughout_iff_forall hall)⟩

/-- Two runs in a comment join to a third one, which goes the second time. -/
theorem not_strip_strip_comment :
    strip "<!-- cla class=\"editor-a\"ss=\"editor-b\"-->".toList
        = .ok "<!-- class=\"editor-b\"-->".toList ∧
      strip "<!-- class=\"editor-b\"-->".toList ≠ .ok "<!-- class=\"editor-b\"-->".toList := by
  decide +kernel

/-- No run of this markup joins to another one, and stripping it again changes nothing. -/
theorem strip_strip_paragraph :
    strip "<p class=\"editor-a b\">c</p><!-- class=\"editor-d\" -->".toList
        = .ok "<p class=\"b\">c</p><!-- -->".toList ∧
      strip "<p class=\"b\">c</p><!-- -->".toList = .ok "<p class=\"b\">c</p><!-- -->".toList := by
  have h : strip "<p class=\"editor-a b\">c</p><!-- class=\"editor-d\" -->".toList
      = .ok "<p class=\"b\">c</p><!-- -->".toList := by decide +kernel
  exact ⟨h, (strip_strip_iff h).1.mpr (by decide +kernel)⟩

end Mailout.Markup
