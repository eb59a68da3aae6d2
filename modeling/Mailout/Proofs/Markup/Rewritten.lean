import Mailout.Proofs.Markup.Cleaning
import Mailout.Proofs.Markup.Reread

/-!
# Reading a token that was written anew

A comment written between `<!--` and `-->` is read back if its content does not end it, and a start
tag if none of its attributes takes the next one for its value.

## Main statements

* `readMarkup_commentOf_iff`, `readMarkup_startTagWith_iff` — exactly these are read back;
* `content_of_readMarkup` — what the content of a comment was read from;
* `exists_spells_of_readMarkup` — how a start tag that is read is spelled.
-/

namespace Mailout.Markup

open Text

/-! ## Kinds of tokens -/

/-- Only in a page and in foreign content is there more than characters and an end tag. -/
theorem readMarkup_of_readToken {ctx : Context} {c : Char} {s rest : Text} {t : Token}
    (h : readToken ctx c s = (t, rest)) (hchar : ∀ d, t ≠ .char d) (hscrap : ∀ u, t ≠ .scrap u)
    (hend : ∀ u n, t ≠ .endTag u n) :
    ctx.mode = .data ∧ c = '<' ∧ readMarkup ctx.isForeign s = (t, rest) := by
  have hown {name : Text} (h : readOwnEnd name s = (t, rest)) : False := by
    unfold readOwnEnd readTag at h
    split at h
    · split at h
      · split at h
        · exact hend _ _ (Prod.mk.inj h).1.symm
        · exact hscrap _ (Prod.mk.inj h).1.symm
      · exact hchar _ (Prod.mk.inj h).1.symm
    · exact hchar _ (Prod.mk.inj h).1.symm
  unfold readToken at h
  split at h
  · next hc =>
    split at h
    · next hmode => exact ⟨hmode, by simpa using hc, h⟩
    · exact (hown h).elim
    · split at h
      · exact absurd (Prod.mk.inj h).1.symm (hchar _)
      · exact (hown h).elim
    · exact absurd (Prod.mk.inj h).1.symm (hchar _)
  · exact absurd (Prod.mk.inj h).1.symm (hchar _)

/-! ## Comments -/

/-- What the content of a comment was read from, behind its opening. -/
theorem content_of_readDeclaration {foreign : Bool} {s rest source content : Text}
    (h : readDeclaration foreign s = (.comment source content, rest)) :
    ∃ t, t <:+ s ∧ (readComment t = (content, rest) ∨ readLoose t = (content, rest)) := by
  have hloose (h : readDeclaration foreign s
      = (.comment (consumed ('<' :: '!' :: s) (readLoose s).2) (readLoose s).1, (readLoose s).2))
      (h' : readDeclaration foreign s = (.comment source content, rest)) :
      readLoose s = (content, rest) := by
    obtain ⟨htoken, hrest⟩ := Prod.mk.inj (h.symm.trans h')
    exact Prod.ext (Token.comment.inj htoken).2 hrest
  cases hcomment : after? ['-', '-'] s with
  | some t =>
    obtain rfl := after?_eq_some_iff.mp hcomment
    obtain ⟨htoken, hrest⟩ := Prod.mk.inj ((readDeclaration_comment foreign t).symm.trans h)
    exact ⟨t, List.suffix_append _ _, Or.inl (Prod.ext (Token.comment.inj htoken).2 hrest)⟩
  | none =>
    refine ⟨s, List.suffix_refl s, Or.inr ?_⟩
    cases hd : afterLetters? "doctype".toList s with
    | some t =>
      rw [readDeclaration_doctype hcomment hd] at h
      cases h
    | none =>
      cases hc : after? "[CDATA[".toList s with
      | none => exact hloose (readDeclaration_loose hcomment hd fun _ => hc) h
      | some t =>
        cases foreign with
        | false => exact hloose (readDeclaration_loose hcomment hd (by simp)) h
        | true =>
          rw [readDeclaration_cdata hcomment hd hc] at h
          cases h

/-- **A comment's content is that of one of the two forms of comments.** -/
theorem content_of_readMarkup {foreign : Bool} {s rest source content : Text}
    (h : readMarkup foreign s = (.comment source content, rest)) :
    ∃ t, t <:+ s ∧ (readComment t = (content, rest) ∨ readLoose t = (content, rest)) := by
  have hloose {whole t : Text} (h : readLooseComment whole t = (.comment source content, rest)) :
      readLoose t = (content, rest) := by
    rw [readLooseComment_eq] at h
    obtain ⟨htoken, hrest⟩ := Prod.mk.inj h
    exact Prod.ext (Token.comment.inj htoken).2 hrest
  have htag {make : Text → Text → TagBody → Token} {whole t : Text}
      (hmake : ∀ u n b, make u n b ≠ .comment source content)
      (h : readTag make whole t = (.comment source content, rest)) : False := by
    unfold readTag at h
    split at h
    · exact hmake _ _ _ (Prod.mk.inj h).1
    · cases h
  unfold readMarkup at h
  split at h
  · obtain ⟨t, ht, hread⟩ := content_of_readDeclaration h
    exact ⟨t, ht.trans (List.suffix_cons _ _), hread⟩
  · exact ⟨_, List.suffix_refl _, Or.inr (hloose h)⟩
  · cases h
  · split at h
    · exact (htag (fun _ _ _ => Token.noConfusion) h).elim
    · exact ⟨_, List.suffix_cons _ _, Or.inr (hloose h)⟩
  · split at h
    · exact (htag (fun _ _ _ => Token.noConfusion) h).elim
    · cases h
  · cases h

/-- **A comment is read back if and only if its content does not end it.** -/
theorem readMarkup_commentOf_iff {foreign : Bool} {content rest : Text} :
    readMarkup foreign ('!' :: '-' :: '-' :: (content ++ '-' :: '-' :: '>' :: rest))
        = (Token.commentOf content, rest) ↔ IsCommentContent content := by
  have hread : readMarkup foreign ('!' :: '-' :: '-' :: (content ++ '-' :: '-' :: '>' :: rest))
      = readDeclaration foreign ('-' :: '-' :: (content ++ '-' :: '-' :: '>' :: rest)) := rfl
  have hclosed : readComment (content ++ '-' :: '-' :: '>' :: rest) = (content, rest) ↔ _ :=
    readComment_closed_iff
  rw [hread, readDeclaration_comment, ← hclosed]
  constructor
  · intro h
    obtain ⟨htoken, hrest⟩ := Prod.mk.inj h
    exact Prod.ext (Token.comment.inj htoken).2 hrest
  · intro h
    have hwhole : '<' :: '!' :: '-' :: '-' :: (content ++ '-' :: '-' :: '>' :: rest)
        = (['<', '!', '-', '-'] ++ content ++ ['-', '-', '>']) ++ rest := by simp
    rw [h, hwhole, consumed_of_append]
    rfl

/-! ## Start tags -/

/-- A start tag as it is read: a name that begins with a letter, and attributes that are written. -/
structure IsRead (t : StartTag) : Prop where
  name : ∃ c n, t.name = c :: n ∧ c.isAlpha = true ∧ t.name.all isTagNamePart = true
  attributes : ∀ a ∈ t.attributes, a.IsWritten

theorem isTagNamePart_of_isAlpha {c : Char} (h : c.isAlpha = true) : isTagNamePart c = true := by
  have hne {d : Char} (hd : d.isAlpha = false) : c ≠ d := by
    rintro rfl
    rw [h] at hd
    cases hd
  simp [isTagNamePart, isMarkupSpace, hne (d := ' ') (by decide), hne (d := '\t') (by decide),
    hne (d := '\n') (by decide), hne (d := '\x0C') (by decide), hne (d := '\r') (by decide),
    hne (d := '/') (by decide), hne (d := '>') (by decide)]

/-- **A start tag that is read is spelled there**: its name, which begins with a letter, and its
inside. -/
theorem exists_spells_of_readMarkup {foreign : Bool} {s rest source : Text} {tag : StartTag}
    (h : readMarkup foreign s = (.startTag source tag, rest)) :
    ∃ c n t, tag.name = c :: n ∧ c.isAlpha = true ∧ tag.name.all isTagNamePart = true ∧
      TagBody.Spells tag.body t ∧ s = tag.name ++ (t ++ rest) := by
  unfold readMarkup at h
  split at h
  · exact absurd (congrArg Prod.fst h) (readDeclaration_ne (by simp) _ _)
  · cases h
  · cases h
  · split at h
    · refine absurd (congrArg Prod.fst h) (readTag_ne (fun _ _ _ => ?_) fun _ => ?_)
      · exact Token.noConfusion
      · exact Token.noConfusion
    · cases h
  · next c u _ _ _ _ =>
    split at h
    · next hc =>
      unfold readTag at h
      split at h
      · next body r hbody =>
        obtain ⟨htoken, rfl⟩ := Prod.mk.inj h
        obtain ⟨-, rfl⟩ := Token.startTag.inj htoken
        obtain ⟨t, hspell, ht⟩ := TagBody.exists_spells hbody
        refine ⟨c, u.takeWhile isTagNamePart, t, ?_, hc, List.all_takeWhile, hspell, ?_⟩
        · simp [isTagNamePart_of_isAlpha hc]
        · rw [← ht, List.takeWhile_append_dropWhile]
      · cases h
    · cases h
  · cases h

theorem isRead_of_readMarkup {foreign : Bool} {s rest source : Text} {tag : StartTag}
    (h : readMarkup foreign s = (.startTag source tag, rest)) : IsRead tag := by
  obtain ⟨c, n, t, hname, hc, hall, hspell, -⟩ := exists_spells_of_readMarkup h
  exact ⟨⟨c, n, hname, hc, hall⟩, hspell.isWritten⟩

theorem IsRead.isWritten_cleaned {tag : StartTag} (htag : IsRead tag) {attrs : List Attribute}
    (hclean : cleanAttributes? tag.attributes = some attrs) : ∀ a ∈ attrs, a.IsWritten :=
  cleanAttributes?_induction (fun _ value ha => ha.withValue value) htag.attributes hclean

/-- How a tag that is written anew ends. -/
def tagEnding (selfClosing bare : Bool) : Text :=
  if selfClosing then (if bare then ['/', '>'] else [' ', '/', '>']) else ['>']

theorem render_eq (tag : StartTag) :
    tag.render = '<' :: (tag.name ++ (Attribute.spaced tag.attributes
      ++ tagEnding tag.body.selfClosing tag.attributes.isEmpty)) := by
  simp only [StartTag.render, tagEnding, Attribute.spaced, List.cons_append, List.append_assoc]

theorem spells_tagEnding (selfClosing bare : Bool) :
    TagBody.Spells ⟨[], selfClosing, false⟩ (tagEnding selfClosing bare) := by
  cases selfClosing with
  | false => exact .close
  | true =>
    cases bare with
    | true => exact .selfClose
    | false => exact .space (by decide) .selfClose

/-- Attributes end in front of a tag's end, and no value is due there. -/
theorem head?_tagEnding {attrs : List Attribute} (selfClosing : Bool) (hne : attrs ≠ []) :
    (∀ c ∈ (tagEnding selfClosing attrs.isEmpty).head?, c = ' ' ∨ c = '>') ∧
      '=' ∉ ((tagEnding selfClosing attrs.isEmpty).dropWhile isMarkupSpace).head? := by
  have hbare : attrs.isEmpty = false := by simp [hne]
  rw [hbare]
  cases selfClosing with
  | true => exact ⟨by simp [tagEnding], by decide⟩
  | false => exact ⟨by simp [tagEnding], by decide⟩

theorem head?_inside {attrs : List Attribute} {selfClosing : Bool} (rest : Text) :
    ∀ c ∈ (Attribute.spaced attrs ++ tagEnding selfClosing attrs.isEmpty ++ rest).head?,
      isTagNamePart c = false := by
  cases attrs with
  | nil => cases selfClosing <;> (simp [Attribute.spaced, tagEnding]; decide)
  | cons a attrs => simp [Attribute.spaced]; decide

/-- Reading a tag that is written anew comes down to reading its inside. -/
theorem exists_source_startTagWith {foreign : Bool} {tag : StartTag} (htag : IsRead tag)
    (attrs : List Attribute) (rest : Text) :
    ∃ s, (Token.startTagWith tag attrs).source ++ rest = '<' :: s ∧
      readMarkup foreign s = readTag makeStartTag ('<' :: s) s ∧
      s.takeWhile isTagNamePart = tag.name ∧
      s.dropWhile isTagNamePart
        = Attribute.spaced attrs ++ tagEnding tag.body.selfClosing attrs.isEmpty ++ rest := by
  obtain ⟨c, n, hname, hc, hall⟩ := htag.name
  have hhead := @head?_inside attrs tag.body.selfClosing rest
  refine ⟨tag.name ++ (Attribute.spaced attrs ++ tagEnding tag.body.selfClosing attrs.isEmpty
    ++ rest), ?_, ?_, takeWhile_append_eq hall hhead, dropWhile_append_eq hall hhead⟩
  · show StartTag.render _ ++ rest = _
    rw [render_eq]
    simp [StartTag.attributes]
  · rw [hname, List.cons_append, readMarkup_startTag hc]

/-- **A start tag is read back if and only if its attributes stand apart.** -/
theorem readMarkup_startTagWith_iff {foreign : Bool} {tag : StartTag} (htag : IsRead tag)
    {attrs : List Attribute} (hw : ∀ a ∈ attrs, a.IsWritten) (rest : Text) :
    ∃ s, (Token.startTagWith tag attrs).source ++ rest = '<' :: s ∧
      ((readMarkup foreign s).1 = Token.startTagWith tag attrs ↔ Attribute.Apart attrs) ∧
      (Attribute.Apart attrs →
        readMarkup foreign s = (Token.startTagWith tag attrs, rest)) := by
  obtain ⟨s, hs, hread, htake, hdrop⟩ := @exists_source_startTagWith foreign tag htag attrs rest
  refine ⟨s, hs, ?_⟩
  have hback (hapart : Attribute.Apart attrs) :
      readMarkup foreign s = (Token.startTagWith tag attrs, rest) := by
    have hspell := TagBody.spells_spaced (spells_tagEnding tag.body.selfClosing attrs.isEmpty) hw
      hapart (head?_tagEnding tag.body.selfClosing)
    have hconsumed : consumed ('<' :: s) rest = (Token.startTagWith tag attrs).source := by
      rw [← hs, consumed_of_append]
    unfold readTag at hread
    rw [hdrop, TagBody.readTagBody_append hspell rest] at hread
    simp only [htake, hconsumed] at hread
    exact hread
  refine ⟨⟨fun h => ?_, fun hapart => by rw [hback hapart]⟩, hback⟩
  rw [hread] at h
  unfold readTag at h
  split at h
  · next body r hb =>
    have hbody := (Token.startTag.inj h).2
    rw [hdrop, List.append_assoc] at hb
    exact TagBody.apart_of_readTagBody hw hb (congrArg StartTag.attributes hbody)
  · cases h

end Mailout.Markup
