import Mailout.Proofs.Markup.Frame

/-!
# Tags with quoted attributes

A tag as people write it: a name, attributes with their values between quotes, each behind spaces,
and the tag's end. Such a tag is read as what it was put together from (`tokens_text`), and so is
what is left of it when it is stripped, attribute by attribute (`exists_strip_text`). The attributes
have different names, yet two of them may be looked up by the same name, for a byte order mark that
a name begins with does not count then. What is left of an attribute depends on whether it is the
first one that is looked up by its name (`leftAmong`).
-/

namespace Mailout

open Text

/-- An attribute with its value between quotes, and the spaces in front of it. -/
structure QuotedAttribute where
  space : Text
  name : Text
  quote : Char
  value : Text

/-- A tag with such attributes. -/
structure QuotedTag where
  name : Text
  attributes : List QuotedAttribute
  /-- The spaces in front of the tag's end. -/
  space : Text
  selfClosing : Bool

namespace QuotedAttribute

/-- The attribute's own text. -/
def source (a : QuotedAttribute) : Text := a.name ++ '=' :: a.quote :: (a.value ++ [a.quote])

/-- The attribute's text with the spaces in front of it. -/
def text (a : QuotedAttribute) : Text := a.space ++ a.source

/-- The attribute as a reader knows it. -/
def toAttribute (a : QuotedAttribute) : Attribute := ⟨a.name, a.value, a.source⟩

/-- The attribute can be read: it has a space in front, a name, and no quote in its value. -/
structure IsQuoted (a : QuotedAttribute) : Prop where
  space_ne_nil : a.space ≠ []
  space : a.space.all isMarkupSpace = true
  name : Attribute.IsName a.name
  quote : a.quote = '"' ∨ a.quote = '\''
  value : a.quote ∉ a.value

theorem IsQuoted.standsBefore {a : QuotedAttribute} (h : a.IsQuoted) (rest : Text) :
    a.toAttribute.StandsBefore rest := by
  have hstands : Attribute.StandsBefore
      ⟨a.name, a.value, a.name ++ ([] ++ '=' :: ([] ++ a.quote :: (a.value ++ [a.quote])))⟩ rest :=
    .quoted h.name rfl rfl h.quote h.value
  exact hstands

end QuotedAttribute

namespace QuotedTag

open Attribute QuotedAttribute

/-- The tag's text. -/
def text (t : QuotedTag) : Text :=
  '<' :: (t.name ++ (t.attributes.flatMap QuotedAttribute.text
    ++ (t.space ++ if t.selfClosing then ['/', '>'] else ['>'])))

/-- The tag can be read. -/
structure IsQuoted (t : QuotedTag) : Prop where
  name : ∃ c n, t.name = c :: n ∧ c.isAlpha = true ∧ t.name.all Markup.isTagNamePart = true
  attributes : ∀ a ∈ t.attributes, a.IsQuoted
  space : t.space.all isMarkupSpace = true

end QuotedTag

/-! ## Reading -/

namespace Markup

/-- The name of the tag that is all of a text, and the names and values of its attributes. -/
def tagOf? (s : Text) : Option (Text × List (Text × Text)) :=
  match tokens s with
  | [.startTag _ tag] => some (tag.name, tag.attributes.map fun a => (a.name, a.value))
  | _ => none

/-- A tag that is spelled is read, whatever follows it. -/
theorem readToken_of_spells {name inside : Text} {body : TagBody}
    (hname : ∃ c n, name = c :: n ∧ c.isAlpha = true ∧ name.all isTagNamePart = true)
    (hinside : ∀ c ∈ inside.head?, isTagNamePart c = false) (h : body.Spells inside) (rest : Text) :
    readToken {} '<' (name ++ (inside ++ rest))
      = (.startTag ('<' :: (name ++ inside)) ⟨name, body⟩, rest) := by
  obtain ⟨c, n, hcons, hc, hall⟩ := hname
  have hbody : readTagBody (inside ++ rest) = some (body, rest) := TagBody.readTagBody_append h rest
  have hinside' : ∀ c ∈ (inside ++ rest).head?, isTagNamePart c = false := by
    obtain ⟨t, rfl⟩ := h.exists_stop
    simpa using hinside
  have hconsumed : consumed ('<' :: (name ++ (inside ++ rest))) rest = '<' :: (name ++ inside) := by
    have hsource := consumed_of_append ('<' :: (name ++ inside)) rest
    rwa [List.cons_append, List.append_assoc] at hsource
  have hmarkup : readToken {} '<' (name ++ (inside ++ rest))
      = readMarkup false (name ++ (inside ++ rest)) := rfl
  rw [hmarkup, hcons, List.cons_append, readMarkup_startTag hc, ← List.cons_append, ← hcons, readTag,
    takeWhile_append_eq hall hinside', dropWhile_append_eq hall hinside', hbody]
  simp [makeStartTag, hconsumed]

/-- A tag that is spelled is read if nothing stands around it. -/
theorem tokens_of_spells {name inside : Text} {body : TagBody}
    (hname : ∃ c n, name = c :: n ∧ c.isAlpha = true ∧ name.all isTagNamePart = true)
    (hinside : ∀ c ∈ inside.head?, isTagNamePart c = false) (h : body.Spells inside) :
    tokens ('<' :: (name ++ inside)) = [.startTag ('<' :: (name ++ inside)) ⟨name, body⟩] := by
  have hread := readToken_of_spells hname hinside h []
  rw [List.append_nil] at hread
  rw [tokens, tokensFrom, hread]
  simp [tokensFrom]

end Markup

namespace TagBody

theorem Spells.spaces {b : TagBody} {space s : Text} (hspace : space.all isMarkupSpace = true)
    (h : Spells b s) : Spells b (space ++ s) := by
  induction space with
  | nil => exact h
  | cons c space ih =>
    rw [List.all_cons, Bool.and_eq_true] at hspace
    exact .space hspace.1 (ih hspace.2)

theorem spells_quoted {attrs : List QuotedAttribute} (hattrs : ∀ a ∈ attrs, a.IsQuoted)
    {selfClosing : Bool} {s : Text} (h : Spells ⟨[], selfClosing, false⟩ s) :
    Spells ⟨attrs.map QuotedAttribute.toAttribute, selfClosing, false⟩
      (attrs.flatMap QuotedAttribute.text ++ s) := by
  induction attrs with
  | nil => exact h
  | cons a attrs ih =>
    obtain ⟨ha, hattrs⟩ := List.forall_mem_cons.mp hattrs
    rw [List.flatMap_cons, List.append_assoc, QuotedAttribute.text, List.append_assoc]
    exact (Spells.attr (ha.standsBefore _) (ih hattrs)).spaces ha.space

end TagBody

namespace QuotedTag

open Attribute QuotedAttribute Markup

/-- The token of the tag. -/
def token (t : QuotedTag) : Token :=
  .startTag t.text ⟨t.name, ⟨t.attributes.map QuotedAttribute.toAttribute, t.selfClosing, false⟩⟩

theorem IsQuoted.spells {t : QuotedTag} (h : t.IsQuoted) :
    TagBody.Spells ⟨t.attributes.map QuotedAttribute.toAttribute, t.selfClosing, false⟩
      (t.attributes.flatMap QuotedAttribute.text
        ++ (t.space ++ if t.selfClosing then ['/', '>'] else ['>'])) := by
  have hend : TagBody.Spells ⟨[], t.selfClosing, false⟩
      (t.space ++ if t.selfClosing then ['/', '>'] else ['>']) := by
    refine TagBody.Spells.spaces h.space ?_
    cases t.selfClosing with
    | false => exact .close
    | true => exact .selfClose
  exact TagBody.spells_quoted h.attributes hend

/-- The tag's name ends in front of its attributes. -/
theorem IsQuoted.head?_inside {t : QuotedTag} (h : t.IsQuoted) :
    ∀ c ∈ (t.attributes.flatMap QuotedAttribute.text
      ++ (t.space ++ if t.selfClosing then ['/', '>'] else ['>'])).head?, isTagNamePart c = false := by
  have hspaced {space s : Text} (hspace : space.all isMarkupSpace = true)
      (hs : ∀ c ∈ s.head?, isTagNamePart c = false) :
      ∀ c ∈ (space ++ s).head?, isTagNamePart c = false :=
    head?_gap_append hspace (fun c hc => by simp [isTagNamePart, hc]) hs
  cases hattrs : t.attributes with
  | nil =>
    show ∀ c ∈ (t.space ++ if t.selfClosing then ['/', '>'] else ['>']).head?, isTagNamePart c = false
    refine hspaced h.space ?_
    cases t.selfClosing with
    | false => simp [isTagNamePart]
    | true => simp [isTagNamePart]
  | cons a attrs =>
    have ha : a.IsQuoted := h.attributes a (by rw [hattrs]; exact List.mem_cons_self)
    obtain ⟨c, space, hspace⟩ := List.exists_cons_of_ne_nil ha.space_ne_nil
    have hc : isMarkupSpace c = true := by
      have hall := ha.space
      rw [hspace, List.all_cons, Bool.and_eq_true] at hall
      exact hall.1
    simp [QuotedAttribute.text, hspace, isTagNamePart, hc]

/-- **A tag is read as what it was put together from.** -/
theorem tokens_text {t : QuotedTag} (h : t.IsQuoted) : tokens t.text = [t.token] :=
  tokens_of_spells h.name h.head?_inside h.spells

/-- The tag is read in front of other markup. -/
theorem tokensFrom_text_append {t : QuotedTag} (h : t.IsQuoted) (rest : Text) :
    tokensFrom {} (t.text ++ rest)
      = t.token :: tokensFrom (Context.after {} t.token rest) rest := by
  have htext : t.text ++ rest = '<' :: (t.name ++ ((t.attributes.flatMap QuotedAttribute.text
      ++ (t.space ++ if t.selfClosing then ['/', '>'] else ['>'])) ++ rest)) := by
    simp [text]
  rw [htext]
  exact tokensFrom_cons (readToken_of_spells h.name h.head?_inside h.spells rest)

theorem tagOf?_text {t : QuotedTag} (h : t.IsQuoted) :
    tagOf? t.text = some (t.name, t.attributes.map fun a => (a.name, a.value)) := by
  rw [tagOf?, tokens_text h]
  simp [token, StartTag.attributes, QuotedAttribute.toAttribute, Function.comp_def]

end QuotedTag

/-! ## Stripping -/

namespace Attribute

/-- Attributes that all have a value stand apart. -/
theorem apart_of_source_ne {attrs : List Attribute} (h : ∀ a ∈ attrs, a.source ≠ a.name) :
    Apart attrs := by
  induction attrs with
  | nil => trivial
  | cons a attrs ih =>
    obtain ⟨ha, hattrs⟩ := List.forall_mem_cons.mp h
    cases attrs with
    | nil => trivial
    | cons b attrs => exact ⟨fun hbare => absurd hbare ha, ih hattrs⟩

/-- An attribute's name as attributes are looked up by it. -/
def lookupName (a : Attribute) : Text := lowerAscii (dropMark a.name)

/-- The first attribute that is looked up by the name of `a`. -/
def firstOf (attrs : List Attribute) (a : Attribute) : Attribute :=
  (attrs.find? fun b => b.lookupName = a.lookupName).getD a

/-- What is left of an attribute of a tag whose attributes have different names: the first one that
is looked up by a name is edited, and another one goes with it or stays. -/
def leftAmong (attrs : List Attribute) (a : Attribute) : Option Attribute :=
  if a.isAnnotated then
    if (firstOf attrs a).name = a.name then leftOfFirst a
    else if ClassList.authored (dropMark (firstOf attrs a).value) = [] then none else some a
  else some a

theorem isNamed_iff_of_isNamed {n : Text} {a b : Attribute} (ha : a.isNamed n = true) :
    b.isNamed n = true ↔ b.lookupName = a.lookupName := by
  have hn : a.lookupName = lowerAscii n := sameLetters_iff.mp ha
  rw [hn]
  exact sameLetters_iff

/-- An attribute that stands behind others is the first one of its name, or one of those is. -/
theorem leftOfName_eq_leftAmong {n : Text} {front : List Attribute} {a : Attribute}
    (hn : n ∈ annotatedNames) (ha : a.isNamed n = true) (hfront : ∀ b ∈ front, b.name ≠ a.name)
    (back : List Attribute) : leftOfName n front a = leftAmong (front ++ a :: back) a := by
  have hfind : front.find? (isNamed n) = front.find? fun b => b.lookupName = a.lookupName := by
    congr 1
    funext b
    rw [Bool.eq_iff_iff, isNamed_iff_of_isNamed ha, decide_eq_true_eq]
  rw [leftOfName, leftAmong, if_pos (isAnnotated_of_isNamed hn ha), firstOf, List.find?_append, hfind]
  cases hfirst : front.find? fun b => b.lookupName = a.lookupName with
  | none => simp
  | some first =>
    have hne : first.name ≠ a.name := hfront first (List.mem_of_find?_eq_some hfirst)
    simp [hne]

/-- **What is left of attributes with different names**, each by itself. -/
theorem eachIn_left_of_nodup {front attrs : List Attribute}
    (h : ((front ++ attrs).map name).Nodup) :
    eachIn left front attrs = attrs.filterMap (leftAmong (front ++ attrs)) := by
  induction attrs generalizing front with
  | nil => rfl
  | cons a back ih =>
    have hleft : left front a = leftAmong (front ++ a :: back) a := by
      rw [left_eq]
      cases hname : annotatedNames.find? a.isNamed with
      | none =>
        have hnot : a.isAnnotated = false := by
          simpa [isAnnotated] using List.find?_eq_none.mp hname
        rw [leftAmong, hnot]
        rfl
      | some n =>
        have hn : a.isNamed n = true := by simpa using List.find?_some hname
        have hfront : ∀ b ∈ front, b.name ≠ a.name := by
          intro b hb
          rw [List.map_append, List.map_cons, List.nodup_append] at h
          exact h.2.2 _ (List.mem_map_of_mem hb) _ List.mem_cons_self
        exact leftOfName_eq_leftAmong (List.mem_of_find?_eq_some hname) hn hfront back
    have hback := @ih (front ++ [a]) (by simpa using h)
    rw [List.append_assoc, List.singleton_append] at hback
    rw [eachIn, hback, hleft, List.filterMap_cons]
    cases leftAmong (front ++ a :: back) a <;> rfl

end Attribute

namespace Markup

open Attribute

/-- **What a tag is stripped to is read** as the tag with what is left of its attributes, if all of
these have values. -/
theorem exists_strip_of_tokens {s source : Text} {tag : StartTag} (htag : IsRead tag)
    (hs : tokens s = [.startTag source tag]) (hvalue : ∀ a ∈ tag.attributes, a.source ≠ a.name) :
    ∃ o, strip s = .ok o ∧ tagOf? o = some (tag.name,
      ((cleanAttributes? tag.attributes).getD tag.attributes).map fun a => (a.name, a.value)) := by
  have hcan : (Token.startTag source tag).CanStrip := rfl
  have hsource : source = s := by
    have hs' := tokens_source s
    rw [hs] at hs'
    simpa [Token.source] using hs'
  have hstrip : strip s = .ok (Token.startTag source tag).cleaned.source := by
    rw [strip_eq_ok_iff, hs]
    exact ⟨by simpa using hcan, by simp [written]⟩
  refine ⟨_, hstrip, ?_⟩
  cases hclean : cleanAttributes? tag.attributes with
  | none =>
    have hsame : (Token.startTag source tag).cleaned.source = s := by
      simp only [Token.cleaned, Token.strip, hclean, Option.elim_none]
      exact hsource
    rw [hsame, tagOf?, hs]
    rfl
  | some attrs =>
    have hw := htag.isWritten_cleaned hclean
    have hvalue' : ∀ a ∈ attrs, a.source ≠ a.name :=
      cleanAttributes?_induction (fun a value _ => by simp [Attribute.withValue]) hvalue hclean
    have hspell := TagBody.spells_spaced (spells_tagEnding tag.body.selfClosing attrs.isEmpty) hw
      (apart_of_source_ne hvalue') (head?_tagEnding tag.body.selfClosing)
    have hinside := @head?_inside attrs tag.body.selfClosing []
    rw [List.append_nil] at hinside
    have htext : (Token.startTag source tag).cleaned.source = '<' :: (tag.name ++
        (spaced attrs ++ tagEnding tag.body.selfClosing attrs.isEmpty)) := by
      rw [Token.cleaned_startTag hclean]
      exact render_eq _
    rw [htext, tagOf?, tokens_of_spells htag.name hinside hspell]
    rfl

end Markup

namespace QuotedTag

open Attribute QuotedAttribute Markup

/-- **What is left of a tag whose attributes have different names**, attribute by attribute. -/
theorem exists_strip_text {t : QuotedTag} (h : t.IsQuoted)
    (hnames : (t.attributes.map QuotedAttribute.name).Nodup) :
    ∃ o, strip t.text = .ok o ∧ tagOf? o = some (t.name,
      (t.attributes.filterMap fun a =>
        leftAmong (t.attributes.map QuotedAttribute.toAttribute) a.toAttribute).map
          fun a => (a.name, a.value)) := by
  have hread : IsRead ⟨t.name, ⟨t.attributes.map QuotedAttribute.toAttribute, t.selfClosing, false⟩⟩ :=
    ⟨h.name, fun a ha => by
      obtain ⟨b, hb, rfl⟩ := List.mem_map.mp ha
      exact ⟨[], (h.attributes b hb).standsBefore []⟩⟩
  have hvalue : ∀ a ∈ t.attributes.map QuotedAttribute.toAttribute, a.source ≠ a.name := by
    intro a ha
    obtain ⟨b, -, rfl⟩ := List.mem_map.mp ha
    simp [QuotedAttribute.toAttribute, QuotedAttribute.source]
  obtain ⟨o, hstrip, htag⟩ := exists_strip_of_tokens hread (tokens_text h) hvalue
  refine ⟨o, hstrip, ?_⟩
  have hleft := cleanAttributes?_eq_eachIn (t.attributes.map QuotedAttribute.toAttribute)
  have hnodup : (([] ++ t.attributes.map QuotedAttribute.toAttribute).map Attribute.name).Nodup := by
    simpa [Function.comp_def, QuotedAttribute.toAttribute] using hnames
  rw [eachIn_left_of_nodup hnodup, List.filterMap_map] at hleft
  rw [htag]
  show some (t.name, List.map _ ((cleanAttributes? (t.attributes.map QuotedAttribute.toAttribute)).getD
    (t.attributes.map QuotedAttribute.toAttribute))) = _
  rw [hleft]
  rfl

end QuotedTag

end Mailout
