import Mailout.PostProcess.Footer
import Mailout.Proofs.Markup.QuotedTag
import Mathlib.Data.List.Basic

/-!
# What a footer can hold

A footer is a frame with two slots, one for the target of the link and one for its label. Both are
escaped: certain characters are written as entities, and all else as it is. Decoding the entities
gives back what was escaped, whatever it was, entities included. A slot has no character that would
end it, so the slots can be told from the frame, and a footer is read as the same tags whatever its
slots hold.

## Main statements

* `decodeEntities_flatMap`, `onlyEntities_flatMap` — what is written with entities is decoded, and
  has no other `&`;
* `slots_unique` — the slots can be told from the frame;
* `tokensFrom_toHtml_append` — the tags of a footer;
* `toHtml_exact` — what a footer is.
-/

namespace Mailout

open Text

/-! ## Entities -/

/-- The entities, each with the character that it stands for. -/
def entities : List (Text × Char) :=
  [("&amp;".toList, '&'), ("&lt;".toList, '<'), ("&gt;".toList, '>'), ("&quot;".toList, '"')]

/-- An entity has one `&`, at its start. -/
theorem exists_of_mem_entities {e : Text × Char} (h : e ∈ entities) :
    ∃ body, e.1 = '&' :: body ∧ '&' ∉ body := by
  have hall : ∀ e ∈ entities, e.1.head? = some '&' ∧ '&' ∉ e.1.tail := by decide
  obtain ⟨hhead, htail⟩ := hall e h
  obtain ⟨body, hbody⟩ := List.head?_eq_some_iff.mp hhead
  rw [hbody] at htail
  exact ⟨body, hbody, htail⟩

/-- The character of the entity at the start of a text, and the text after it. -/
def readEntity? (s : Text) : Option (Char × Text) :=
  entities.findSome? fun (entity, c) => (after? entity s).map (c, ·)

theorem readEntity?_length {s rest : Text} {c : Char} (h : readEntity? s = some (c, rest)) :
    rest.length < s.length := by
  obtain ⟨⟨entity, d⟩, hmem, h⟩ := List.exists_of_findSome?_eq_some h
  obtain ⟨rest', hafter, heq⟩ := Option.map_eq_some_iff.mp h
  obtain ⟨-, rfl⟩ := Prod.mk.inj heq
  obtain ⟨body, hbody, -⟩ := exists_of_mem_entities hmem
  have hlength := after?_length hafter
  rw [show entity = '&' :: body from hbody, List.length_cons] at hlength
  omega

/-- An entity is read, whatever follows it. -/
theorem readEntity?_append {entity : Text} {c : Char} (h : (entity, c) ∈ entities) (rest : Text) :
    readEntity? (entity ++ rest) = some (c, rest) := by
  simp only [entities, List.mem_cons, List.not_mem_nil, or_false, Prod.mk.injEq] at h
  rcases h with ⟨rfl, rfl⟩ | ⟨rfl, rfl⟩ | ⟨rfl, rfl⟩ | ⟨rfl, rfl⟩ <;> rfl

theorem readEntity?_eq_none {c : Char} (hc : c ≠ '&') (s : Text) : readEntity? (c :: s) = none := by
  refine List.findSome?_eq_none_iff.mpr ?_
  rintro ⟨entity, d⟩ he
  obtain ⟨body, hbody, -⟩ := exists_of_mem_entities he
  rw [show entity = '&' :: body from hbody]
  show (after? ('&' :: body) (c :: s)).map (d, ·) = none
  rw [after?, if_neg fun h => hc (beq_iff_eq.mp h).symm]
  rfl

/-- The text with a character for each entity. -/
def decodeEntities : Text → Text
  | [] => []
  | c :: s =>
    match _h : readEntity? (c :: s) with
    | some (d, rest) => d :: decodeEntities rest
    | none => c :: decodeEntities s
termination_by s => s.length
decreasing_by
  · exact readEntity?_length _h
  · simp

theorem decodeEntities_entity {entity : Text} {c : Char} (h : (entity, c) ∈ entities)
    (rest : Text) : decodeEntities (entity ++ rest) = c :: decodeEntities rest := by
  have hread := readEntity?_append h rest
  obtain ⟨body, hbody, -⟩ := exists_of_mem_entities h
  rw [show entity = '&' :: body from hbody, List.cons_append] at hread ⊢
  rw [decodeEntities]
  split
  · next h' =>
    rw [hread] at h'
    obtain ⟨rfl, rfl⟩ := Prod.mk.inj (Option.some.inj h')
    rfl
  · next h' => rw [hread] at h'; cases h'

theorem decodeEntities_cons {c : Char} (hc : c ≠ '&') (s : Text) :
    decodeEntities (c :: s) = c :: decodeEntities s := by
  have hread := readEntity?_eq_none hc s
  rw [decodeEntities]
  split
  · next h' => rw [hread] at h'; cases h'
  · rfl

/-- Every `&` of the text is the first character of an entity. -/
def OnlyEntities (s : Text) : Prop :=
  ∀ front rest, s = front ++ '&' :: rest → ∃ e ∈ entities, e.1 <+: '&' :: rest

/-! ## Escaping -/

/-- A character is written as its entity, or as itself if it is not `&`. -/
def Writes (write : Char → Text) : Prop :=
  ∀ c, (write c, c) ∈ entities ∨ write c = [c] ∧ c ≠ '&'

/-- **Decoding undoes escaping.** -/
theorem decodeEntities_flatMap {write : Char → Text} (hwrite : Writes write) (s : Text) :
    decodeEntities (s.flatMap write) = s := by
  induction s with
  | nil => rw [List.flatMap_nil, decodeEntities]
  | cons c s ih =>
    rw [List.flatMap_cons]
    rcases hwrite c with hentity | ⟨hself, hc⟩
    · rw [decodeEntities_entity hentity, ih]
    · rw [hself, List.singleton_append, decodeEntities_cons hc, ih]

/-- **Escaping leaves no other `&`.** -/
theorem onlyEntities_flatMap {write : Char → Text} (hwrite : Writes write) (s : Text) :
    OnlyEntities (s.flatMap write) := by
  induction s with
  | nil =>
    intro front rest h
    exact absurd h.symm (List.append_ne_nil_of_right_ne_nil front (List.cons_ne_nil '&' rest))
  | cons c s ih =>
    intro front rest h
    rw [List.flatMap_cons] at h
    rcases List.append_eq_append_iff.mp h with ⟨front', rfl, hs⟩ | ⟨back, hc, hrest⟩
    · exact ih front' rest hs
    · cases back with
      | nil => exact ih [] rest hrest.symm
      | cons d back =>
        -- the `&` stands in what is written for the first character
        obtain ⟨rfl, rfl⟩ := List.cons.inj hrest
        rcases hwrite c with hentity | ⟨hself, hne⟩
        · obtain ⟨body, hbody, hnot⟩ := exists_of_mem_entities hentity
          have hbody : write c = '&' :: body := hbody
          cases front with
          | nil =>
            refine ⟨_, hentity, ?_⟩
            rw [hc]
            exact List.prefix_append ('&' :: back) _
          | cons e front =>
            rw [hbody, List.cons_append, List.cons.injEq] at hc
            exact absurd (hc.2 ▸ List.mem_append_right front List.mem_cons_self) hnot
        · rw [hself, List.singleton_eq_append_iff] at hc
          rcases hc with ⟨-, hc⟩ | ⟨-, hc⟩
          · exact absurd (List.cons.inj hc).1.symm hne
          · cases hc

/-- **A character that is written as an entity is not there any more.** -/
theorem not_mem_flatMap {write : Char → Text} (hwrite : Writes write) {d : Char}
    (hd : write d ≠ [d]) (hentities : ∀ e ∈ entities, d ∉ e.1) (s : Text) :
    d ∉ s.flatMap write := by
  intro h
  obtain ⟨c, -, hc⟩ := List.mem_flatMap.mp h
  rcases hwrite c with hentity | ⟨hself, -⟩
  · exact hentities _ hentity hc
  · rw [hself, List.mem_singleton] at hc
    exact hd (hc ▸ hself)

/-- What an escape is for stands in no entity. -/
theorem not_mem_entities {d : Char} (hd : d ∈ ['"', '<', '>']) : ∀ e ∈ entities, d ∉ e.1 := by
  simp only [List.mem_cons, List.not_mem_nil, or_false] at hd
  rcases hd with rfl | rfl | rfl <;> decide

theorem escapeContent_eq (s : Text) : escapeContent s = s.flatMap fun c => escapeContent [c] := by
  simp only [escapeContent, List.flatMap_singleton]

theorem escapeQuotedValue_eq (s : Text) :
    escapeQuotedValue s = s.flatMap fun c => escapeQuotedValue [c] := by
  simp only [escapeQuotedValue, List.flatMap_singleton]

theorem writes_escapeContent : Writes fun c => escapeContent [c] := by
  intro c
  simp only [escapeContent, List.flatMap_singleton]
  split
  · exact .inl (by decide)
  · exact .inl (by decide)
  · exact .inl (by decide)
  · next hamp _ _ => exact .inr ⟨rfl, hamp⟩

theorem writes_escapeQuotedValue : Writes fun c => escapeQuotedValue [c] := by
  intro c
  simp only [escapeQuotedValue, List.flatMap_singleton]
  split
  · exact .inl (by decide)
  · exact .inl (by decide)
  · exact .inl (by decide)
  · exact .inl (by decide)
  · next hamp _ _ _ => exact .inr ⟨rfl, hamp⟩

/-- Between tags no tag begins or ends. -/
theorem not_mem_escapeContent {d : Char} (hd : d ∈ ['<', '>']) (s : Text) :
    d ∉ escapeContent s := by
  have hwritten : escapeContent [d] ≠ [d] := by
    simp only [List.mem_cons, List.not_mem_nil, or_false] at hd
    rcases hd with rfl | rfl <;> decide
  rw [escapeContent_eq]
  exact not_mem_flatMap writes_escapeContent hwritten
    (not_mem_entities (List.mem_cons_of_mem '"' hd)) s

/-- In the value of an attribute neither does the value end. -/
theorem not_mem_escapeQuotedValue {d : Char} (hd : d ∈ ['"', '<', '>']) (s : Text) :
    d ∉ escapeQuotedValue s := by
  have hwritten : escapeQuotedValue [d] ≠ [d] := by
    simp only [List.mem_cons, List.not_mem_nil, or_false] at hd
    rcases hd with rfl | rfl | rfl <;> decide
  rw [escapeQuotedValue_eq]
  exact not_mem_flatMap writes_escapeQuotedValue hwritten (not_mem_entities hd) s

namespace UnsubscribeFooter

/-! ## Slots -/

/-- **The slots can be told from the frame**: the first one ends at a quote. -/
theorem slots_unique {target target' label label' : Text} (h : '"' ∉ target) (h' : '"' ∉ target')
    (heq : frameOpen ++ target ++ frameMiddle ++ label ++ frameClose
      = frameOpen ++ target' ++ frameMiddle ++ label' ++ frameClose) :
    target = target' ∧ label = label' := by
  obtain ⟨middle, hmiddle⟩ : ∃ middle, frameMiddle = '"' :: middle := ⟨_, rfl⟩
  rw [hmiddle, List.append_left_inj] at heq
  simp only [List.append_assoc, List.append_right_inj, List.cons_append] at heq
  have hcut := cut?_singleton_iff.mpr ⟨heq, h'⟩
  rw [cut?_singleton_iff.mpr ⟨rfl, h⟩] at hcut
  obtain ⟨rfl, hrest⟩ := Prod.mk.inj (Option.some.inj hcut)
  exact ⟨rfl, (List.append_right_inj middle).mp hrest⟩

/-! ## Tags -/

/-- The attributes of a tag, each after one space and with its value in double quotes. -/
def attributes (as : List (String × Text)) : List QuotedAttribute :=
  as.map fun (name, value) => ⟨[' '], name.toList, '"', value⟩

/-- A start tag of the frame. -/
def tag (name : String) (as : List (String × Text)) : QuotedTag :=
  ⟨name.toList, attributes as, [], false⟩

/-- The end tag of an element of the frame. -/
def endTag (name : String) : Token := .endTag ('<' :: '/' :: (name.toList ++ ['>'])) name.toList

/-- The start tag of the table. -/
def table : QuotedTag :=
  tag "table" [("role", "presentation".toList), ("width", "100%".toList),
    ("cellpadding", "0".toList), ("cellspacing", "0".toList), ("border", "0".toList)]

/-- The start tag of its row. -/
def row : QuotedTag := tag "tr" []

/-- The start tag of the row's cell. -/
def cell : QuotedTag :=
  tag "td" [("align", "center".toList),
    ("style", "padding:16px 0;font-size:12px;color:#666666;".toList)]

/-- The start tag of the link with this target. -/
def link (target : Text) : QuotedTag :=
  tag "a" [("href", target), ("style", "color:#666666;text-decoration:underline;".toList)]

/-- What a footer with these slots is read as: four elements one inside the other, and in the
innermost the characters of the label. -/
def tags (target label : Text) : List Token :=
  [table.token, row.token, cell.token, (link target).token] ++ label.map .char
    ++ [endTag "a", endTag "td", endTag "tr", endTag "table"]

/-- The frame and its slots are those tags. -/
theorem toHtml_eq_tags (f : UnsubscribeFooter) :
    f.toHtml = table.text ++ (row.text ++ (cell.text ++ ((link (escapeQuotedValue f.href)).text
      ++ (escapeContent f.label ++ ((endTag "a").source ++ ((endTag "td").source
        ++ ((endTag "tr").source ++ (endTag "table").source))))))) := by
  have hopen : frameOpen = table.text ++ (row.text ++ (cell.text ++ "<a href=\"".toList)) := by
    decide +kernel
  have hlink (target : Text) :
      (link target).text = "<a href=\"".toList ++ (target ++ frameMiddle) := by
    have hquoted : (QuotedAttribute.mk [' '] "href".toList '"' target).text
        = " href=\"".toList ++ (target ++ ['"']) := rfl
    show '<' :: ("a".toList ++ (((QuotedAttribute.mk [' '] "href".toList '"' target).text
      ++ _) ++ _)) = _
    rw [hquoted]
    simp only [List.append_assoc]
    rfl
  have hclose : frameClose = (endTag "a").source ++ ((endTag "td").source
      ++ ((endTag "tr").source ++ (endTag "table").source)) := by
    decide +kernel
  rw [toHtml, hopen, hlink, hclose]
  simp only [List.append_assoc]

theorem isQuoted_tag {name : String} {as : List (String × Text)}
    (hname : ∃ c n, name.toList = c :: n ∧ c.isAlpha = true ∧
      name.toList.all Markup.isTagNamePart = true)
    (has : ∀ a ∈ as, Attribute.IsName a.1.toList ∧ '"' ∉ a.2) : (tag name as).IsQuoted := by
  refine ⟨hname, ?_, rfl⟩
  intro a ha
  obtain ⟨⟨key, value⟩, hmem, rfl⟩ := List.mem_map.mp ha
  obtain ⟨hkey, hvalue⟩ := has _ hmem
  exact ⟨List.cons_ne_nil _ _, rfl, hkey, .inl rfl, hvalue⟩

theorem isQuoted_table : table.IsQuoted :=
  isQuoted_tag ⟨'t', _, rfl, rfl, rfl⟩ (by
    simp [Attribute.IsName, Attribute.isNameStart, Attribute.isNamePart, isMarkupSpace])

theorem isQuoted_row : row.IsQuoted := isQuoted_tag ⟨'t', _, rfl, rfl, rfl⟩ (by simp)

theorem isQuoted_cell : cell.IsQuoted :=
  isQuoted_tag ⟨'t', _, rfl, rfl, rfl⟩ (by
    simp [Attribute.IsName, Attribute.isNameStart, Attribute.isNamePart, isMarkupSpace])

theorem isQuoted_link {target : Text} (h : '"' ∉ target) : (link target).IsQuoted :=
  isQuoted_tag ⟨'a', _, rfl, rfl, rfl⟩ (by
    simp [Attribute.IsName, Attribute.isNameStart, Attribute.isNamePart, isMarkupSpace, h])

/-- The elements of the frame hold markup like any other. -/
theorem after_tag {name : String} (h : name ∈ ["table", "tr", "td", "a"])
    (as : List (String × Text)) (rest : Text) :
    Markup.Context.after {} (tag name as).token rest = {} := by
  simp only [List.mem_cons, List.not_mem_nil, or_false] at h
  rcases h with rfl | rfl | rfl | rfl <;> rfl

/-- A start tag of the frame is read, whatever follows it. -/
theorem tokensFrom_tag_append {name : String} {as : List (String × Text)}
    (hname : name ∈ ["table", "tr", "td", "a"]) (h : (tag name as).IsQuoted) (rest : Text) :
    Markup.tokensFrom {} ((tag name as).text ++ rest)
      = (tag name as).token :: Markup.tokensFrom {} rest := by
  rw [QuotedTag.tokensFrom_text_append h, after_tag hname]

/-- An end tag of the frame is read, whatever follows it. -/
theorem tokensFrom_endTag_append {name : String}
    (hname : ∃ c n, name.toList = c :: n ∧ c.isAlpha = true ∧
      name.toList.all Markup.isTagNamePart = true) (rest : Text) :
    Markup.tokensFrom {} ((endTag name).source ++ rest)
      = endTag name :: Markup.tokensFrom {} rest := by
  obtain ⟨c, n, hcons, hc, hall⟩ := hname
  have hread : Markup.readToken {} '<' ('/' :: (name.toList ++ '>' :: rest))
      = (endTag name, rest) := by
    have hconsumed : consumed ('<' :: '/' :: (name.toList ++ '>' :: rest)) rest
        = '<' :: '/' :: (name.toList ++ ['>']) := by
      have hsource := consumed_of_append ('<' :: '/' :: (name.toList ++ ['>'])) rest
      simpa using hsource
    have hmarkup : Markup.readToken {} '<' ('/' :: (name.toList ++ '>' :: rest))
        = Markup.readMarkup false ('/' :: (name.toList ++ '>' :: rest)) := rfl
    have hgt : ∀ c ∈ ('>' :: rest).head?, Markup.isTagNamePart c = false := by
      intro c hc
      cases hc
      rfl
    rw [hmarkup, hcons, List.cons_append, Markup.readMarkup_endTag hc, ← List.cons_append, ← hcons,
      Markup.readTag, takeWhile_append_eq hall hgt, dropWhile_append_eq hall hgt,
      TagBody.readTagBody_gt]
    show (Markup.makeEndTag (consumed _ rest) name.toList _, rest) = _
    rw [hconsumed]
    rfl
  have hsource : (endTag name).source ++ rest = '<' :: '/' :: (name.toList ++ '>' :: rest) := by
    simp [endTag, Token.source]
  rw [hsource]
  exact Markup.tokensFrom_cons hread

/-- **A footer is read as the same tags**, whatever its slots hold and whatever follows it. -/
theorem tokensFrom_toHtml_append (f : UnsubscribeFooter) (rest : Text) :
    Markup.tokensFrom {} (f.toHtml ++ rest)
      = tags (escapeQuotedValue f.href) (escapeContent f.label) ++ Markup.tokensFrom {} rest := by
  have hhref : '"' ∉ escapeQuotedValue f.href := not_mem_escapeQuotedValue (by decide) f.href
  have hlabel : '<' ∉ escapeContent f.label := not_mem_escapeContent (by decide) f.label
  rw [toHtml_eq_tags]
  simp only [List.append_assoc]
  rw [table, tokensFrom_tag_append (by decide) isQuoted_table,
    row, tokensFrom_tag_append (by decide) isQuoted_row,
    cell, tokensFrom_tag_append (by decide) isQuoted_cell,
    link, tokensFrom_tag_append (by decide) (isQuoted_link hhref),
    Markup.tokensFrom_append_of_not_mem rfl hlabel]
  iterate 4 rw [tokensFrom_endTag_append ⟨_, _, rfl, rfl, rfl⟩]
  simp [tags, table, row, cell, link]

/-- **What a footer is.** It is the frame around two slots that nothing in them can end; decoded,
the slots hold the target and the label; it adds the frame's tags and no other; and a footer is told
from any other that has a different target or label. -/
theorem toHtml_exact (f : UnsubscribeFooter) :
    ∃ target label,
      f.toHtml = frameOpen ++ target ++ frameMiddle ++ label ++ frameClose
      ∧ (∀ c ∈ ['"', '<', '>'], c ∉ target)
      ∧ (∀ c ∈ ['<', '>'], c ∉ label)
      ∧ OnlyEntities target ∧ OnlyEntities label
      ∧ decodeEntities target = f.tokens.headD []
      ∧ decodeEntities label = f.label
      ∧ (∀ rest, Markup.tokensFrom {} (f.toHtml ++ rest)
          = tags target label ++ Markup.tokensFrom {} rest)
      ∧ ∀ g : UnsubscribeFooter,
          f.toHtml = g.toHtml ↔ f.tokens.headD [] = g.tokens.headD [] ∧ f.label = g.label := by
  have hdecodeTarget (g : UnsubscribeFooter) :
      decodeEntities (escapeQuotedValue g.href) = g.tokens.headD [] := by
    rw [escapeQuotedValue_eq, decodeEntities_flatMap writes_escapeQuotedValue]
    rfl
  have hdecodeLabel (g : UnsubscribeFooter) : decodeEntities (escapeContent g.label) = g.label := by
    rw [escapeContent_eq, decodeEntities_flatMap writes_escapeContent]
  refine ⟨escapeQuotedValue f.href, escapeContent f.label, rfl,
    fun c hc => not_mem_escapeQuotedValue hc f.href, fun c hc => not_mem_escapeContent hc f.label,
    ?onlyTarget, ?onlyLabel, hdecodeTarget f, hdecodeLabel f, tokensFrom_toHtml_append f, ?told⟩
  case onlyTarget =>
    rw [escapeQuotedValue_eq]
    exact onlyEntities_flatMap writes_escapeQuotedValue f.href
  case onlyLabel =>
    rw [escapeContent_eq]
    exact onlyEntities_flatMap writes_escapeContent f.label
  case told =>
    intro g
    constructor
    · intro h
      obtain ⟨htarget, hlabel⟩ := slots_unique (not_mem_escapeQuotedValue (by decide) f.href)
        (not_mem_escapeQuotedValue (by decide) g.href) h
      rw [← hdecodeTarget f, ← hdecodeTarget g, htarget, ← hdecodeLabel f, ← hdecodeLabel g, hlabel]
      exact ⟨rfl, rfl⟩
    · rintro ⟨htarget, hlabel⟩
      have hhref : f.href = g.href := htarget
      rw [toHtml, toHtml, hhref, hlabel]

end UnsubscribeFooter

end Mailout
