import Mailout.Markup.Strip
import Mailout.Proofs.Markup.Comment
import Mailout.Proofs.Markup.TagBody

/-!
# Tokens that end

A token that ends at its `>`, and not with the text, is read whatever follows it. `Takes read s rest
token` says so of a reader.

## Main statements

* `takes_readDeclaration`, `takes_readTag`, `takes_readLooseComment` — the three kinds of readers;
* `takes_readMarkup` — all that starts with `<` and is no character.
-/

namespace Mailout.Markup

open Text

/-- The reader makes the token of the text up to the `>` in front of `rest`, and would make it in
front of every other text. -/
def Takes (read : Text → Token × Text) (s rest : Text) (token : Token) : Prop :=
  ∃ u : Text, s = u ++ '>' :: rest ∧ ∀ rest', read (u ++ '>' :: rest') = (token, rest')

/-- A text that begins with another character than `>`: the character is taken first. -/
theorem Takes.cons {read : Text → Token × Text} {c : Char} {t rest : Text} {token : Token}
    (hc : c ≠ '>') (h : Takes read (c :: t) rest token) :
    ∃ u : Text, t = u ++ '>' :: rest ∧
      ∀ rest', read (c :: (u ++ '>' :: rest')) = (token, rest') := by
  obtain ⟨u, hs, hu⟩ := h
  cases u with
  | nil => exact absurd (List.cons.inj hs).1 hc
  | cons d u =>
    obtain ⟨rfl, rfl⟩ := List.cons.inj hs
    exact ⟨u, rfl, hu⟩

/-! ## Declarations -/

theorem consumed_declaration (u rest : Text) :
    consumed ('<' :: '!' :: (u ++ '>' :: rest)) rest = '<' :: '!' :: (u ++ ['>']) := by
  rw [show '<' :: '!' :: (u ++ '>' :: rest) = '<' :: '!' :: (u ++ ['>']) ++ rest by simp]
  exact consumed_of_append _ _

/-! The four forms of a declaration. -/

theorem readDeclaration_comment (foreign : Bool) (t : Text) :
    readDeclaration foreign ('-' :: '-' :: t)
      = (.comment (consumed ('<' :: '!' :: '-' :: '-' :: t) (readComment t).2) (readComment t).1,
          (readComment t).2) := rfl

theorem readDeclaration_doctype {foreign : Bool} {s t : Text} (h : after? ['-', '-'] s = none)
    (hd : afterLetters? "doctype".toList s = some t) :
    readDeclaration foreign s
      = (.doctype (consumed ('<' :: '!' :: s) (readLoose t).2), (readLoose t).2) := by
  unfold readDeclaration
  simp only [h, hd]

theorem readDeclaration_cdata {s t : Text} (h : after? ['-', '-'] s = none)
    (hd : afterLetters? "doctype".toList s = none) (hc : after? "[CDATA[".toList s = some t) :
    readDeclaration true s
      = (.cdata (consumed ('<' :: '!' :: s) (((cut? [']', ']', '>'] t).map (·.2)).getD [])),
          ((cut? [']', ']', '>'] t).map (·.2)).getD []) := by
  unfold readDeclaration
  simp only [h, hd, hc, if_true]

theorem readDeclaration_loose {foreign : Bool} {s : Text} (h : after? ['-', '-'] s = none)
    (hd : afterLetters? "doctype".toList s = none)
    (hc : foreign = true → after? "[CDATA[".toList s = none) :
    readDeclaration foreign s
      = (.comment (consumed ('<' :: '!' :: s) (readLoose s).2) (readLoose s).1,
          (readLoose s).2) := by
  unfold readDeclaration
  simp only [h, hd]
  cases hs : after? "[CDATA[".toList s with
  | none => rfl
  | some t =>
    cases foreign with
    | false => rfl
    | true => rw [hc rfl] at hs; cases hs

/-! A declaration that ends is read whatever follows it. -/

theorem takes_comment {foreign : Bool} {t rest : Text} {token : Token} (hrest : rest ≠ [])
    (h : readDeclaration foreign ('-' :: '-' :: t) = (token, rest)) :
    Takes (readDeclaration foreign) ('-' :: '-' :: t) rest token := by
  rw [readDeclaration_comment] at h
  obtain ⟨htoken, hr⟩ := Prod.mk.inj h
  obtain ⟨u, rfl, -, hu⟩ := exists_readComment (.inl hrest) (Prod.ext rfl hr)
  refine ⟨'-' :: '-' :: u, rfl, fun rest' => ?_⟩
  have hsource (r : Text) : consumed ('<' :: '!' :: '-' :: '-' :: (u ++ '>' :: r)) r
      = '<' :: '!' :: '-' :: '-' :: (u ++ ['>']) := consumed_declaration ('-' :: '-' :: u) r
  rw [hr, hsource] at htoken
  rw [List.cons_append, List.cons_append, readDeclaration_comment, hu, hsource, htoken]

theorem takes_doctype {foreign : Bool} {s t rest : Text} {token : Token} (hrest : rest ≠ [])
    (hcomment : after? ['-', '-'] s = none) (hd : afterLetters? "doctype".toList s = some t)
    (h : readDeclaration foreign s = (token, rest)) :
    Takes (readDeclaration foreign) s rest token := by
  rw [readDeclaration_doctype hcomment hd] at h
  obtain ⟨htoken, hr⟩ := Prod.mk.inj h
  obtain ⟨content, hloose⟩ : ∃ content, readLoose t = (content, rest) := ⟨_, Prod.ext rfl hr⟩
  obtain ⟨rfl, hu⟩ := exists_readLoose hrest hloose
  obtain ⟨w, rfl⟩ := afterLetters?_suffix hd
  -- what the declaration begins with must not be a matter of `rest`
  rw [← List.append_assoc] at hcomment hd htoken ⊢
  refine ⟨w ++ content, rfl, fun rest' => ?_⟩
  rw [hr, consumed_declaration] at htoken
  rw [readDeclaration_doctype (after?_move (by decide) hcomment rest')
    (afterLetters?_move_some (by simp) hd rest'), hu, consumed_declaration, htoken]

theorem takes_cdata {t rest : Text} {token : Token} (hrest : rest ≠ [])
    (hcomment : after? ['-', '-'] ("[CDATA[".toList ++ t) = none)
    (hd : afterLetters? "doctype".toList ("[CDATA[".toList ++ t) = none)
    (h : readDeclaration true ("[CDATA[".toList ++ t) = (token, rest)) :
    Takes (readDeclaration true) ("[CDATA[".toList ++ t) rest token := by
  rw [readDeclaration_cdata hcomment hd (after?_append _ _)] at h
  obtain ⟨htoken, hr⟩ := Prod.mk.inj h
  cases hcut : cut? [']', ']', '>'] t with
  | none =>
    rw [hcut] at hr
    exact absurd hr.symm hrest
  | some p =>
    obtain ⟨front, r⟩ := p
    rw [hcut] at hr htoken
    obtain rfl : r = rest := hr
    obtain rfl := cut?_eq_some hcut
    have htext (r : Text) : "[CDATA[".toList ++ (front ++ [']', ']', '>'] ++ r)
        = "[CDATA[".toList ++ front ++ [']', ']'] ++ '>' :: r := by simp
    refine ⟨"[CDATA[".toList ++ front ++ [']', ']'], htext r, fun rest' => ?_⟩
    rw [htext] at hcomment hd htoken
    have hcut' : ((cut? [']', ']', '>'] (front ++ [']', ']', '>'] ++ rest')).map (·.2)).getD []
        = rest' := by
      rw [cut?_append (by decide) hcut rest']
      rfl
    rw [readDeclaration_cdata (after?_move (by decide) hcomment rest')
      (afterLetters?_move (by simp) hd rest') (by rw [← htext]; exact after?_append _ _), hcut',
      consumed_declaration, ← htoken]
    exact congrArg (fun source => (Token.cdata source, rest')) (consumed_declaration _ r).symm

theorem takes_loose {foreign : Bool} {s rest : Text} {token : Token} (hrest : rest ≠ [])
    (hcomment : after? ['-', '-'] s = none) (hd : afterLetters? "doctype".toList s = none)
    (hc : foreign = true → after? "[CDATA[".toList s = none)
    (h : readDeclaration foreign s = (token, rest)) :
    Takes (readDeclaration foreign) s rest token := by
  rw [readDeclaration_loose hcomment hd hc] at h
  obtain ⟨htoken, hr⟩ := Prod.mk.inj h
  obtain ⟨content, hloose⟩ : ∃ content, readLoose s = (content, rest) := ⟨_, Prod.ext rfl hr⟩
  rw [hloose] at htoken
  obtain ⟨rfl, hu⟩ := exists_readLoose hrest hloose
  refine ⟨content, rfl, fun rest' => ?_⟩
  rw [consumed_declaration] at htoken
  rw [readDeclaration_loose (after?_move (by decide) hcomment rest')
    (afterLetters?_move (by simp) hd rest')
    (fun hf => after?_move (by decide) (hc hf) rest'), hu, consumed_declaration, htoken]

theorem takes_readDeclaration {foreign : Bool} {s rest : Text} {token : Token} (hrest : rest ≠ [])
    (h : readDeclaration foreign s = (token, rest)) :
    Takes (readDeclaration foreign) s rest token := by
  cases hcomment : after? ['-', '-'] s with
  | some t =>
    obtain rfl := after?_eq_some_iff.mp hcomment
    exact takes_comment hrest h
  | none =>
    cases hd : afterLetters? "doctype".toList s with
    | some t => exact takes_doctype hrest hcomment hd h
    | none =>
      cases hc : after? "[CDATA[".toList s with
      | none => exact takes_loose hrest hcomment hd (fun _ => hc) h
      | some t =>
        cases foreign with
        | false => exact takes_loose hrest hcomment hd (by simp) h
        | true =>
          obtain rfl := after?_eq_some_iff.mp hc
          exact takes_cdata hrest hcomment hd h

/-! ## Tags -/

theorem consumed_append_stop {front u rest : Text} :
    consumed (front ++ (u ++ '>' :: rest)) rest = front ++ (u ++ ['>']) := by
  rw [show front ++ (u ++ '>' :: rest) = front ++ (u ++ ['>']) ++ rest by simp]
  exact consumed_of_append _ _

/-- A tag that ends is read whatever follows it. -/
theorem takes_readTag {make : Text → Text → TagBody → Token} (front : Text) {s rest : Text}
    {token : Token} (hrest : rest ≠ []) (h : readTag make (front ++ s) s = (token, rest)) :
    Takes (fun s => readTag make (front ++ s) s) s rest token := by
  unfold readTag at h
  cases hb : readTagBody (s.dropWhile isTagNamePart) with
  | none =>
    rw [hb] at h
    exact absurd (Prod.mk.inj h).2.symm hrest
  | some p =>
    obtain ⟨body, r⟩ := p
    rw [hb] at h
    obtain ⟨htoken, rfl⟩ := Prod.mk.inj h
    obtain ⟨t, hspell, ht⟩ := TagBody.exists_spells hb
    obtain ⟨u, rfl⟩ := hspell.exists_stop
    obtain ⟨x, rfl⟩ : ∃ x, s = x ++ '>' :: r := by
      refine ⟨s.takeWhile isTagNamePart ++ u, ?_⟩
      rw [List.append_assoc, ← List.singleton_append, ← List.append_assoc u, ← ht,
        List.takeWhile_append_dropWhile]
    -- the name ends at the `>` at the latest, whatever stands behind it
    have hgt : isTagNamePart '>' = false := by decide
    have hu : x.dropWhile isTagNamePart = u := by
      rw [dropWhile_append_stop hgt, List.append_assoc, List.singleton_append] at ht
      exact List.append_cancel_right ht
    refine ⟨x, rfl, fun rest' => ?_⟩
    have hread : readTagBody (x.dropWhile isTagNamePart ++ '>' :: rest') = some (body, rest') := by
      rw [hu]
      simpa using TagBody.readTagBody_append hspell rest'
    rw [takeWhile_append_stop hgt, consumed_append_stop] at htoken
    simp only [readTag]
    rw [dropWhile_append_stop hgt, hread, takeWhile_append_stop hgt]
    show (make (consumed (front ++ (x ++ '>' :: rest')) rest') _ body, rest') = (token, rest')
    rw [consumed_append_stop, htoken]

theorem readLooseComment_eq (whole s : Text) : readLooseComment whole s
    = (.comment (consumed whole (readLoose s).2) (readLoose s).1, (readLoose s).2) := rfl

theorem takes_readLooseComment (front : Text) {s rest : Text} {token : Token} (hrest : rest ≠ [])
    (h : readLooseComment (front ++ s) s = (token, rest)) :
    Takes (fun s => readLooseComment (front ++ s) s) s rest token := by
  rw [readLooseComment_eq] at h
  obtain ⟨htoken, hr⟩ := Prod.mk.inj h
  obtain ⟨content, hloose⟩ : ∃ content, readLoose s = (content, rest) := ⟨_, Prod.ext rfl hr⟩
  rw [hloose] at htoken
  obtain ⟨rfl, hu⟩ := exists_readLoose hrest hloose
  refine ⟨content, rfl, fun rest' => ?_⟩
  rw [consumed_append_stop] at htoken
  show readLooseComment (front ++ (content ++ '>' :: rest')) _ = _
  rw [readLooseComment_eq, hu, consumed_append_stop, htoken]

/-! ## Markup in a page and in foreign content -/

theorem readMarkup_endTag {foreign : Bool} {c : Char} (hc : c.isAlpha = true) (t : Text) :
    readMarkup foreign ('/' :: c :: t) = readTag makeEndTag ('<' :: '/' :: c :: t) (c :: t) := by
  rw [readMarkup]
  · rw [if_pos hc]
  · intro hgt
    rw [hgt] at hc
    cases hc

theorem readMarkup_looseEnd {foreign : Bool} {c : Char} (hc : c.isAlpha = false) (hgt : c ≠ '>')
    (t : Text) :
    readMarkup foreign ('/' :: c :: t) = readLooseComment ('<' :: '/' :: c :: t) (c :: t) := by
  rw [readMarkup]
  · rw [if_neg (by simp [hc])]
  · exact hgt

theorem readMarkup_startTag {foreign : Bool} {c : Char} (hc : c.isAlpha = true) (t : Text) :
    readMarkup foreign (c :: t) = readTag makeStartTag ('<' :: c :: t) (c :: t) := by
  have hne {d : Char} (hd : d.isAlpha = false) : c ≠ d := by
    rintro rfl
    rw [hc] at hd
    cases hd
  rw [readMarkup]
  · rw [if_pos hc]
  · exact hne (by decide)
  · exact hne (by decide)
  · intro _ h
    exact absurd h (hne (by decide))
  · intro _ _ h
    exact absurd h (hne (by decide))

/-- A character that no markup begins with. -/
def startsNothing (c : Char) : Bool := !(c.isAlpha || c == '!' || c == '?' || c == '/')

theorem readMarkup_char {foreign : Bool} {c : Char} (hc : startsNothing c = true) (t : Text) :
    readMarkup foreign (c :: t) = (.char '<', c :: t) := by
  simp only [startsNothing, Bool.not_eq_true', Bool.or_eq_false_iff, beq_eq_false_iff_ne] at hc
  obtain ⟨⟨⟨halpha, hbang⟩, hquestion⟩, hslash⟩ := hc
  rw [readMarkup]
  · rw [if_neg (by simp [halpha])]
  · exact hbang
  · exact hquestion
  · intro _ h
    exact absurd h hslash
  · intro _ _ h
    exact absurd h hslash

/-- Markup that ends is read whatever follows it. -/
theorem takes_readMarkup {foreign : Bool} {s rest : Text} {token : Token} (hrest : rest ≠ [])
    (hchar : token ≠ .char '<') (h : readMarkup foreign s = (token, rest)) :
    Takes (readMarkup foreign) s rest token := by
  unfold readMarkup at h
  split at h
  · next t =>
    obtain ⟨u, rfl, hu⟩ := takes_readDeclaration hrest h
    exact ⟨'!' :: u, rfl, hu⟩
  · next t =>
    obtain ⟨u, rfl, hu⟩ := (takes_readLooseComment ['<'] hrest h).cons (by decide)
    exact ⟨'?' :: u, rfl, hu⟩
  · next t =>
    obtain ⟨rfl, rfl⟩ := Prod.mk.inj h
    exact ⟨['/'], rfl, fun _ => rfl⟩
  · next c t hgt =>
    split at h
    · next hc =>
      obtain ⟨u, rfl, hu⟩ := (takes_readTag ['<', '/'] hrest h).cons hgt
      exact ⟨'/' :: c :: u, rfl, fun rest' => by
        rw [List.cons_append, List.cons_append, readMarkup_endTag hc]; exact hu rest'⟩
    · next hc =>
      obtain ⟨u, rfl, hu⟩ := (takes_readLooseComment ['<', '/'] hrest h).cons hgt
      refine ⟨'/' :: c :: u, rfl, fun rest' => ?_⟩
      rw [List.cons_append, List.cons_append, readMarkup_looseEnd (by simpa using hc) hgt]
      exact hu rest'
  · next c t _ _ _ _ =>
    split at h
    · next hc =>
      have hgt : c ≠ '>' := by
        rintro rfl
        cases hc
      obtain ⟨u, rfl, hu⟩ := (takes_readTag ['<'] hrest h).cons hgt
      exact ⟨c :: u, rfl, fun rest' => by
        rw [List.cons_append, readMarkup_startTag hc]; exact hu rest'⟩
    · exact absurd (Prod.mk.inj h).1.symm hchar
  · exact absurd (Prod.mk.inj h).1.symm hchar

end Mailout.Markup
