import Mailout.Proofs.Markup.Context
import Mailout.Proofs.Markup.Takes

/-!
# Reading a token again

A token that was read is read again where its own text stands in front of another text. Only a `<`
between tags is read by what follows it, and there the next `<` is as far as the reader looks
(`SameStart`).

## Main statements

* `readToken_again` — a token is read again in the same context;
* `after_again` — and the context after it is the same.
-/

namespace Mailout.Markup

open Text

/-! ## What a reader looks at -/

/-- The texts are the same, or the same up to a `<`. -/
inductive SameStart : Text → Text → Prop
  | nil : SameStart [] []
  | markup (s s' : Text) : SameStart ('<' :: s) ('<' :: s')
  | cons (c : Char) {s s' : Text} (h : SameStart s s') : SameStart (c :: s) (c :: s')

theorem SameStart.refl (s : Text) : SameStart s s := by
  induction s with
  | nil => exact .nil
  | cons c s ih => exact .cons c ih

theorem SameStart.append (front : Text) {s s' : Text} (h : SameStart s s') :
    SameStart (front ++ s) (front ++ s') := by
  induction front with
  | nil => exact h
  | cons c front ih => exact .cons c ih

theorem SameStart.eq_nil {s : Text} (h : SameStart [] s) : s = [] := by
  cases h
  rfl

theorem SameStart.isPrefixOf_eq {p s s' : Text} (h : SameStart s s') (hp : '<' ∉ p) :
    p.isPrefixOf s = p.isPrefixOf s' := by
  induction h generalizing p with
  | nil => rfl
  | markup s s' =>
    cases p with
    | nil => rfl
    | cons a p =>
      have ha : (a == '<') = false := beq_false_of_ne fun h => hp (by simp [h])
      simp [List.isPrefixOf, ha]
  | cons c _ ih =>
    cases p with
    | nil => rfl
    | cons a p =>
      simp only [List.mem_cons, not_or] at hp
      simp [List.isPrefixOf, ih hp.2]

/-- The character behind a name is a matter of the start too. -/
theorem SameStart.afterLetters?_eq {p s s' : Text} (h : SameStart s s')
    (hp : ∀ a ∈ p, a.toLower ≠ '<') :
    (afterLetters? p s).map List.head? = (afterLetters? p s').map List.head? := by
  induction h generalizing p with
  | nil => rfl
  | markup s s' =>
    cases p with
    | nil => rfl
    | cons a p =>
      have ha : a.toLower ≠ '<' := hp a List.mem_cons_self
      simp [afterLetters?, ha]
  | cons c _ ih =>
    cases p with
    | nil => rfl
    | cons a p =>
      by_cases hc : a.toLower = c.toLower
      · simp [afterLetters?, hc, ih fun b hb => hp b (List.mem_cons_of_mem _ hb)]
      · simp [afterLetters?, hc]

theorem startsTagName_congr {name s s' : Text}
    (h : (afterLetters? name s).map List.head? = (afterLetters? name s').map List.head?) :
    startsTagName name s = startsTagName name s' := by
  have hhead (t : Text) : startsTagName name t = (((afterLetters? name t).map List.head?).bind
      id).any fun c => isMarkupSpace c || c == '/' || c == '>' := by
    unfold startsTagName
    rcases afterLetters? name t with _ | _ | ⟨c, u⟩ <;> rfl
  rw [hhead, hhead, h]

theorem SameStart.startsTagName_eq {name s s' : Text} (h : SameStart s s')
    (hname : ∀ a ∈ name, a.toLower ≠ '<') : startsTagName name s = startsTagName name s' :=
  startsTagName_congr (h.afterLetters?_eq hname)

/-- A `>` ends a tag's name, so nothing behind it counts. -/
theorem startsTagName_append_stop {name : Text} (hname : ∀ a ∈ name, a.toLower ≠ '>')
    (s t t' : Text) : startsTagName name (s ++ '>' :: t) = startsTagName name (s ++ '>' :: t') := by
  refine startsTagName_congr ?_
  rw [afterLetters?_append_stop hname, afterLetters?_append_stop (t := t') hname]
  cases h : afterLetters? name (s ++ ['>']) with
  | none => rfl
  | some u =>
    cases u with
    | nil => exact absurd h (afterLetters?_append_stop_ne_nil hname s)
    | cons d u => rfl

/-! ## Tokens -/

theorem source_append {ctx : Context} {c : Char} {s rest : Text} {t : Token}
    (h : readToken ctx c s = (t, rest)) : t.source ++ rest = c :: s := by
  have hsource := readToken_source ctx c s
  rwa [h] at hsource

/-- What a reader takes is read again. -/
theorem Takes.again {read : Text → Token × Text} {s rest : Text} {t : Token}
    (h : Takes read s rest t) (hsource : t.source ++ rest = '<' :: s) (rest' : Text) :
    ∃ s', t.source ++ rest' = '<' :: s' ∧ read s' = (t, rest') := by
  obtain ⟨u, rfl, hu⟩ := h
  refine ⟨u ++ '>' :: rest', ?_, hu rest'⟩
  have hs : t.source ++ rest = '<' :: (u ++ ['>']) ++ rest := by simp [hsource]
  have hs : t.source = '<' :: (u ++ ['>']) := List.append_cancel_right hs
  simp [hs]

/-- A declaration is read as no character and no tag. -/
theorem readDeclaration_ne {t : Token} (ht : ∀ source content, t ≠ .scrap source ∧
    t ≠ .cdata source ∧ t ≠ .doctype source ∧ t ≠ .comment source content) (foreign : Bool)
    (s : Text) : (readDeclaration foreign s).1 ≠ t := by
  unfold readDeclaration
  dsimp only
  repeat' split
  all_goals
    rintro rfl
    simp at ht

/-- A tag is read as what is made of it, if it ends at all. -/
theorem readTag_ne {make : Text → Text → TagBody → Token} {whole s : Text} {t : Token}
    (hmake : ∀ source name body, make source name body ≠ t) (hscrap : ∀ source, t ≠ .scrap source) :
    (readTag make whole s).1 ≠ t := by
  unfold readTag
  split
  · exact hmake _ _ _
  · exact (hscrap _).symm

/-- A `<` in front of what markup begins with is a character only if the text ends there. -/
theorem eq_slash_of_readMarkup_char {foreign : Bool} {c d : Char} {t : Text}
    (hc : startsNothing c = false) (h : (readMarkup foreign (c :: t)).1 = .char d) :
    c = '/' ∧ t = [] := by
  have hchar : ∀ source, Token.char d ≠ .scrap source := fun _ => Token.noConfusion
  unfold readMarkup at h
  split at h
  · exact absurd h (readDeclaration_ne (by simp) _ _)
  · cases h
  · cases h
  · split at h
    · exact absurd h (readTag_ne (fun _ _ _ => Token.noConfusion) hchar)
    · cases h
  · next c' t' hbang hquestion hgt hslash heq =>
    obtain ⟨rfl, rfl⟩ := List.cons.inj heq
    split at h
    · exact absurd h (readTag_ne (fun _ _ _ => Token.noConfusion) hchar)
    · next halpha =>
      have hc' : c = '/' := by
        simpa [startsNothing, halpha, show c ≠ '!' from hbang, show c ≠ '?' from hquestion] using hc
      refine ⟨hc', ?_⟩
      cases t with
      | nil => rfl
      | cons d t => exact (hslash d t hc' rfl).elim
  · next heq => cases heq

/-- A `<` that is no markup stays so. -/
theorem readMarkup_char_again {foreign : Bool} {s s' : Text}
    (h : readMarkup foreign s = (.char '<', s)) (hstart : SameStart s s') :
    readMarkup foreign s' = (.char '<', s') := by
  cases hstart with
  | nil => exact h
  | markup _ s' => exact readMarkup_char (by decide) s'
  | @cons c t t' ht =>
    by_cases hc : startsNothing c = true
    · exact readMarkup_char hc t'
    · obtain ⟨-, rfl⟩ := eq_slash_of_readMarkup_char (by simpa using hc) (congrArg Prod.fst h)
      rw [ht.eq_nil]
      exact h

theorem readMarkup_again {foreign : Bool} {s rest rest' : Text} {t : Token}
    (h : readMarkup foreign s = (t, rest)) (hstart : SameStart rest rest') :
    ∃ s', t.source ++ rest' = '<' :: s' ∧ readMarkup foreign s' = (t, rest') := by
  have hsource : t.source ++ rest = '<' :: s := by
    have := readMarkup_source foreign s
    rwa [h] at this
  by_cases hchar : t = .char '<'
  · subst hchar
    obtain rfl : rest = s := (List.cons.inj hsource).2
    exact ⟨rest', rfl, readMarkup_char_again h hstart⟩
  · by_cases hrest : rest = []
    · -- the token may go to the end of the text, and then the text is the same one
      subst hrest
      rw [hstart.eq_nil]
      exact ⟨s, hsource, h⟩
    · exact (takes_readMarkup hrest hchar h).again hsource rest'

/-! Where only an element's own end tag is markup, the start of the text decides. -/

theorem startsTagName_slash (name t : Text) :
    startsTagName ('/' :: name) ('/' :: t) = startsTagName name t := by
  simp [startsTagName, afterLetters?]

theorem readOwnEnd_of_starts {name t : Text} (h : startsTagName ('/' :: name) ('/' :: t) = true) :
    readOwnEnd name ('/' :: t) = readTag makeEndTag ('<' :: '/' :: t) t := by
  rw [startsTagName_slash] at h
  rw [readOwnEnd, if_pos h]

theorem exists_of_starts {name s : Text} (h : startsTagName ('/' :: name) s = true) :
    ∃ t, s = '/' :: t := by
  cases s with
  | nil => simp [startsTagName, afterLetters?] at h
  | cons c t =>
    by_cases hc : '/'.toLower = c.toLower
    · exact ⟨t, by rw [eq_of_toLower_eq hc.symm (by decide)]⟩
    · have hc : ('/' == c.toLower) = false := beq_false_of_ne hc
      simp [startsTagName, afterLetters?, hc] at h

theorem readOwnEnd_char {name s : Text} (h : startsTagName ('/' :: name) s = false) :
    readOwnEnd name s = (.char '<', s) := by
  unfold readOwnEnd
  split
  · next t =>
    rw [startsTagName_slash] at h
    rw [if_neg (by simp [h])]
  · rfl

theorem readOwnEnd_again {name s rest rest' : Text} {t : Token} (hname : IsLetters name)
    (h : readOwnEnd name s = (t, rest)) (hstart : SameStart rest rest') :
    ∃ s', t.source ++ rest' = '<' :: s' ∧ readOwnEnd name s' = (t, rest') := by
  have hsource : t.source ++ rest = '<' :: s := by
    have := readOwnEnd_source name s
    rwa [h] at this
  have hlt : ∀ a ∈ '/' :: name, a.toLower ≠ '<' :=
    hname.slash_toLower_ne (show '<'.isAlpha = false by decide) (by decide)
  have hgt : ∀ a ∈ '/' :: name, a.toLower ≠ '>' :=
    hname.slash_toLower_ne (show '>'.isAlpha = false by decide) (by decide)
  cases hs : startsTagName ('/' :: name) s with
  | false =>
    rw [readOwnEnd_char hs] at h
    obtain ⟨rfl, rfl⟩ := Prod.mk.inj h
    rw [hstart.startsTagName_eq hlt] at hs
    exact ⟨rest', rfl, readOwnEnd_char hs⟩
  | true =>
    by_cases hrest : rest = []
    · subst hrest
      rw [hstart.eq_nil]
      exact ⟨s, hsource, h⟩
    · obtain ⟨u, rfl⟩ := exists_of_starts hs
      rw [readOwnEnd_of_starts hs] at h
      obtain ⟨v, rfl, hv⟩ := takes_readTag ['<', '/'] hrest h
      refine Takes.again ⟨'/' :: v, rfl, fun r => ?_⟩ hsource rest'
      rw [← List.cons_append, startsTagName_append_stop hgt _ _ r] at hs
      rw [List.cons_append] at hs ⊢
      rw [readOwnEnd_of_starts hs]
      exact hv r

/-- **A token is read again where its own text stands in front of another text** that starts like
what was left. -/
theorem readToken_again {ctx : Context} {c : Char} {s rest rest' : Text} {t : Token}
    (hmode : ctx.mode.IsNamed) (h : readToken ctx c s = (t, rest)) (hstart : SameStart rest rest') :
    ∃ s', t.source ++ rest' = c :: s' ∧ readToken ctx c s' = (t, rest') := by
  by_cases hc : c = '<'
  · subst hc
    have hchar {t : Token} {rest : Text} (h : (Token.char '<', s) = (t, rest))
        (hstart : SameStart rest rest') :
        t.source ++ rest' = '<' :: rest' ∧ (Token.char '<', rest') = (t, rest') := by
      obtain ⟨rfl, rfl⟩ := Prod.mk.inj h
      exact ⟨rfl, rfl⟩
    obtain ⟨mode, kinds⟩ := ctx
    cases mode with
    | data => exact readMarkup_again h hstart
    | textOnly name => exact readOwnEnd_again hmode h hstart
    | plain => exact ⟨rest', hchar h hstart⟩
    | script st =>
      by_cases hst : st.part = .nested
      · have hread (s : Text) : readToken ⟨.script st, kinds⟩ '<' s = (.char '<', s) := by
          simp [readToken, hst]
        rw [hread] at h
        simp only [hread]
        exact ⟨rest', hchar h hstart⟩
      · have hread (s : Text) :
            readToken ⟨.script st, kinds⟩ '<' s = readOwnEnd "script".toList s := by
          simp [readToken, hst]
        rw [hread] at h
        simp only [hread]
        exact readOwnEnd_again isLetters_script h hstart
  · have hread (s : Text) : readToken ctx c s = (.char c, s) := by
      simp [readToken, hc]
    rw [hread] at h
    obtain ⟨rfl, rfl⟩ := Prod.mk.inj h
    exact ⟨rest', rfl, hread rest'⟩

/-! ## Contexts -/

theorem ScriptState.after_eq {rest rest' : Text} (h : SameStart rest rest') (st : ScriptState)
    (c : Char) : st.after c rest = st.after c rest' := by
  have hbang : ['!', '-', '-'].isPrefixOf rest = ['!', '-', '-'].isPrefixOf rest' :=
    h.isPrefixOf_eq (by decide)
  have hname {name : Text} (hn : ∀ a ∈ name, a.toLower ≠ '<') :
      startsTagName name rest = startsTagName name rest' := h.startsTagName_eq hn
  have hscript : startsTagName "script".toList rest = startsTagName "script".toList rest' :=
    hname (by simp)
  have hend : startsTagName "/script".toList rest = startsTagName "/script".toList rest' :=
    hname (by simp)
  simp only [ScriptState.after, hbang, hscript, hend]

/-- The context after a token is a matter of the start of what is left too. -/
theorem Context.after_eq {rest rest' : Text} (h : SameStart rest rest') (ctx : Context)
    (t : Token) : ctx.after t rest = ctx.after t rest' := by
  unfold Context.after
  split
  · split
    · rw [ScriptState.after_eq h]
    · rfl
  · rfl
  · rfl
  · rfl

end Mailout.Markup
