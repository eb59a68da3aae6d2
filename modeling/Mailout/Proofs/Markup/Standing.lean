import Mailout.Proofs.Markup.Rewritten

/-!
# Reading stripped markup

Stripped markup is read again token by token, next to the reading of the markup it was made of. A
token *stands* if what is written for it is read back: an edited comment must not end early, and an
edited tag's attributes must stand apart.

An edited tag is never dangling. Where the tag it was made of is, and opens a text-only element, the
two readers come apart: one reads on in the page, the other one inside the element. They read the
same tokens as long as these are characters, and meet again at the element's end tag.

## Main statements

* `inStep_after` — what one token that stands does to the two readers;
* `tokensFrom_written` — if all tokens stand, stripped markup is read as the stripped tokens.
-/

namespace Mailout.Markup

open Text Attribute

/-! ## Text-only elements -/

/-- The text starts with the end tag that counts in this mode. -/
def Mode.EndsAt (mode : Mode) (s : Text) : Prop :=
  mode = .data ∨ ∃ name ∈ mode.endName?,
    s.head? = some '<' ∧ startsTagName ('/' :: name) s.tail = true

instance (mode : Mode) (s : Text) : Decidable (mode.EndsAt s) :=
  inferInstanceAs (Decidable (mode = .data ∨ ∃ name ∈ mode.endName?, _ ∧ _))

/-- The tokens are characters up to the end tag that counts in this mode. -/
def TextUpToEnd (mode : Mode) : List Token → Prop
  | [] => True
  | .char _ :: ts => TextUpToEnd mode ts
  | t :: ts => mode.EndsAt ((t :: ts).flatMap Token.source)

instance (mode : Mode) : (ts : List Token) → Decidable (TextUpToEnd mode ts)
  | [] => .isTrue trivial
  | t :: ts =>
    have := instDecidableTextUpToEnd mode ts
    match t with
    | .char _ => this
    | .scrap _ | .cdata _ | .doctype _ | .comment .. | .startTag .. | .endTag .. =>
      inferInstanceAs (Decidable (mode.EndsAt _))

/-! ## Tokens that stand -/

/-- What is written for the token, in front of the tokens `ts`, is read back. -/
def Stands (ctx : Context) (ts : List Token) : Token → Prop
  | .comment _ content => ∀ text ∈ ClassRun.clean? (dropMark content), IsCommentContent text
  | .startTag _ tag => ∀ attrs ∈ cleanAttributes? tag.attributes,
      Apart attrs ∧ (tag.body.dangling = true → TextUpToEnd (ctx.opens tag) ts)
  | _ => True

instance (ctx : Context) (ts : List Token) (t : Token) : Decidable (Stands ctx ts t) :=
  match t with
  | .comment _ content =>
    inferInstanceAs
      (Decidable (∀ text ∈ ClassRun.clean? (dropMark content), IsCommentContent text))
  | .startTag _ tag =>
    inferInstanceAs (Decidable (∀ attrs ∈ cleanAttributes? tag.attributes,
      Apart attrs ∧ (tag.body.dangling = true → TextUpToEnd (ctx.opens tag) ts)))
  | .char _ | .scrap _ | .cdata _ | .doctype _ | .endTag .. => .isTrue trivial

/-- Every token stands. -/
def AllStand : Context → List Token → Prop
  | _, [] => True
  | ctx, t :: ts => Stands ctx ts t ∧ AllStand (ctx.after t (ts.flatMap Token.source)) ts

instance : (ctx : Context) → (ts : List Token) → Decidable (AllStand ctx ts)
  | _, [] => .isTrue trivial
  | ctx, t :: ts =>
    have := instDecidableAllStand (ctx.after t (ts.flatMap Token.source)) ts
    inferInstanceAs (Decidable (Stands ctx ts t ∧ AllStand (ctx.after t _) ts))

/-- The two readers are in the same context, or one is inside a text-only element that ends before
any other markup. -/
inductive InStep : Context → Context → List Token → Prop
  | same (ctx : Context) (ts : List Token) : InStep ctx ctx ts
  | opened {kinds : List ContentKind} {mode : Mode} {ts : List Token} (hmode : mode.IsOpening)
      (hpage : Context.isForeign ⟨.data, kinds⟩ = false) (htext : TextUpToEnd mode ts) :
      InStep ⟨.data, kinds⟩ ⟨mode, kinds⟩ ts

/-! ## The context after an edited start tag -/

theorem inStep_after_startTagWith {ctx : Context} {source rest rest' : Text} {tag : StartTag}
    {attrs : List Attribute} {ts : List Token}
    (hclean : cleanAttributes? tag.attributes = some attrs)
    (htext : tag.body.dangling = true → TextUpToEnd (ctx.opens tag) ts) :
    InStep (ctx.after (.startTag source tag) rest)
      (ctx.after (Token.startTagWith tag attrs) rest') ts := by
  have hkinds : ctx.kindsAfterStart ⟨tag.name, attrs, tag.body.selfClosing, false⟩
      = ctx.kindsAfterStart tag := kindsAfterStart_eq rfl rfl (others_cleanAttributes? hclean)
  rw [Token.startTagWith, after_startTag, after_startTag, hkinds]
  show InStep _ ⟨ctx.opens tag, _⟩ ts
  cases hd : tag.body.dangling with
  | false => exact .same _ ts
  | true =>
    have htext := htext hd
    unfold Context.opens at htext ⊢
    rw [if_pos rfl]
    by_cases hpage : (isOneOf ["svg"] tag.name || isOneOf ["math"] tag.name || ctx.isForeign) = true
    · rw [if_pos hpage]
      exact .same _ ts
    · rw [if_neg hpage] at htext ⊢
      simp only [Bool.or_eq_true, not_or, Bool.not_eq_true] at hpage
      rw [show ctx.kindsAfterStart tag = ctx.kinds by
        simp [Context.kindsAfterStart, hpage]]
      exact .opened (Mode.isOpening_ofName _) hpage.2 htext

/-! ## One token in the same context -/

/-- What is written starts like what it was made of. -/
theorem sameStart_cleaned {ctx : Context} {c : Char} {s rest rest' : Text} {t : Token}
    (h : readToken ctx c s = (t, rest)) (hcan : t.CanStrip) (hstart : SameStart rest rest') :
    SameStart (c :: s) (t.cleaned.source ++ rest') := by
  have hsource := source_append h
  rcases hcan.cleaned_cases with ht | ⟨_, _, text, rfl, -, ht⟩ | ⟨_, tag, attrs, rfl, -, ht⟩
  · rw [ht, ← hsource]
    exact hstart.append t.source
  · obtain ⟨-, rfl, -⟩ := readMarkup_of_readToken h (by simp) (by simp) (by simp)
    rw [ht]
    exact .markup _ _
  · obtain ⟨-, rfl, -⟩ := readMarkup_of_readToken h (by simp) (by simp) (by simp)
    rw [ht]
    exact .markup _ _

theorem written_cons (t : Token) (ts : List Token) :
    written (t :: ts) = t.cleaned.source ++ written ts := rfl

theorem sameStart_written (ctx : Context) (s : Text)
    (hcan : ∀ t ∈ tokensFrom ctx s, t.CanStrip) : SameStart s (written (tokensFrom ctx s)) := by
  fun_induction tokensFrom ctx s with
  | case1 => exact .nil
  | case2 ctx c s t rest h ih =>
    simp only [List.mem_cons, forall_eq_or_imp] at hcan
    rw [written_cons]
    exact sameStart_cleaned h hcan.1 (ih hcan.2)

theorem readToken_data {ctx : Context} (hmode : ctx.mode = .data) (s : Text) :
    readToken ctx '<' s = readMarkup ctx.isForeign s := by
  simp [readToken, hmode]

/-- **A token that stands is read back in the same context.** -/
theorem readToken_cleaned {ctx : Context} {c : Char} {s rest rest' : Text} {t : Token}
    {ts : List Token} (hnamed : ctx.mode.IsNamed) (h : readToken ctx c s = (t, rest))
    (hcan : t.CanStrip) (hstands : Stands ctx ts t) (hstart : SameStart rest rest') :
    (∃ s', t.cleaned.source ++ rest' = c :: s' ∧ readToken ctx c s' = (t.cleaned, rest')) ∧
      InStep (ctx.after t rest) (ctx.after t.cleaned rest') ts := by
  rcases hcan.cleaned_cases with
    ht | ⟨_, _, text, rfl, hclean, ht⟩ | ⟨_, tag, attrs, rfl, hclean, ht⟩
  · rw [ht, Context.after_eq hstart]
    exact ⟨readToken_again hnamed h hstart, .same _ ts⟩
  · obtain ⟨hmode, rfl, -⟩ := readMarkup_of_readToken h (by simp) (by simp) (by simp)
    rw [ht]
    refine ⟨⟨'!' :: '-' :: '-' :: (text ++ '-' :: '-' :: '>' :: rest'), ?_, ?_⟩, .same _ ts⟩
    · simp [Token.commentOf, Token.source]
    · rw [readToken_data hmode]
      exact readMarkup_commentOf_iff.mpr (hstands text hclean)
  · obtain ⟨hmode, rfl, hread⟩ := readMarkup_of_readToken h (by simp) (by simp) (by simp)
    obtain ⟨hapart, htext⟩ := hstands attrs hclean
    have htag := isRead_of_readMarkup hread
    have hw := htag.isWritten_cleaned hclean
    obtain ⟨s', hs', -, hback⟩ := @readMarkup_startTagWith_iff ctx.isForeign tag htag attrs hw rest'
    rw [ht]
    refine ⟨⟨s', hs', ?_⟩, inStep_after_startTagWith hclean htext⟩
    rw [readToken_data hmode]
    exact hback hapart

/-! ## One token inside a text-only element -/

theorem exists_alpha_of_startsTagName {name s : Text} (hname : IsLetters name)
    (h : startsTagName name s = true) : ∃ c t, s = c :: t ∧ c.isAlpha = true := by
  obtain ⟨hne, halpha⟩ := hname
  cases name with
  | nil => exact absurd rfl hne
  | cons a name =>
    cases s with
    | nil => simp [startsTagName, afterLetters?] at h
    | cons c t =>
      refine ⟨c, t, rfl, ?_⟩
      by_cases hc : a.toLower = c.toLower
      · exact isAlpha_of_toLower_eq hc (halpha a List.mem_cons_self)
      · simp [startsTagName, afterLetters?, hc] at h

theorem readToken_of_endName {mode : Mode} (hmode : mode.IsOpening) {name : Text}
    (hname : name ∈ mode.endName?) (kinds : List ContentKind) (s : Text) :
    readToken ⟨mode, kinds⟩ '<' s = readOwnEnd name s := by
  cases mode with
  | data => cases hname
  | plain => cases hname
  | textOnly n =>
    obtain rfl := Option.some.inj hname
    rfl
  | script st =>
    obtain rfl := Option.some.inj hname
    obtain rfl : st = {} := hmode
    rfl

/-- A `<` that is read as a character in a page is read so inside a text-only element. -/
theorem readToken_opened_char {mode : Mode} {kinds : List ContentKind} {foreign : Bool}
    {s s' : Text} (hmode : mode.IsOpening) (hdata : mode ≠ .data)
    (h : readMarkup foreign s = (.char '<', s)) (hstart : SameStart s s') :
    readToken ⟨mode, kinds⟩ '<' s' = (.char '<', s') := by
  cases hname : mode.endName? with
  | none =>
    cases mode with
    | data => exact absurd rfl hdata
    | plain => rfl
    | textOnly n => cases hname
    | script st => cases hname
  | some name =>
    have hletters := hmode.isLetters hname
    rw [readToken_of_endName hmode hname]
    -- the element's end tag would be markup in a page too
    refine readOwnEnd_char (Bool.eq_false_iff.mpr fun hs' => ?_)
    obtain ⟨t', rfl⟩ := exists_of_starts hs'
    cases hstart with
    | @cons _ t _ ht =>
      obtain ⟨-, rfl⟩ := eq_slash_of_readMarkup_char (by decide) (congrArg Prod.fst h)
      obtain rfl := ht.eq_nil
      rw [startsTagName_slash] at hs'
      obtain ⟨_, _, hnil, -⟩ := exists_alpha_of_startsTagName hletters hs'
      cases hnil

theorem after_opened_char {mode : Mode} {kinds : List ContentKind} {c : Char} {rest : Text}
    (hmode : mode.IsOpening) (hbang : c = '<' → ¬ ['!'] <+: rest) :
    Context.after ⟨mode, kinds⟩ (.char c) rest = ⟨mode, kinds⟩ := by
  cases mode with
  | script st =>
    obtain rfl : st = {} := hmode
    show Context.mk (.script (ScriptState.after {} c rest)) kinds = _
    congr 2
    by_cases hc : c = '<'
    · subst hc
      -- only `<!--` changes the state of a script that has just begun
      refine if_neg fun hp => ?_
      obtain ⟨t, ht⟩ := List.isPrefixOf_iff_prefix.mp hp
      exact hbang rfl ⟨'-' :: '-' :: t, ht⟩
    · simp [ScriptState.after]
  | data => rfl
  | textOnly n => rfl
  | plain => rfl

theorem not_bang_of_readMarkup_char {foreign : Bool} {s s' : Text}
    (h : readMarkup foreign s = (.char '<', s)) (hstart : SameStart s s') : ¬ ['!'] <+: s' := by
  rintro ⟨t, rfl⟩
  cases hstart with
  | @cons _ t _ _ =>
    exact absurd (congrArg Prod.fst h) (readDeclaration_ne (by simp) foreign t)

/-- The own end tag is read alike in a page and inside the element. -/
theorem readOwnEnd_of_readMarkup {foreign : Bool} {name s rest : Text} {t : Token}
    (hname : IsLetters name) (hs : startsTagName ('/' :: name) s = true)
    (h : readMarkup foreign s = (t, rest)) : readOwnEnd name s = (t, rest) := by
  obtain ⟨u, rfl⟩ := exists_of_starts hs
  rw [readOwnEnd_of_starts hs, ← h]
  rw [startsTagName_slash] at hs
  obtain ⟨c, v, rfl, hc⟩ := exists_alpha_of_startsTagName hname hs
  rw [readMarkup_endTag hc]

theorem endTag_or_scrap_of_readOwnEnd {name s rest : Text} {t : Token}
    (hs : startsTagName ('/' :: name) s = true) (h : readOwnEnd name s = (t, rest)) :
    (∃ source n, t = .endTag source n) ∨ ∃ source, t = .scrap source ∧ rest = [] := by
  obtain ⟨u, rfl⟩ := exists_of_starts hs
  rw [readOwnEnd_of_starts hs] at h
  unfold readTag at h
  split at h
  · exact Or.inl ⟨_, _, (Prod.mk.inj h).1.symm⟩
  · exact Or.inr ⟨_, (Prod.mk.inj h).1.symm, (Prod.mk.inj h).2.symm⟩

theorem tokensFrom_cons {ctx : Context} {c : Char} {s rest : Text} {t : Token}
    (h : readToken ctx c s = (t, rest)) :
    tokensFrom ctx (c :: s) = t :: tokensFrom (ctx.after t rest) rest := by
  rw [tokensFrom]
  split
  next h' =>
    rw [h] at h'
    obtain ⟨rfl, rfl⟩ := Prod.mk.inj h'
    rfl

/-- **A character is read alike in a page and inside a text-only element.** -/
theorem readToken_opened_of_char {mode : Mode} {kinds : List ContentKind} {c d : Char}
    {s rest rest' : Text} (hmode : mode.IsOpening) (hdata : mode ≠ .data)
    (h : readToken ⟨.data, kinds⟩ c s = (.char d, rest)) (hstart : SameStart rest rest') :
    c = d ∧ readToken ⟨mode, kinds⟩ d rest' = (.char d, rest') ∧
      Context.after ⟨mode, kinds⟩ (.char d) rest' = ⟨mode, kinds⟩ := by
  have hsource := source_append h
  obtain ⟨rfl, rfl⟩ := List.cons.inj hsource
  by_cases hd : d = '<'
  · subst hd
    exact ⟨rfl, readToken_opened_char hmode hdata h hstart,
      after_opened_char hmode fun _ => not_bang_of_readMarkup_char h hstart⟩
  · exact ⟨rfl, by simp [readToken, hd], after_opened_char hmode fun h => absurd h hd⟩

/-- What a token leads to: it is read back, and the two readers stay in step. -/
def LeadsOn (ctx ctx' : Context) (c : Char) (rest rest' : Text) (t : Token) : Prop :=
  (∃ s', t.cleaned.source ++ rest' = c :: s' ∧ readToken ctx' c s' = (t.cleaned, rest')) ∧
    InStep (ctx.after t rest) (ctx'.after t.cleaned rest') (tokensFrom (ctx.after t rest) rest)

theorem leadsOn_char {mode : Mode} {kinds : List ContentKind} {c d : Char} {s rest rest' : Text}
    (hmode : mode.IsOpening) (hdata : mode ≠ .data)
    (hpage : Context.isForeign ⟨.data, kinds⟩ = false)
    (h : readToken ⟨.data, kinds⟩ c s = (.char d, rest)) (hstart : SameStart rest rest')
    (htext : TextUpToEnd mode (tokensFrom ⟨.data, kinds⟩ rest)) :
    LeadsOn ⟨.data, kinds⟩ ⟨mode, kinds⟩ c rest rest' (.char d) := by
  obtain ⟨rfl, hread, hafter⟩ := readToken_opened_of_char hmode hdata h hstart
  refine ⟨⟨rest', rfl, hread⟩, ?_⟩
  show InStep ⟨.data, kinds⟩ (Context.after ⟨mode, kinds⟩ (.char c) rest') _
  rw [hafter]
  exact .opened hmode hpage htext

/-- The own end tag brings the two readers together. -/
theorem leadsOn_end {mode : Mode} {kinds : List ContentKind} {c : Char} {s rest rest' : Text}
    {t : Token} (hmode : mode.IsOpening) (hdata : mode ≠ .data)
    (hpage : Context.isForeign ⟨.data, kinds⟩ = false)
    (h : readToken ⟨.data, kinds⟩ c s = (t, rest)) (hstart : SameStart rest rest')
    (hends : mode.EndsAt (c :: s)) : LeadsOn ⟨.data, kinds⟩ ⟨mode, kinds⟩ c rest rest' t := by
  obtain ⟨name, hname, hc, hs⟩ := hends.resolve_left hdata
  obtain rfl : c = '<' := Option.some.inj hc
  have hletters := hmode.isLetters hname
  have hown := readOwnEnd_of_readMarkup hletters hs h
  obtain ⟨s', hs', hread⟩ := readOwnEnd_again hletters hown hstart
  rw [← readToken_of_endName hmode hname kinds] at hread
  rcases endTag_or_scrap_of_readOwnEnd hs hown with ⟨source, n, rfl⟩ | ⟨source, rfl, rfl⟩
  · exact ⟨⟨s', hs', hread⟩, .same _ _⟩
  · -- the text ends inside the end tag, and the readers do not meet
    refine ⟨⟨s', hs', hread⟩, ?_⟩
    rw [tokensFrom]
    exact .opened hmode hpage trivial

/-! ## All tokens -/

theorem tokensFrom_cons_source {ctx : Context} {c : Char} {s rest : Text} {t : Token}
    (h : readToken ctx c s = (t, rest)) :
    (t :: tokensFrom (ctx.after t rest) rest).flatMap Token.source = c :: s := by
  rw [← tokensFrom_cons h, tokensFrom_source]

/-- **A token that stands is read back, and the two readers stay in step.** -/
theorem inStep_after {ctx ctx' : Context} {c : Char} {s rest rest' : Text} {t : Token}
    (hnamed : ctx.mode.IsNamed) (h : readToken ctx c s = (t, rest)) (hcan : t.CanStrip)
    (hstart : SameStart rest rest') (hstands : Stands ctx (tokensFrom (ctx.after t rest) rest) t)
    (hstep : InStep ctx ctx' (t :: tokensFrom (ctx.after t rest) rest)) :
    LeadsOn ctx ctx' c rest rest' t := by
  cases hstep with
  | same => exact readToken_cleaned hnamed h hcan hstands hstart
  | @opened kinds mode _ hmode hpage htext =>
    by_cases hdata : mode = .data
    · subst hdata
      exact readToken_cleaned hnamed h hcan hstands hstart
    · have hends (hchar : ∀ d, t ≠ .char d) : mode.EndsAt (c :: s) := by
        rw [← tokensFrom_cons_source h]
        cases t with
        | char d => exact absurd rfl (hchar d)
        | _ => exact htext
      cases t with
      | char d => exact leadsOn_char hmode hdata hpage h hstart htext
      | _ => exact leadsOn_end hmode hdata hpage h hstart (hends (by simp))

/-- Characters and the own end tag of a text-only element stand. -/
theorem stands_of_textUpToEnd {mode : Mode} {kinds : List ContentKind} {c : Char} {s rest : Text}
    {t : Token} (hmode : mode.IsOpening) (hdata : mode ≠ .data)
    (h : readToken ⟨.data, kinds⟩ c s = (t, rest)) {ts : List Token}
    (hts : (t :: ts).flatMap Token.source = c :: s) (htext : TextUpToEnd mode (t :: ts)) :
    Stands ⟨.data, kinds⟩ ts t := by
  have hkind (hends : mode.EndsAt ((t :: ts).flatMap Token.source)) :
      (∃ source n, t = .endTag source n) ∨ ∃ source, t = .scrap source ∧ rest = [] := by
    rw [hts] at hends
    obtain ⟨name, hname, hc, hs⟩ := hends.resolve_left hdata
    obtain rfl : c = '<' := Option.some.inj hc
    exact endTag_or_scrap_of_readOwnEnd hs
      (readOwnEnd_of_readMarkup (hmode.isLetters hname) hs h)
  cases t with
  | comment source content => rcases hkind htext with ⟨_, _, ht⟩ | ⟨_, ht, -⟩ <;> cases ht
  | startTag source tag => rcases hkind htext with ⟨_, _, ht⟩ | ⟨_, ht, -⟩ <;> cases ht
  | char _ => trivial
  | scrap _ => trivial
  | cdata _ => trivial
  | doctype _ => trivial
  | endTag _ _ => trivial

/-- **If all tokens stand, stripped markup is read as the stripped tokens.** -/
theorem tokensFrom_written {ctx ctx' : Context} {s : Text} (hnamed : ctx.mode.IsNamed)
    (hcan : ∀ t ∈ tokensFrom ctx s, t.CanStrip) (hall : AllStand ctx (tokensFrom ctx s))
    (hstep : InStep ctx ctx' (tokensFrom ctx s)) :
    tokensFrom ctx' (written (tokensFrom ctx s)) = (tokensFrom ctx s).map Token.cleaned := by
  -- by the reader's own recursion, for every reader that is in step
  fun_induction tokensFrom ctx s generalizing ctx' with
  | case1 => rw [written, List.flatMap_nil, tokensFrom, List.map_nil]
  | case2 ctx c s t rest h ih =>
    simp only [List.mem_cons, forall_eq_or_imp] at hcan
    obtain ⟨hstands, hall⟩ := hall
    rw [tokensFrom_source] at hall
    obtain ⟨⟨s', hs', hread⟩, hstep'⟩ :=
      inStep_after hnamed h hcan.1 (sameStart_written _ _ hcan.2) hstands hstep
    rw [written_cons, hs', tokensFrom_cons hread, List.map_cons,
      ih (Context.isNamed_after hnamed t rest) hcan.2 hall hstep']

end Mailout.Markup
