import Mailout.Proofs.Markup.Standing

/-!
# Properties of all stripped tokens

What all tokens of stripped markup have in common is seen on the markup itself, token by token, as
long as its tokens stand. A comment that ends early is read with less content, and what is left of
its text is read behind it. If this holds no `<`, it is text of the page, and the tokens that follow
the comment are as good as before. Otherwise, and behind a tag that does not stand, stripped markup
has other tokens than those that were stripped, and only reading them tells.

## Main statements

* `throughout_iff_forall` — where all tokens stand, every token counts by itself;
* `tokensFrom_early` — what a comment that ends early is read as;
* `throughout_iff` — a property of all tokens of stripped markup as one of the markup's tokens.
-/

namespace Mailout.Markup

open Text

/-! ## Comments that end early -/

/-- An edited comment as it is read if it ends early, and what is left of its text behind it. -/
def early? : Token → Option (Token × Text)
  | .comment _ content => (ClassRun.clean? (dropMark content)).map fun text =>
    let (content, left) := readComment text
    (.comment (consumed ("<!--".toList ++ text) left) content, left)
  | _ => none

/-- Characters in front of other markup are read one by one. -/
theorem tokensFrom_append_of_not_mem {ctx : Context} (hmode : ctx.mode = .data) {s : Text}
    (h : '<' ∉ s) (rest : Text) :
    tokensFrom ctx (s ++ rest) = s.map .char ++ tokensFrom ctx rest := by
  induction s with
  | nil => rfl
  | cons c s ih =>
    rw [List.mem_cons, not_or] at h
    have hread : readToken ctx c (s ++ rest) = (.char c, s ++ rest) := by
      rw [readToken, if_neg fun hc => h.1 (beq_iff_eq.mp hc).symm]
    have hafter : ctx.after (.char c) (s ++ rest) = ctx := by rw [Context.after, hmode]
    rw [List.cons_append, tokensFrom_cons hread, hafter, ih h.2]
    rfl

/-- **A comment that ends early** is read as a comment with less content, and then what is left of
its text, its own closing sequence, and what follows it. -/
theorem tokensFrom_early {ctx : Context} (hmode : ctx.mode = .data) {source content : Text}
    {ts : List Token} (hcan : (Token.comment source content).CanStrip)
    (hstands : ¬ Stands ctx ts (.comment source content)) :
    ∃ early left, early? (.comment source content) = some (early, left) ∧
      tokensFrom ctx (written (.comment source content :: ts))
        = early :: tokensFrom ctx (left ++ ("-->".toList ++ written ts)) := by
  simp only [Stands, Classical.not_forall] at hstands
  obtain ⟨text, hclean, hnot⟩ := hstands
  obtain ⟨front, left, hread⟩ : ∃ front left, readComment text = (front, left) := ⟨_, _, rfl⟩
  obtain ⟨u, rfl, -, hagain⟩ := exists_readComment (.inr hnot) hread
  have hsource : consumed ("<!--".toList ++ (u ++ '>' :: left)) left
      = "<!--".toList ++ u ++ ['>'] := by
    rw [show "<!--".toList ++ (u ++ '>' :: left) = ("<!--".toList ++ u ++ ['>']) ++ left by simp,
      consumed_of_append]
  refine ⟨.comment ("<!--".toList ++ u ++ ['>']) front, left, ?_, ?_⟩
  · rw [early?, Option.mem_def.mp hclean, Option.map_some, hread]
    simp only [hsource]
  · have hwritten : written (.comment source content :: ts) = '<' :: '!' :: '-' :: '-' ::
        (u ++ '>' :: (left ++ ("-->".toList ++ written ts))) := by
      rw [written_cons, Token.cleaned_comment hcan hclean]
      simp [Token.commentOf, Token.source]
    have hwhole : '<' :: '!' :: '-' :: '-' :: (u ++ '>' :: (left ++ ("-->".toList ++ written ts)))
        = ("<!--".toList ++ u ++ ['>']) ++ (left ++ ("-->".toList ++ written ts)) := by
      simp
    have htoken : readToken ctx '<' ('!' :: '-' :: '-' ::
        (u ++ '>' :: (left ++ ("-->".toList ++ written ts))))
          = (.comment ("<!--".toList ++ u ++ ['>']) front,
            left ++ ("-->".toList ++ written ts)) := by
      rw [readToken_data hmode]
      show readDeclaration ctx.isForeign ('-' :: '-' :: _) = _
      rw [readDeclaration_comment, hagain, hwhole, consumed_of_append]
    rw [hwritten, tokensFrom_cons htoken]
    rfl

/-! ## All tokens of stripped markup -/

/-- Every token that stands has the property `settles`, and what is read where a token does not
stand has the property `p`: a comment that ends early, and what was left of its text if this holds
markup. From there on, and from a tag on that does not stand, every token of what is written has
it. -/
def Throughout (settles p : Token → Prop) : Context → List Token → Prop
  | _, [] => True
  | ctx, t :: ts =>
    if Stands ctx ts t then
      settles t ∧ Throughout settles p (ctx.after t (ts.flatMap Token.source)) ts
    else
      match early? t with
      | some (early, left) =>
        p early ∧ if '<' ∈ left then
            ∀ u ∈ tokensFrom ctx (left ++ ("-->".toList ++ written ts)), p u
          else Throughout settles p ctx ts
      | none => ∀ u ∈ tokensFrom ctx (written (t :: ts)), p u

instance instDecidableThroughout (settles p : Token → Prop) [DecidablePred settles]
    [DecidablePred p] :
    (ctx : Context) → (ts : List Token) → Decidable (Throughout settles p ctx ts)
  | _, [] => .isTrue trivial
  | ctx, t :: ts =>
    have := instDecidableThroughout settles p (ctx.after t (ts.flatMap Token.source)) ts
    have := instDecidableThroughout settles p ctx ts
    have : Decidable (match early? t with
        | some (early, left) =>
          p early ∧ if '<' ∈ left then
              ∀ u ∈ tokensFrom ctx (left ++ ("-->".toList ++ written ts)), p u
            else Throughout settles p ctx ts
        | none => ∀ u ∈ tokensFrom ctx (written (t :: ts)), p u) :=
      match early? t with
      | some (early, left) => inferInstanceAs (Decidable (p early ∧ if '<' ∈ left then _ else _))
      | none => inferInstanceAs (Decidable (∀ u ∈ tokensFrom ctx (written (t :: ts)), p u))
    inferInstanceAs (Decidable (if Stands ctx ts t then settles t ∧ Throughout settles p _ ts
      else _))

/-- Where all tokens stand it is a matter of the single tokens. -/
theorem throughout_iff_forall {settles p : Token → Prop} {ctx : Context} {ts : List Token}
    (h : AllStand ctx ts) : Throughout settles p ctx ts ↔ ∀ t ∈ ts, settles t := by
  induction ts generalizing ctx with
  | nil => exact ⟨fun _ => by simp, fun _ => trivial⟩
  | cons t ts ih =>
    obtain ⟨hstands, hall⟩ := h
    rw [Throughout, if_pos hstands, ih hall, List.forall_mem_cons]

/-- Two readers in different contexts come to a token that stands. -/
theorem eq_of_not_stands {ctx ctx' : Context} {c : Char} {s rest : Text} {t : Token}
    (h : readToken ctx c s = (t, rest)) {ts : List Token}
    (hts : (t :: ts).flatMap Token.source = c :: s) (hstep : InStep ctx ctx' (t :: ts))
    (hstands : ¬ Stands ctx ts t) : ctx' = ctx := by
  cases hstep with
  | same => rfl
  | @opened kinds mode _ hmode _ htext =>
    by_cases hdata : mode = .data
    · rw [hdata]
    · exact absurd (stands_of_textUpToEnd hmode hdata h hts htext) hstands

/-- **All tokens of stripped markup have a property** if and only if the markup's tokens lead to it
throughout. -/
theorem throughout_iff {settles p : Token → Prop}
    (hsettles : ∀ t : Token, t.CanStrip → (settles t ↔ p t.cleaned)) (hchar : ∀ c, p (.char c))
    {ctx ctx' : Context} {s : Text} (hnamed : ctx.mode.IsNamed)
    (hcan : ∀ t ∈ tokensFrom ctx s, t.CanStrip) (hstep : InStep ctx ctx' (tokensFrom ctx s)) :
    Throughout settles p ctx (tokensFrom ctx s) ↔
      ∀ u ∈ tokensFrom ctx' (written (tokensFrom ctx s)), p u := by
  fun_induction tokensFrom ctx s generalizing ctx' with
  | case1 =>
    rw [written, List.flatMap_nil, tokensFrom]
    exact ⟨fun _ => by simp, fun _ => trivial⟩
  | case2 ctx c s t rest hread ih =>
    simp only [List.mem_cons, forall_eq_or_imp] at hcan
    rw [Throughout]
    by_cases hstands : Stands ctx (tokensFrom (ctx.after t rest) rest) t
    · obtain ⟨⟨s', hs', hread'⟩, hstep'⟩ :=
        inStep_after hnamed hread hcan.1 (sameStart_written _ _ hcan.2) hstands hstep
      rw [if_pos hstands, tokensFrom_source, hsettles t hcan.1,
        ih (Context.isNamed_after hnamed t rest) hcan.2 hstep', written_cons, hs',
        tokensFrom_cons hread', List.forall_mem_cons]
    · -- the readers have not come apart here
      rw [if_neg hstands, eq_of_not_stands hread (tokensFrom_cons_source hread) hstep hstands]
      cases t with
      | comment source content =>
        obtain ⟨hmode, -, -⟩ := readMarkup_of_readToken hread (by simp) (by simp) (by simp)
        obtain ⟨early, left, hearly, htokens⟩ := tokensFrom_early hmode hcan.1 hstands
        rw [hearly, htokens, List.forall_mem_cons]
        refine and_congr_right fun _ => ?_
        by_cases hleft : '<' ∈ left
        · rw [if_pos hleft]
        · -- the comment leaves the context as it is, and so does the text that is left of it
          have htext : '<' ∉ left ++ "-->".toList := by simpa using hleft
          rw [if_neg hleft, ← List.append_assoc, tokensFrom_append_of_not_mem hmode htext,
            List.forall_mem_append]
          have hchars : ∀ u ∈ (left ++ "-->".toList).map Token.char, p u := by
            intro u hu
            obtain ⟨c, -, rfl⟩ := List.mem_map.mp hu
            exact hchar c
          rw [and_iff_right hchars]
          exact ih hnamed hcan.2 (.same _ _)
      | _ => exact Iff.rfl

end Mailout.Markup
