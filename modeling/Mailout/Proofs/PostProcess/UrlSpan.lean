import Mailout.PostProcess.UrlSpan
import Mailout.Proofs.Text.Search

/-!
# Rewriting URL spans from left to right

`tripleBraceFrom` reads a span or one character and goes on with what is left. Everything here is
proved over these two steps (`tripleBraceFrom_induct`) and asks only whether a span starts
(`SpanStarts`).

## Main statements

* `tripleBraceFrom_span`, `tripleBraceFrom_cons` — the two steps;
* `tripleBraceFrom_append` — a text is rewritten by itself if a brace comes next and it does not end
  in one.
-/

namespace Mailout.UrlSpan

open Text

/-! ## Where a span starts -/

/-- A text begins with a URL span, in front of which stands a brace if `afterBrace`. -/
structure SpanStarts (afterBrace : Bool) (s content rest : Text) : Prop where
  text : s = '{' :: '{' :: (content ++ '}' :: '}' :: rest)
  not_after : afterBrace = false
  not_before : ∀ c ∈ rest.head?, c ≠ '}'
  flat : isNested content = false
  url : isUrl content = true

theorem not_mem_of_isNested {content : Text} (h : isNested content = false) {c : Char}
    (hc : c ∈ content) : c ≠ '{' ∧ c ≠ '}' ∧ c ≠ '\n' := by
  have h := List.any_eq_false.mp h c hc
  simp only [Bool.or_eq_true, beq_iff_eq, not_or] at h
  exact ⟨h.1.1, h.1.2, h.2⟩

theorem SpanStarts.cut {b : Bool} {s content rest : Text}
    (h : SpanStarts b ('{' :: '{' :: s) content rest) :
    cut? ['}', '}'] s = some (content, rest) := by
  have htext := h.text
  simp only [List.cons.injEq, true_and] at htext
  rw [htext]
  exact cut?_of_not_mem (fun hc => (not_mem_of_isNested h.flat hc).2.1 rfl) rest

theorem spanStarts_iff {b : Bool} {s content rest : Text}
    (h : cut? ['}', '}'] s = some (content, rest)) :
    SpanStarts b ('{' :: '{' :: s) content rest ↔
      (!b && rest.head? != some '}' && !isNested content && isUrl content) = true := by
  simp only [Bool.and_eq_true, Bool.not_eq_true', bne_iff_ne]
  constructor
  · rintro ⟨-, hb, hrest, hflat, hurl⟩
    exact ⟨⟨⟨hb, fun he => hrest '}' he rfl⟩, hflat⟩, hurl⟩
  · rintro ⟨⟨⟨hb, hrest⟩, hflat⟩, hurl⟩
    refine ⟨?_, hb, fun c hc he => hrest (he ▸ hc), hflat, hurl⟩
    simpa using cut?_eq_some h

/-- At the start of a text there is one span at most. -/
theorem SpanStarts.unique {b : Bool} {s content content' rest rest' : Text}
    (h : SpanStarts b s content rest) (h' : SpanStarts b s content' rest') :
    content' = content ∧ rest' = rest := by
  obtain rfl := h.text
  have hcut := h'.cut
  rw [h.cut] at hcut
  obtain ⟨rfl, rfl⟩ := Prod.mk.inj (Option.some.inj hcut)
  exact ⟨rfl, rfl⟩

/-- Behind a brace no span starts. -/
theorem not_spanStarts_true {s content rest : Text} : ¬ SpanStarts true s content rest := by
  intro h
  cases h.not_after

theorem not_spanStarts_of_ne {b : Bool} {c : Char} {s : Text} (hc : c ≠ '{') (content rest : Text) :
    ¬ SpanStarts b (c :: s) content rest := fun h => hc (List.cons.inj h.text).1

/-- With a third brace no span starts: it would be the first character of the content. -/
theorem not_spanStarts_triple {b : Bool} {s : Text} (content rest : Text) :
    ¬ SpanStarts b ('{' :: '{' :: '{' :: s) content rest := by
  rintro ⟨htext, -, -, hflat, -⟩
  simp only [List.cons.injEq, true_and] at htext
  cases content with
  | nil => exact absurd (List.cons.inj htext).1 (by decide)
  | cons c content =>
    exact (not_mem_of_isNested hflat List.mem_cons_self).1 (List.cons.inj htext).1.symm

/-! ## The two steps -/

/-- Without a closing pair of braces nothing is rewritten. -/
theorem tripleBraceFrom_eq_self {b : Bool} {s : Text} (h : ¬ ['}', '}'] <:+: s) :
    tripleBraceFrom b s = s := by
  have hopen : ∀ {s : Text}, ¬ ['}', '}'] <:+: '{' :: '{' :: s → cut? ['}', '}'] s = none :=
    fun h => cut?_eq_none_iff.mpr fun hs =>
      h (hs.trans (List.suffix_append ['{', '{'] _).isInfix)
  fun_induction tripleBraceFrom b s with
  | case1 => rfl
  | case2 b s content rest e =>
    rw [hopen h] at e
    cases e
  | case3 b s content rest e =>
    rw [hopen h] at e
    cases e
  | case4 b c s _ ih => rw [ih fun hs => h (hs.trans (List.suffix_cons c s).isInfix)]
  | case5 => rfl

/-- A span gets the third pair of braces. -/
theorem tripleBraceFrom_span {b : Bool} {s content rest : Text} (h : SpanStarts b s content rest) :
    tripleBraceFrom b s
      = '{' :: '{' :: '{' :: (content ++ '}' :: '}' :: '}' :: tripleBraceFrom false rest) := by
  obtain rfl := h.text
  rw [tripleBraceFrom]
  split
  · next e => rw [h.cut] at e; cases e
  · next e =>
    rw [h.cut] at e
    obtain ⟨rfl, rfl⟩ := Prod.mk.inj (Option.some.inj e)
    rw [if_pos ((spanStarts_iff h.cut).mp h)]
    simp

/-- Behind a brace no span starts, so a brace there is passed by itself. -/
theorem tripleBraceFrom_true_brace (s : Text) :
    tripleBraceFrom true ('{' :: s) = '{' :: tripleBraceFrom true s := by
  match s with
  | [] => simp [tripleBraceFrom]
  | c :: s =>
    by_cases hc : c = '{'
    · subst hc
      rw [tripleBraceFrom]
      split
      · next e =>
        have h : ¬ ['}', '}'] <:+: '{' :: s := by
          intro h
          rcases List.infix_cons_iff.mp h with h | h
          · exact absurd (List.cons_prefix_cons.mp h).1 (by decide)
          · exact cut?_eq_none_iff.mp e h
        rw [tripleBraceFrom_eq_self h]
      · rw [if_neg (by simp), tripleBraceFrom_true_brace s]
    · rw [tripleBraceFrom]
      · rfl
      · intro t h
        exact fun e => hc (List.cons.inj e).1

/-- A character that no span starts with is passed. -/
theorem tripleBraceFrom_cons {b : Bool} {c : Char} {s : Text}
    (h : ∀ content rest, ¬ SpanStarts b (c :: s) content rest) :
    tripleBraceFrom b (c :: s) = c :: tripleBraceFrom (c == '{') s := by
  by_cases hopen : ∃ t, c = '{' ∧ s = '{' :: t
  · obtain ⟨t, rfl, rfl⟩ := hopen
    rw [beq_self_eq_true, ← tripleBraceFrom_true_brace, tripleBraceFrom, tripleBraceFrom]
    split
    · rfl
    · next content rest e =>
      rw [if_neg fun hs => h content rest ((spanStarts_iff e).mpr hs), if_neg (by simp)]
  · rw [tripleBraceFrom]
    intro t hc ht
    exact hopen ⟨t, hc, ht⟩

/-- A text is empty, begins with a span, or begins with a character that is passed. -/
@[elab_as_elim]
theorem tripleBraceFrom_induct {motive : Bool → Text → Prop} (nil : ∀ b, motive b [])
    (span : ∀ b s content rest, SpanStarts b s content rest → motive false rest → motive b s)
    (cons : ∀ b c s, (∀ content rest, ¬ SpanStarts b (c :: s) content rest) →
      motive (c == '{') s → motive b (c :: s))
    (b : Bool) (s : Text) : motive b s := by
  match s with
  | [] => exact nil b
  | c :: s =>
    by_cases h : ∃ content rest, SpanStarts b (c :: s) content rest
    · obtain ⟨content, rest, h⟩ := h
      exact span b (c :: s) content rest h (tripleBraceFrom_induct nil span cons false rest)
    · exact cons b c s (fun content rest hs => h ⟨content, rest, hs⟩)
        (tripleBraceFrom_induct nil span cons (c == '{') s)
termination_by s.length
decreasing_by
  · rw [h.text]
    simp only [List.length_cons, List.length_append]
    omega
  · exact Nat.lt_succ_self _

/-! ## A text in front of another one -/

/-- Whether a brace stands at the end of a text, in front of which stands one if `afterBrace`. -/
def braceAfter (afterBrace : Bool) : Text → Bool
  | [] => afterBrace
  | c :: s => braceAfter (c == '{') s

@[simp] theorem braceAfter_append (b : Bool) (s t : Text) :
    braceAfter b (s ++ t) = braceAfter (braceAfter b s) t := by
  induction s generalizing b with
  | nil => rfl
  | cons c s ih => exact ih (c == '{')

theorem braceAfter_of_getLast?_ne {s : Text} (h : s.getLast? ≠ some '{') :
    braceAfter false s = false := by
  rcases s.eq_nil_or_concat with rfl | ⟨s, c, rfl⟩
  · rfl
  · rw [List.concat_eq_append] at h ⊢
    rw [List.getLast?_concat] at h
    rw [braceAfter_append]
    exact beq_eq_false_iff_ne.mpr fun hc => h (congrArg some hc)

/-- A span that starts in a text ends in it, if a brace or nothing comes next and the text does not
end in a brace. -/
theorem SpanStarts.of_append {b : Bool} {c : Char} {s t content rest : Text}
    (hs : braceAfter (c == '{') s = false) (ht : ∀ d ∈ t.head?, d = '{')
    (h : SpanStarts b (c :: s ++ t) content rest) :
    ∃ rest', SpanStarts b (c :: s) content rest' := by
  obtain ⟨htext, hb, hrest, hflat, hurl⟩ := h
  cases t with
  | nil => exact ⟨rest, by simpa using htext, hb, hrest, hflat, hurl⟩
  | cons d t =>
    obtain rfl := ht d rfl
    cases s with
    | nil =>
      -- the text would be one brace
      simp only [List.cons_append, List.nil_append, List.cons.injEq] at htext
      rw [htext.1] at hs
      cases hs
    | cons e s =>
      simp only [List.cons_append, List.cons.injEq] at htext
      obtain ⟨rfl, rfl, htext⟩ := htext
      rcases List.append_eq_append_iff.mp htext with ⟨u, hcontent, hu⟩ | ⟨u, rfl, hu⟩
      · -- the brace behind the text would lie in the span
        cases u with
        | nil => exact absurd (List.cons.inj hu).1 (by decide)
        | cons f u =>
          have hf : '{' ∈ content := by rw [hcontent, (List.cons.inj hu).1]; simp
          exact absurd rfl (not_mem_of_isNested hflat hf).1
      · match u, hu with
        | [], hu => exact absurd (List.cons.inj hu).1 (by decide)
        | [_], hu => exact absurd (List.cons.inj (List.cons.inj hu).2).1 (by decide)
        | _ :: _ :: u, hu =>
          simp only [List.cons_append, List.cons.injEq] at hu
          obtain ⟨rfl, rfl, rfl⟩ := hu
          refine ⟨u, rfl, hb, fun d hd => hrest d ?_, hflat, hurl⟩
          rw [List.head?_append, Option.mem_def.mp hd]
          rfl

theorem SpanStarts.append {b : Bool} {s content rest : Text} (h : SpanStarts b s content rest)
    {t : Text} (ht : ∀ d ∈ t.head?, d = '{') : SpanStarts b (s ++ t) content (rest ++ t) := by
  refine ⟨by simp [h.text], h.not_after, fun d hd => ?_, h.flat, h.url⟩
  cases rest with
  | nil => rw [ht d hd]; decide
  | cons e rest => exact h.not_before d hd

/-- **A text is rewritten by itself** if a brace or nothing comes next and it does not end in a
brace. -/
theorem tripleBraceFrom_append {b : Bool} {s t : Text} (hs : braceAfter b s = false)
    (ht : ∀ d ∈ t.head?, d = '{') :
    tripleBraceFrom b (s ++ t) = tripleBraceFrom b s ++ tripleBraceFrom false t := by
  induction b, s using tripleBraceFrom_induct with
  | nil b =>
    rw [braceAfter] at hs
    rw [hs, List.nil_append, tripleBraceFrom, List.nil_append]
  | span b s content rest h ih =>
    have hrest : braceAfter false rest = false := by
      rw [h.text] at hs
      simpa [braceAfter] using hs
    rw [tripleBraceFrom_span (h.append ht), tripleBraceFrom_span h, ih hrest]
    simp
  | cons b c s h ih =>
    have h' : ∀ content rest, ¬ SpanStarts b (c :: (s ++ t)) content rest := by
      intro content rest hspan
      obtain ⟨rest', hspan⟩ := SpanStarts.of_append hs ht hspan
      exact h content rest' hspan
    rw [List.cons_append, tripleBraceFrom_cons h', tripleBraceFrom_cons h, ih hs, List.cons_append]

/-- A text without an opening brace is passed. -/
theorem tripleBraceFrom_append_of_not_mem {b : Bool} {s : Text} (hs : '{' ∉ s) (t : Text) :
    tripleBraceFrom b (s ++ t) = s ++ tripleBraceFrom (braceAfter b s) t := by
  induction s generalizing b with
  | nil => rfl
  | cons c s ih =>
    rw [List.mem_cons, not_or] at hs
    rw [List.cons_append, tripleBraceFrom_cons (not_spanStarts_of_ne (Ne.symm hs.1)), ih hs.2,
      List.cons_append, braceAfter]

/-! ## Contents between braces -/

/-- A flat content between two pairs of braces gets the third pair if it is a URL. -/
theorem tripleBraceFrom_double {content rest : Text} (hflat : isNested content = false)
    (hrest : ∀ c ∈ rest.head?, c ≠ '}') :
    tripleBraceFrom false (['{', '{'] ++ content ++ ['}', '}'] ++ rest)
      = (if isUrl content then ['{', '{', '{'] ++ content ++ ['}', '}', '}']
          else ['{', '{'] ++ content ++ ['}', '}']) ++ tripleBraceFrom false rest := by
  have htext : ['{', '{'] ++ content ++ ['}', '}'] ++ rest
      = '{' :: '{' :: (content ++ '}' :: '}' :: rest) := by simp
  rw [htext]
  split
  · next hurl =>
    rw [tripleBraceFrom_span ⟨rfl, rfl, hrest, hflat, hurl⟩]
    simp
  · next hurl =>
    have hclose : '}' ∉ content := fun h => (not_mem_of_isNested hflat h).2.1 rfl
    have hopen : '{' ∉ content ++ ['}', '}'] := by
      simpa using fun h => (not_mem_of_isNested hflat h).1 rfl
    have h : ∀ content' rest', ¬ SpanStarts false
        ('{' :: '{' :: (content ++ '}' :: '}' :: rest)) content' rest' := by
      intro content' rest' h
      have hcut : some (content, rest) = some (content', rest') :=
        (cut?_of_not_mem hclose rest).symm.trans h.cut
      obtain ⟨rfl, -⟩ := Prod.mk.inj (Option.some.inj hcut)
      exact hurl h.url
    rw [tripleBraceFrom_cons h, beq_self_eq_true, tripleBraceFrom_true_brace,
      show content ++ '}' :: '}' :: rest = (content ++ ['}', '}']) ++ rest by simp,
      tripleBraceFrom_append_of_not_mem hopen]
    simp [braceAfter]

/-- A content between three pairs of braces is passed. -/
theorem tripleBraceFrom_triple {content : Text} (hopen : '{' ∉ content) (rest : Text) :
    tripleBraceFrom false (['{', '{', '{'] ++ content ++ ['}', '}', '}'] ++ rest)
      = ['{', '{', '{'] ++ content ++ ['}', '}', '}'] ++ tripleBraceFrom false rest := by
  have hopen' : '{' ∉ content ++ ['}', '}', '}'] := by simpa using hopen
  rw [show ['{', '{', '{'] ++ content ++ ['}', '}', '}'] ++ rest
      = '{' :: '{' :: '{' :: (content ++ ['}', '}', '}'] ++ rest) by simp,
    tripleBraceFrom_cons not_spanStarts_triple, beq_self_eq_true, tripleBraceFrom_true_brace,
    tripleBraceFrom_true_brace, tripleBraceFrom_append_of_not_mem hopen']
  simp [braceAfter]

end Mailout.UrlSpan
