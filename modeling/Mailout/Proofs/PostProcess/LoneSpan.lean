import Mailout.Preset.Builtin
import Mailout.Proofs.PostProcess.UrlSpan

/-!
# The spans that get a third pair of braces

A URL span is *lone* if no third brace stands on either side of it (`IsLone`). This is said of a
place in the text and of nothing that was read before. `tripleBrace` gives all lone spans the third
pair of braces and copies everything else (`tripleBrace_exact`), although it takes the braces in
pairs, passes some of them and stops at the first pair that is not closed. What it writes has no
lone span, so a second run changes nothing (`tripleBrace_tripleBrace`).

## The argument

Lone spans and the cut at them are read from left to right like the text itself: a character that no
span starts with belongs to what is in front of every lone span (`loneIn_cons`), and behind the
start of a span there is no lone span up to its end (`loneIn_span`).
-/

namespace Mailout.UrlSpan

open Text

/-! ## Lone spans -/

/-- In the text `content` stands between two pairs of braces, behind `before` and in front of
`after`. It is a URL on one line without braces, and no third brace stands on either side. -/
structure IsLone (html before content after : Text) : Prop where
  text : html = before ++ ['{', '{'] ++ content ++ ['}', '}'] ++ after
  not_before : before.getLast? ≠ some '{'
  not_after : after.head? ≠ some '}'
  flat : ∀ c ∈ content, c ≠ '{' ∧ c ≠ '}' ∧ c ≠ '\n'
  url : isUrl content = true

/-- A lone span of a text in front of which stands a brace if `afterBrace`. -/
def LoneIn (afterBrace : Bool) (s before content after : Text) : Prop :=
  ∃ t, s = before ++ t ∧ SpanStarts (braceAfter afterBrace before) t content after

variable {b : Bool} {s before content after : Text}

theorem braceAfter_false_iff : braceAfter false s = false ↔ s.getLast? ≠ some '{' := by
  refine ⟨fun h hlast => ?_, braceAfter_of_getLast?_ne⟩
  obtain ⟨front, rfl⟩ := List.getLast?_eq_some_iff.mp hlast
  rw [braceAfter_append] at h
  cases h

theorem isNested_eq_false_iff :
    isNested content = false ↔ ∀ c ∈ content, c ≠ '{' ∧ c ≠ '}' ∧ c ≠ '\n' := by
  refine ⟨fun h c hc => not_mem_of_isNested h hc, fun h => List.any_eq_false.mpr fun c hc => ?_⟩
  simpa [and_assoc] using h c hc

/-- At the start of a text no brace stands in front. -/
theorem loneIn_false_iff : LoneIn false s before content after ↔ IsLone s before content after := by
  constructor
  · rintro ⟨t, rfl, ⟨rfl, hbefore, hafter, hflat, hurl⟩⟩
    exact ⟨by simp, braceAfter_false_iff.mp hbefore, fun h => hafter '}' h rfl,
      isNested_eq_false_iff.mp hflat, hurl⟩
  · rintro ⟨rfl, hbefore, hafter, hflat, hurl⟩
    refine ⟨'{' :: '{' :: (content ++ '}' :: '}' :: after), by simp, rfl,
      braceAfter_false_iff.mpr hbefore, ?_, isNested_eq_false_iff.mpr hflat, hurl⟩
    rintro c hc rfl
    exact hafter hc

/-! ## Lone spans from left to right -/

theorem not_loneIn_nil : ¬ LoneIn b [] before content after := by
  rintro ⟨t, ht, hspan⟩
  obtain ⟨-, rfl⟩ := List.append_eq_nil_iff.mp ht.symm
  cases hspan.text

theorem loneIn_cons_cons {c d : Char} : LoneIn b (c :: s) (d :: before) content after ↔
    c = d ∧ LoneIn (c == '{') s before content after := by
  constructor
  · rintro ⟨t, ht, hspan⟩
    obtain ⟨rfl, rfl⟩ := List.cons.inj ht
    exact ⟨rfl, t, rfl, hspan⟩
  · rintro ⟨rfl, t, rfl, hspan⟩
    exact ⟨t, rfl, hspan⟩

/-- A character that no span starts with stands in front of all lone spans. -/
theorem loneIn_cons {c : Char} (h : ∀ content rest, ¬ SpanStarts b (c :: s) content rest) :
    LoneIn b (c :: s) before content after ↔
      ∃ before', before = c :: before' ∧ LoneIn (c == '{') s before' content after := by
  constructor
  · intro hlone
    cases before with
    | nil =>
      obtain ⟨t, rfl, hspan⟩ := hlone
      exact absurd hspan (h content after)
    | cons d before =>
      obtain ⟨rfl, hbehind⟩ := loneIn_cons_cons.mp hlone
      exact ⟨before, rfl, hbehind⟩
  · rintro ⟨before', rfl, hlone⟩
    exact loneIn_cons_cons.mpr ⟨rfl, hlone⟩

/-- A text without an opening brace stands in front of all lone spans. -/
theorem loneIn_append_of_not_mem {w : Text} (hw : '{' ∉ w) :
    LoneIn b (w ++ s) before content after ↔
      ∃ before', before = w ++ before' ∧ LoneIn (braceAfter b w) s before' content after := by
  induction w generalizing b before with
  | nil => simp [braceAfter]
  | cons c w ih =>
    rw [List.mem_cons, not_or] at hw
    rw [List.cons_append, loneIn_cons (not_spanStarts_of_ne (Ne.symm hw.1))]
    constructor
    · rintro ⟨_, rfl, hlone⟩
      obtain ⟨before', rfl, hbehind⟩ := (ih hw.2).mp hlone
      exact ⟨before', rfl, hbehind⟩
    · rintro ⟨before', rfl, hlone⟩
      exact ⟨w ++ before', rfl, (ih hw.2).mpr ⟨before', rfl, hlone⟩⟩

/-- Flat content has no opening brace, and the closing ones behind it add none. -/
theorem not_mem_append_of_flat {w : Text} (hflat : isNested content = false) (hw : '{' ∉ w) :
    '{' ∉ content ++ w := by
  rw [List.mem_append, not_or]
  exact ⟨fun hm => (not_mem_of_isNested hflat hm).1 rfl, hw⟩

/-- Flat content and the closing braces behind it stand in front of all lone spans. -/
theorem loneIn_append_closing {flat w rest : Text} (hflat : isNested flat = false) (hw : '{' ∉ w) :
    LoneIn b (flat ++ (w ++ '}' :: rest)) before content after ↔
      ∃ before', before = flat ++ (w ++ ['}']) ++ before' ∧
        LoneIn false rest before' content after := by
  have hbrace : '{' ∉ flat ++ (w ++ ['}']) := not_mem_append_of_flat hflat (by simpa using hw)
  have hafter : braceAfter b (flat ++ (w ++ ['}'])) = false := by
    rw [← List.append_assoc, braceAfter_append]
    rfl
  have htext : flat ++ (w ++ '}' :: rest) = flat ++ (w ++ ['}']) ++ rest := by simp
  rw [htext, loneIn_append_of_not_mem hbrace, hafter]

/-- **The lone spans of a text that begins with one** are this one and those behind it. -/
theorem loneIn_span {content' rest : Text} (h : SpanStarts b s content' rest) :
    LoneIn b s before content after ↔ (before = [] ∧ content = content' ∧ after = rest) ∨
      ∃ before', before = ['{', '{'] ++ content' ++ ['}', '}'] ++ before' ∧
        LoneIn false rest before' content after := by
  cases before with
  | nil =>
    constructor
    · rintro ⟨t, rfl, hspan⟩
      exact .inl ⟨rfl, h.unique hspan⟩
    · rintro (⟨-, rfl, rfl⟩ | ⟨before', hbefore, -⟩)
      · exact ⟨s, rfl, h⟩
      · cases hbefore
  | cons d before =>
    have hclosing {front : Text} :
        LoneIn true (content' ++ '}' :: '}' :: rest) front content after ↔
        ∃ before', front = content' ++ ['}', '}'] ++ before' ∧
          LoneIn false rest before' content after :=
      loneIn_append_closing (w := ['}']) h.flat (by decide)
    rw [h.text, loneIn_cons_cons, beq_self_eq_true, loneIn_cons fun _ _ => not_spanStarts_true,
      beq_self_eq_true]
    constructor
    · rintro ⟨rfl, _, rfl, hlone⟩
      obtain ⟨before', rfl, hbehind⟩ := hclosing.mp hlone
      exact .inr ⟨before', by simp, hbehind⟩
    · rintro (⟨hbefore, -, -⟩ | ⟨before', hbefore, hlone⟩)
      · cases hbefore
      · simp only [List.cons_append, List.nil_append, List.cons.injEq] at hbefore
        obtain ⟨rfl, rfl⟩ := hbefore
        exact ⟨rfl, _, rfl, hclosing.mpr ⟨before', by simp, hlone⟩⟩

/-! ## Cuts -/

/-- A text cut at some of its spans. -/
structure Pieces where
  /-- The gap in front of the first span. -/
  first : Text
  /-- The contents of the spans, each with the gap behind its span. -/
  spans : List (Text × Text)

namespace Pieces

/-- The text that the pieces make up. -/
def source (p : Pieces) : Text :=
  p.first ++ p.spans.flatMap fun (content, gap) => ['{', '{'] ++ content ++ ['}', '}'] ++ gap

/-- The text with one more brace on either side of each span. -/
def widened (p : Pieces) : Text :=
  p.first ++ p.spans.flatMap fun (content, gap) =>
    ['{', '{', '{'] ++ content ++ ['}', '}', '}'] ++ gap

/-- One of the spans has `content`, with `before` in front of it and `after` behind it. -/
def Cuts (p : Pieces) (before content after : Text) : Prop :=
  ∃ front gap back, p.spans = front ++ (content, gap) :: back ∧
    before = source ⟨p.first, front⟩ ∧ after = source ⟨gap, back⟩

variable {first : Text} {spans : List (Text × Text)}

theorem not_cuts_nil : ¬ Cuts ⟨first, []⟩ before content after := by
  rintro ⟨front, gap, back, hspans, -, -⟩
  simp at hspans

theorem cuts_cons {c : Char} : Cuts ⟨c :: first, spans⟩ before content after ↔
    ∃ before', before = c :: before' ∧ Cuts ⟨first, spans⟩ before' content after := by
  constructor
  · rintro ⟨front, gap, back, hspans, rfl, rfl⟩
    exact ⟨source ⟨first, front⟩, rfl, front, gap, back, hspans, rfl, rfl⟩
  · rintro ⟨_, rfl, front, gap, back, hspans, rfl, rfl⟩
    exact ⟨front, gap, back, hspans, rfl, rfl⟩

theorem cuts_span {content' : Text} : Cuts ⟨[], (content', first) :: spans⟩ before content after ↔
    (before = [] ∧ content = content' ∧ after = source ⟨first, spans⟩) ∨
      ∃ before', before = ['{', '{'] ++ content' ++ ['}', '}'] ++ before' ∧
        Cuts ⟨first, spans⟩ before' content after := by
  constructor
  · rintro ⟨front, gap, back, hspans, rfl, rfl⟩
    cases front with
    | nil =>
      obtain ⟨hspan, rfl⟩ := List.cons.inj hspans
      obtain ⟨rfl, rfl⟩ := Prod.mk.inj hspan
      exact .inl ⟨rfl, rfl, rfl⟩
    | cons span front =>
      obtain ⟨rfl, rfl⟩ := List.cons.inj hspans
      exact .inr ⟨source ⟨first, front⟩, by simp [source], front, gap, back, rfl, rfl, rfl⟩
  · rintro (⟨rfl, rfl, rfl⟩ | ⟨_, rfl, front, gap, back, rfl, rfl, rfl⟩)
    · exact ⟨[], first, spans, rfl, rfl, rfl⟩
    · exact ⟨(content', first) :: front, gap, back, rfl, by simp [source], rfl⟩

end Pieces

/-- A text is cut at its lone spans, and these are what is rewritten. -/
theorem exists_pieces (b : Bool) (s : Text) : ∃ p : Pieces, p.source = s ∧
    p.widened = tripleBraceFrom b s ∧
    ∀ before content after, LoneIn b s before content after ↔ p.Cuts before content after := by
  induction b, s using tripleBraceFrom_induct with
  | nil b =>
    refine ⟨⟨[], []⟩, rfl, by rw [tripleBraceFrom]; rfl, fun before content after => ?_⟩
    exact iff_of_false not_loneIn_nil Pieces.not_cuts_nil
  | span b s content' rest h ih =>
    obtain ⟨⟨first, spans⟩, rfl, hwidened, hcuts⟩ := ih
    refine ⟨⟨[], (content', first) :: spans⟩, ?_, ?_, fun before content after => ?_⟩
    · rw [h.text]
      simp [Pieces.source]
    · rw [tripleBraceFrom_span h, ← hwidened]
      simp [Pieces.widened]
    · simp only [loneIn_span h, Pieces.cuts_span, hcuts]
  | cons b c s h ih =>
    obtain ⟨⟨first, spans⟩, rfl, hwidened, hcuts⟩ := ih
    refine ⟨⟨c :: first, spans⟩, rfl, ?_, fun before content after => ?_⟩
    · rw [tripleBraceFrom_cons h, ← hwidened]
      rfl
    · simp only [loneIn_cons h, Pieces.cuts_cons, hcuts]

/-- **Rewriting is exact.** A text is cut at its lone spans, all of them and nothing else, and comes
out with one more brace on either side of each. -/
theorem tripleBrace_exact (html : Text) : ∃ p : Pieces, p.source = html ∧
    p.widened = tripleBrace html ∧
    ∀ before content after, IsLone html before content after ↔
      ∃ front gap back, p.spans = front ++ (content, gap) :: back ∧
        before = Pieces.source ⟨p.first, front⟩ ∧ after = Pieces.source ⟨gap, back⟩ := by
  obtain ⟨p, hsource, hwidened, hcuts⟩ := exists_pieces false html
  refine ⟨p, hsource, hwidened, fun before content after => ?_⟩
  rw [← loneIn_false_iff]
  exact hcuts before content after

/-! ## Nothing is left to rewrite -/

/-- A text without lone spans stays as it is. -/
theorem tripleBraceFrom_of_no_lone (h : ∀ before content after, ¬ LoneIn b s before content after) :
    tripleBraceFrom b s = s := by
  obtain ⟨⟨first, spans⟩, hsource, hwidened, hcuts⟩ := exists_pieces b s
  cases spans with
  | nil => rw [← hwidened, ← hsource]; rfl
  | cons span spans =>
    exact absurd ((hcuts _ _ _).mpr ⟨[], span.2, spans, rfl, rfl, rfl⟩) (h _ _ _)

theorem head?_tripleBraceFrom (b : Bool) (s : Text) : (tripleBraceFrom b s).head? = s.head? := by
  induction b, s using tripleBraceFrom_induct with
  | nil b => rw [tripleBraceFrom]
  | span b s content rest h => rw [tripleBraceFrom_span h, h.text]; rfl
  | cons b c s h => rw [tripleBraceFrom_cons h]; rfl

/-- Text without an opening brace that comes out was there before. -/
theorem exists_of_tripleBraceFrom_eq {w t : Text} (hw : '{' ∉ w)
    (h : tripleBraceFrom b s = w ++ t) :
    ∃ s', s = w ++ s' ∧ tripleBraceFrom (braceAfter b w) s' = t := by
  induction w generalizing b s with
  | nil => exact ⟨s, rfl, h⟩
  | cons c w ih =>
    rw [List.mem_cons, not_or] at hw
    have hhead := head?_tripleBraceFrom b s
    rw [h] at hhead
    obtain ⟨s, rfl⟩ := List.head?_eq_some_iff.mp hhead.symm
    rw [tripleBraceFrom_cons (not_spanStarts_of_ne (Ne.symm hw.1)), List.cons_append,
      List.cons_inj_right] at h
    obtain ⟨s', rfl, hs'⟩ := ih hw.2 h
    exact ⟨s', rfl, hs'⟩

/-- Where no span starts none does when the rest has been rewritten. -/
theorem not_spanStarts_tripleBraceFrom {c : Char}
    (h : ∀ content rest, ¬ SpanStarts b (c :: s) content rest) (content rest : Text) :
    ¬ SpanStarts b (c :: tripleBraceFrom (c == '{') s) content rest := by
  rintro ⟨htext, hbefore, hafter, hflat, hurl⟩
  obtain ⟨rfl, htext⟩ := List.cons.inj htext
  rw [beq_self_eq_true] at htext
  -- behind the first brace comes the second one, then the content and two closing braces
  have hhead := head?_tripleBraceFrom true s
  rw [htext] at hhead
  obtain ⟨s, rfl⟩ := List.head?_eq_some_iff.mp hhead.symm
  rw [tripleBraceFrom_true_brace, List.cons_inj_right] at htext
  have hbrace : '{' ∉ content ++ ['}', '}'] := not_mem_append_of_flat hflat (by decide)
  obtain ⟨s, rfl, hrest⟩ := exists_of_tripleBraceFrom_eq (t := rest) hbrace (by simpa using htext)
  have hhead' := head?_tripleBraceFrom (braceAfter true (content ++ ['}', '}'])) s
  rw [hrest] at hhead'
  exact h content s ⟨by simp, hbefore, fun d hd => hafter d (hhead' ▸ hd), hflat, hurl⟩

/-- **What is rewritten has no lone span.** -/
theorem not_loneIn_tripleBraceFrom (b : Bool) (s before content after : Text) :
    ¬ LoneIn b (tripleBraceFrom b s) before content after := by
  induction b, s using tripleBraceFrom_induct generalizing before with
  | nil b =>
    rw [tripleBraceFrom]
    exact not_loneIn_nil
  | span b s content' rest h ih =>
    rw [tripleBraceFrom_span h, loneIn_cons not_spanStarts_triple, beq_self_eq_true]
    rintro ⟨_, rfl, hlone⟩
    rw [loneIn_cons fun _ _ => not_spanStarts_true, beq_self_eq_true] at hlone
    obtain ⟨_, rfl, hlone⟩ := hlone
    rw [loneIn_cons fun _ _ => not_spanStarts_true, beq_self_eq_true] at hlone
    obtain ⟨_, rfl, hlone⟩ := hlone
    obtain ⟨before', -, hbehind⟩ :=
      (loneIn_append_closing (w := ['}', '}']) h.flat (by decide)).mp hlone
    exact ih before' hbehind
  | cons b c s h ih =>
    rw [tripleBraceFrom_cons h, loneIn_cons (not_spanStarts_tripleBraceFrom h)]
    rintro ⟨before', rfl, hlone⟩
    exact ih before' hlone

/-- **A second run changes nothing**, since the first one leaves no lone span. -/
theorem tripleBrace_tripleBrace (html : Text) :
    (∀ before content after, ¬ IsLone (tripleBrace html) before content after) ∧
      tripleBrace (tripleBrace html) = tripleBrace html := by
  have hnone := not_loneIn_tripleBraceFrom false html
  refine ⟨fun before content after h => hnone before content after (loneIn_false_iff.mpr h), ?_⟩
  exact tripleBraceFrom_of_no_lone hnone

/-- Spans side by side, one behind an unclosed pair of braces, and one among four braces. -/
example : tripleBrace (double "a.url" ++ double " https://b " ++ "\x7b\x7bc ".toList ++ double "url"
      ++ "\x7b\x7b".toList ++ double "url" ++ "\x7d\x7d \x7b\x7b".toList)
    = triple "a.url" ++ triple " https://b " ++ "\x7b\x7bc ".toList ++ triple "url"
      ++ "\x7b\x7b".toList ++ double "url" ++ "\x7d\x7d \x7b\x7b".toList := by
  decide +kernel

end Mailout.UrlSpan
