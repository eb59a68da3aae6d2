import Mailout.Proofs.Preset.Resolution
import Mailout.Proofs.Preset.Sendgrid

/-!
# Runs of braces

Handlebars knows expressions between two pairs of braces and between three; four braces side by side
mean nothing to it. The presets that write handlebars put some variables between three pairs. A tag
that stands between stray braces keeps these, so what comes of it may have a run of four.

## What is shown

A run of braces lies in a gap with the braces of the tags next to it (`IsBraced.hasRun_open_iff`,
`IsBraced.hasRun_close_iff`), since the name between the braces is none. From the first tag to the
last one this gives when a run of opening braces comes into being (`hasRun_open_transform_iff`), and
from the last one to the first when a run of closing braces does (`hasRun_close_transform_iff`):
where a variable that is written between three pairs of braces stands next to a brace.
-/

namespace Mailout

open Text MergeTag

/-! ## Runs -/

/-- Four of the character stand side by side. -/
def HasRun (d : Char) (s : Text) : Prop := List.replicate 4 d <:+: s

instance (d : Char) (s : Text) : Decidable (HasRun d s) :=
  inferInstanceAs (Decidable (List.replicate 4 d <:+: s))

/-- No four braces of a kind stand side by side. -/
def NoBraceRun (s : Text) : Prop := ¬ HasRun '{' s ∧ ¬ HasRun '}' s

instance (s : Text) : Decidable (NoBraceRun s) :=
  inferInstanceAs (Decidable (¬ HasRun '{' s ∧ ¬ HasRun '}' s))

theorem hasRun_append_middle {d : Char} {s m s' : Text} (hne : m ≠ []) (hd : d ∉ m) :
    HasRun d (s ++ m ++ s') ↔ HasRun d s ∨ HasRun d s' :=
  infix_append_middle hne fun _ hc hrun => hd (List.eq_of_mem_replicate hrun ▸ hc)

/-- One more of the character makes a run where the text goes on with it. -/
theorem hasRun_three_append {d : Char} {s : Text} (h : ¬ HasRun d (List.replicate 2 d ++ s)) :
    HasRun d (List.replicate 3 d ++ s) ↔ s.head? = some d := by
  have hrun : HasRun d (d :: (List.replicate 2 d ++ s)) ↔
      List.replicate 4 d <+: List.replicate 3 d ++ s := by
    rw [HasRun, List.infix_cons_iff]
    exact or_iff_left h
  refine hrun.trans ?_
  cases s with
  | nil => simp [List.replicate]
  | cons c s => simp [List.replicate, eq_comm]

/-- The same at the end of a text. -/
theorem hasRun_append_three {d : Char} {s : Text} (h : ¬ HasRun d (s ++ List.replicate 2 d)) :
    HasRun d (s ++ List.replicate 3 d) ↔ s.getLast? = some d := by
  have hreverse (n : Nat) :
      HasRun d (s ++ List.replicate n d) ↔ HasRun d (List.replicate n d ++ s.reverse) := by
    unfold HasRun
    rw [← List.reverse_infix]
    simp
  rw [hreverse] at h ⊢
  rw [hasRun_three_append h, List.head?_reverse]

/-! ## Expressions -/

/-- A name without braces between so many pairs of braces. -/
def IsBraced (pairs : Nat) (e : Text) : Prop :=
  ∃ name : Text, e = List.replicate pairs '{' ++ name ++ List.replicate pairs '}' ∧ name ≠ [] ∧
    '{' ∉ name ∧ '}' ∉ name

/-- The name is known from the expression. -/
theorem TablePreset.nameInBraces_eq {pairs : Nat} {name : Text} (hne : name ≠ []) (hopen : '{' ∉ name)
    (hclose : '}' ∉ name) :
    nameInBraces (List.replicate pairs '{' ++ name ++ List.replicate pairs '}') = name := by
  have hfirst : ∀ c ∈ (name ++ List.replicate pairs '}').head?, (c == '{') = false := by
    intro c hc
    obtain ⟨d, name, rfl⟩ := List.exists_cons_of_ne_nil hne
    obtain rfl : d = c := by simpa using hc
    rw [beq_eq_false_iff_ne]
    rintro rfl
    exact hopen List.mem_cons_self
  have hall : name.all (· != '}') = true := by
    rw [List.all_eq_true]
    intro c hc
    rw [bne_iff_ne]
    rintro rfl
    exact hclose hc
  have hlast : ∀ c ∈ (List.replicate pairs '}').head?, (c != '}') = false := by
    intro c hc
    rw [List.eq_of_mem_replicate (List.mem_of_mem_head? hc)]
    rfl
  rw [nameInBraces, List.append_assoc, dropWhile_append_eq (by simp) hfirst,
    takeWhile_append_eq hall hlast]

instance (pairs : Nat) (e : Text) : Decidable (IsBraced pairs e) :=
  let name := TablePreset.nameInBraces e
  decidable_of_iff (e = List.replicate pairs '{' ++ name ++ List.replicate pairs '}' ∧ name ≠ [] ∧
    '{' ∉ name ∧ '}' ∉ name) <| by
  constructor
  · exact fun h => ⟨name, h⟩
  · rintro ⟨inner, rfl, hne, hopen, hclose⟩
    have hname : name = inner := TablePreset.nameInBraces_eq hne hopen hclose
    rw [hname]
    exact ⟨rfl, hne, hopen, hclose⟩

theorem IsBraced.not_three {e : Text} (h : IsBraced 2 e) : ¬ IsBraced 3 e := by
  rintro ⟨name, he, -, -, -⟩
  obtain ⟨inner, rfl, hne, hopen, -⟩ := h
  obtain ⟨c, cs, rfl⟩ := List.exists_cons_of_ne_nil hne
  simp only [List.replicate, List.cons_append, List.nil_append, List.cons.injEq, true_and] at he
  exact hopen (he.1 ▸ List.mem_cons_self)

/-- A tag stands between two pairs of braces. -/
theorem MergeTag.IsWritten.isBraced {t : MergeTag} (h : t.IsWritten) : IsBraced 2 t.source := by
  obtain ⟨content, hsource, hne, hcontent⟩ := h.exists_content
  exact ⟨content, hsource, hne, fun hm => (ne_brace_of_content (hcontent _ hm)).1 rfl,
    fun hm => (ne_brace_of_content (hcontent _ hm)).2 rfl⟩

section

variable {pairs : Nat} {e s s' : Text}

theorem IsBraced.hasRun_open (h : IsBraced pairs e) :
    HasRun '{' (s ++ e ++ s') ↔ HasRun '{' (s ++ List.replicate pairs '{') ∨ HasRun '{' s' := by
  obtain ⟨name, rfl, hne, hopen, -⟩ := h
  have hmiddle : '{' ∉ name ++ List.replicate pairs '}' := by simp [hopen]
  have htext : s ++ (List.replicate pairs '{' ++ name ++ List.replicate pairs '}') ++ s'
      = s ++ List.replicate pairs '{' ++ (name ++ List.replicate pairs '}') ++ s' := by simp
  rw [htext]
  exact hasRun_append_middle (List.append_ne_nil_of_left_ne_nil hne _) hmiddle

theorem IsBraced.hasRun_close (h : IsBraced pairs e) :
    HasRun '}' (s ++ e ++ s') ↔ HasRun '}' s ∨ HasRun '}' (List.replicate pairs '}' ++ s') := by
  obtain ⟨name, rfl, hne, -, hclose⟩ := h
  have hmiddle : '}' ∉ List.replicate pairs '{' ++ name := by simp [hclose]
  have htext : s ++ (List.replicate pairs '{' ++ name ++ List.replicate pairs '}') ++ s'
      = s ++ (List.replicate pairs '{' ++ name) ++ (List.replicate pairs '}' ++ s') := by simp
  rw [htext]
  exact hasRun_append_middle (List.append_ne_nil_of_right_ne_nil _ hne) hmiddle

/-- **An expression in place of a tag makes a run of opening braces** if and only if it stands
between three pairs and behind a brace. -/
theorem IsBraced.hasRun_open_iff (he : IsBraced 2 e ∨ IsBraced 3 e)
    (hs : ¬ HasRun '{' (s ++ List.replicate 2 '{')) :
    HasRun '{' (s ++ e ++ s') ↔ (IsBraced 3 e ∧ s.getLast? = some '{') ∨ HasRun '{' s' := by
  rcases he with h | h
  · rw [h.hasRun_open, or_iff_right hs]
    exact (or_iff_right fun htriple => h.not_three htriple.1).symm
  · rw [h.hasRun_open, hasRun_append_three hs]
    simp [h]

/-- The same for closing braces. -/
theorem IsBraced.hasRun_close_iff (he : IsBraced 2 e ∨ IsBraced 3 e)
    (hs : ¬ HasRun '}' (List.replicate 2 '}' ++ s')) :
    HasRun '}' (s ++ e ++ s') ↔ HasRun '}' s ∨ (IsBraced 3 e ∧ s'.head? = some '}') := by
  rcases he with h | h
  · rw [h.hasRun_close, or_iff_left hs]
    exact (or_iff_left fun htriple => h.not_three htriple.1).symm
  · rw [h.hasRun_close, hasRun_three_append hs]
    simp [h]

end

/-! ## Presets that write expressions -/

namespace Preset

variable {p : Preset}

/-- No variable that is written between three pairs of braces stands right behind an opening
brace. -/
def FrontApart (p : Preset) (s : Text) : Prop :=
  ∀ (u : MergeTag) (before after : Text), u.IsWritten → s = before ++ u.source ++ after →
    IsBraced 3 (p.transformTag u.name) → before.getLast? ≠ some '{'

/-- No variable that is written between three pairs of braces stands right in front of a closing
brace. -/
def BackApart (p : Preset) (s : Text) : Prop :=
  ∀ (u : MergeTag) (before after : Text), u.IsWritten → s = before ++ u.source ++ after →
    IsBraced 3 (p.transformTag u.name) → after.head? ≠ some '}'

theorem frontApart_of_isFree {s : Text} (h : IsFree s) : p.FrontApart s := by
  intro u before after hu hs
  exact absurd ⟨before, after, hs.symm⟩ (h u hu)

theorem backApart_of_isFree {s : Text} (h : IsFree s) : p.BackApart s := by
  intro u before after hu hs
  exact absurd ⟨before, after, hs.symm⟩ (h u hu)

theorem frontApart_append_tag {t : MergeTag} {first rest : Text} (hfirst : IsFree first)
    (ht : t.IsWritten) : p.FrontApart (first ++ t.source ++ rest) ↔
      ¬ (IsBraced 3 (p.transformTag t.name) ∧ first.getLast? = some '{') ∧ p.FrontApart rest := by
  constructor
  · intro h
    refine ⟨fun hlast => h t first rest ht rfl hlast.1 hlast.2, ?_⟩
    rintro u before after hu rfl htriple hlast
    refine h u (first ++ t.source ++ before) after hu (by simp) htriple ?_
    rw [List.getLast?_append, hlast, Option.some_or]
  · rintro ⟨htag, hrest⟩ u before after hu hs htriple hlast
    rcases source_append_cases ht hu hs with ⟨gap, hfront, -⟩ | ⟨rfl, rfl, -⟩ | ⟨gap, hbefore, hafter⟩
    · exact hfirst u hu ⟨before, gap, hfront.symm⟩
    · exact htag ⟨htriple, hlast⟩
    · -- in front of `u` stands the gap, or else a closing brace
      refine hrest u gap after hu hafter htriple ?_
      obtain ⟨content, hsource, -, -⟩ := ht.exists_content
      have hend : (first ++ t.source).getLast? = some '}' := by
        have hsplit : first ++ t.source = first ++ ['{', '{'] ++ content ++ ['}'] ++ ['}'] := by
          simp [hsource]
        rw [hsplit, List.getLast?_concat]
      rw [hbefore, List.getLast?_append, hend] at hlast
      cases hgap : gap.getLast? with
      | none => simp [hgap] at hlast
      | some c => simpa [hgap] using hlast

theorem backApart_append_tag {t : MergeTag} {front last : Text} (hlast : IsFree last)
    (ht : t.IsWritten) : p.BackApart (front ++ t.source ++ last) ↔
      p.BackApart front ∧ ¬ (IsBraced 3 (p.transformTag t.name) ∧ last.head? = some '}') := by
  constructor
  · intro h
    refine ⟨?_, fun hhead => h t front last ht rfl hhead.1 hhead.2⟩
    rintro u before after hu rfl htriple hhead
    refine h u before (after ++ t.source ++ last) hu (by simp) htriple ?_
    rw [List.append_assoc, List.head?_append, hhead, Option.some_or]
  · rintro ⟨hfront, htag⟩ u before after hu hs htriple hhead
    rcases source_append_cases ht hu hs with ⟨gap, hbefore, hafter⟩ | ⟨-, rfl, rfl⟩ | ⟨gap, -, hrest⟩
    · -- behind `u` stands the gap, or else an opening brace
      refine hfront u before gap hu hbefore htriple ?_
      obtain ⟨content, hsource, -, -⟩ := ht.exists_content
      rw [hafter, hsource] at hhead
      cases gap with
      | nil => simp at hhead
      | cons c gap => simpa using hhead
    · exact htag ⟨htriple, hhead⟩
    · exact hlast u hu ⟨gap, after, hrest.symm⟩

/-- Every variable is written between two or three pairs of braces. -/
def WritesExpressions (p : Preset) : Prop :=
  ∀ name, isIdentifier name = true → IsBraced 2 (p.transformTag name) ∨ IsBraced 3 (p.transformTag name)

/-- **When a run of opening braces comes into being**, from the first tag on. -/
theorem hasRun_open_transform_iff (hp : p.WritesExpressions) {markup : Text}
    (h : ¬ HasRun '{' markup) : ¬ HasRun '{' (p.transform {} markup) ↔ p.FrontApart markup := by
  induction markup using first_tag_induction with
  | free s hs =>
    rw [transform_of_isFree hs]
    exact iff_of_true h (frontApart_of_isFree hs)
  | tag first t rest hfirst ht ih =>
    rw [ht.isBraced.hasRun_open, not_or] at h
    rw [transform_append_tag ht, transform_of_isFree hfirst, substitution_empty,
      IsBraced.hasRun_open_iff (hp t.name ht.1) h.1, frontApart_append_tag hfirst ht, not_or, ih h.2]

/-- **When a run of closing braces comes into being**, from the last tag back. -/
theorem hasRun_close_transform_iff (hp : p.WritesExpressions) {markup : Text}
    (h : ¬ HasRun '}' markup) : ¬ HasRun '}' (p.transform {} markup) ↔ p.BackApart markup := by
  induction markup using last_tag_induction with
  | free s hs =>
    rw [transform_of_isFree hs]
    exact iff_of_true h (backApart_of_isFree hs)
  | tag front t last ih ht hlast =>
    rw [ht.isBraced.hasRun_close, not_or] at h
    rw [transform_append_tag ht, transform_of_isFree hlast, substitution_empty,
      IsBraced.hasRun_close_iff (hp t.name ht.1) h.2, backApart_append_tag hlast ht, not_or, ih h.1]

end Preset

/-! ## The built-in presets -/

namespace TablePreset

/-- A table of expressions, with the rule of handlebars for all other variables, writes
expressions. -/
theorem writesExpressions {t : TablePreset} (hfallback : t.fallback = .handlebars)
    (hentries : ∀ e ∈ t.knownTags.entries, IsBraced 2 e.2 ∨ IsBraced 3 e.2) :
    t.toPreset.WritesExpressions := by
  intro name hname
  show IsBraced 2 (t.transformTag name) ∨ IsBraced 3 (t.transformTag name)
  rcases t.transformTag_cases name with ⟨e, he, htag⟩ | htag
  · rw [htag]
    exact hentries e he
  · rw [htag, hfallback, Fallback.apply_handlebars]
    exact .inl (isWritten_double hname).isBraced

theorem writesExpressions_builtin :
    ∀ t ∈ [sendgrid, postmark, mailgun, handlebars], t.toPreset.WritesExpressions := by
  intro t ht
  simp only [List.mem_cons, List.not_mem_nil, or_false] at ht
  rcases ht with rfl | rfl | rfl | rfl
  · exact writesExpressions rfl (by decide +kernel)
  · exact writesExpressions rfl (by decide +kernel)
  · exact writesExpressions rfl (by decide +kernel)
  · exact writesExpressions rfl (List.forall_mem_nil _)

/-- **When no run of braces comes into being.** A preset that writes handlebars keeps markup without
runs of four braces without them if and only if no variable that it writes between three pairs of
braces stands next to a brace. -/
theorem noBraceRun_transform_iff :
    ∀ t ∈ [sendgrid, postmark, mailgun, handlebars], ∀ markup, NoBraceRun markup →
      (NoBraceRun (t.toPreset.transform {} markup) ↔
        t.toPreset.FrontApart markup ∧ t.toPreset.BackApart markup) := by
  intro t ht markup h
  have hp := writesExpressions_builtin t ht
  exact and_congr (Preset.hasRun_open_transform_iff hp h.1) (Preset.hasRun_close_transform_iff hp h.2)

/-- A variable between three pairs of braces that SendGrid knows with two, next to one that it knows
with three. -/
theorem noBraceRun_transform_iff_sendgrid :
    let markup := "\x7b\x7b\x7bfirst_name\x7d\x7d\x7d\x7b\x7bunsubscribe_url\x7d\x7d".toList
    sendgrid ∈ [sendgrid, postmark, mailgun, handlebars] ∧ NoBraceRun markup ∧
      sendgrid.toPreset.FrontApart markup ∧ sendgrid.toPreset.BackApart markup := by
  intro markup
  have hmem : sendgrid ∈ [sendgrid, postmark, mailgun, handlebars] := List.mem_cons_self
  have hmarkup : NoBraceRun markup := by decide +kernel
  have hexported : NoBraceRun (sendgrid.toPreset.transform {} markup) := by decide +kernel
  exact ⟨hmem, hmarkup, (noBraceRun_transform_iff sendgrid hmem markup hmarkup).mp hexported⟩

/-- A URL that is between three pairs of braces gets the three pairs of the table within the
third. -/
theorem not_noBraceRun_triple :
    let markup := "\x7b\x7b\x7bunsubscribe_url\x7d\x7d\x7d".toList
    sendgrid ∈ [sendgrid, postmark, mailgun, handlebars] ∧ NoBraceRun markup ∧
      sendgrid.toPreset.transform {} markup
        = "\x7b\x7b\x7b\x7bunsubscribe\x7d\x7d\x7d\x7d".toList ∧
      ¬ NoBraceRun (sendgrid.toPreset.transform {} markup) := by
  intro markup
  exact ⟨List.mem_cons_self, by decide +kernel, by decide +kernel, by decide +kernel⟩

end TablePreset

end Mailout
