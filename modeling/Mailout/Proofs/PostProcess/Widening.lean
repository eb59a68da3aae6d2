import Mailout.Proofs.PostProcess.UrlSpan

/-!
# What rewriting URL spans keeps

The third pair of braces is all that is added to a page, and it comes to stand beside a pair that
stood alone. A text in which no pair of braces stands alone is therefore found where it was.

## Main statements

* `widens_tripleBraceFrom` — the pairs of braces that become three stood alone;
* `infix_tripleBrace` — a text without lone pairs inside stays in the page.
-/

namespace Mailout.UrlSpan

open Text

/-! ## Lone pairs -/

/-- `Widens before s t` says that `t` is `s`, behind the character `before` if there is one, where
some of the pairs of equal braces that stand alone have become three. -/
inductive Widens : Option Char → Text → Text → Prop where
  | nil {before : Option Char} : Widens before [] []
  | keep {before : Option Char} {c : Char} {s t : Text} (h : Widens (some c) s t) :
    Widens before (c :: s) (c :: t)
  | third {before : Option Char} {c : Char} {s t : Text} (hc : c = '{' ∨ c = '}')
    (hbefore : before ≠ some c) (hafter : ∀ d ∈ s.head?, d ≠ c) (h : Widens (some c) (c :: s) t) :
    Widens before (c :: c :: s) (c :: c :: t)

/-- Text that has no `}` is kept, and what follows it stands behind another character. -/
theorem Widens.append {before : Option Char} {content s t : Text} (hbefore : before ≠ some '}')
    (hcontent : '}' ∉ content) (h : ∀ before, before ≠ some '}' → Widens before s t) :
    Widens before (content ++ s) (content ++ t) := by
  induction content generalizing before with
  | nil => exact h before hbefore
  | cons c content ih =>
    rw [List.mem_cons, not_or] at hcontent
    exact .keep (ih (fun hc => hcontent.1 (Option.some.inj hc).symm) hcontent.2)

/-- **Rewriting widens pairs of braces and does nothing else.** -/
theorem widens_tripleBraceFrom {b : Bool} {s : Text} {before : Option Char}
    (hb : b = false → before ≠ some '{') : Widens before s (tripleBraceFrom b s) := by
  induction b, s using tripleBraceFrom_induct generalizing before with
  | nil b => rw [tripleBraceFrom]; exact .nil
  | span b s content rest h ih =>
    have hclose : '}' ∉ content := fun hc => (not_mem_of_isNested h.flat hc).2.1 rfl
    have hopen : ∀ d ∈ (content ++ '}' :: '}' :: rest).head?, d ≠ '{' := by
      intro d hd
      cases content with
      | nil => rw [← Option.some.inj hd]; decide
      | cons c content =>
        rw [← Option.some.inj hd]
        exact (not_mem_of_isNested h.flat List.mem_cons_self).1
    rw [tripleBraceFrom_span h, h.text]
    refine .third (.inl rfl) (hb h.not_after) hopen (.keep (.append (by decide) hclose ?_))
    intro q hq
    exact .third (.inr rfl) hq h.not_before (.keep (ih (by decide)))
  | cons b c s h ih =>
    rw [tripleBraceFrom_cons h]
    refine .keep (ih fun hc => ?_)
    exact fun he => beq_eq_false_iff_ne.mp hc (Option.some.inj he)

/-! ## What stays of a text -/

/-- Inside the text no pair of equal braces stands alone. -/
def HasNoLonePair (w : Text) : Prop :=
  ∀ c d e : Char, d = '{' ∨ d = '}' → [c, d, d, e] <:+: w → c = d ∨ e = d

theorem hasNoLonePair_of_not_mem {w : Text} (h : ∀ d ∈ w, d ≠ '{' ∧ d ≠ '}') :
    HasNoLonePair w := by
  intro c d e hd hinfix
  have hmem : d ∈ w := hinfix.subset (by simp)
  rcases hd with rfl | rfl
  · exact absurd rfl (h _ hmem).1
  · exact absurd rfl (h _ hmem).2

theorem Widens.exists_suffix {before : Option Char} {s t front rest : Text}
    (h : Widens before s t) (hs : s = front ++ rest) :
    ∃ before' t', t' <:+ t ∧ Widens before' rest t' := by
  induction front generalizing before s t with
  | nil =>
    rw [hs] at h
    exact ⟨before, t, List.suffix_rfl, h⟩
  | cons c front ih =>
    cases h with
    | nil => cases hs
    | keep h =>
      obtain ⟨q, t', ht', h'⟩ := ih h (List.cons.inj hs).2
      exact ⟨q, t', ht'.trans (List.suffix_cons _ _), h'⟩
    | third _ _ _ h =>
      obtain ⟨q, t', ht', h'⟩ := ih h (List.cons.inj hs).2
      exact ⟨q, t', ht'.trans (List.suffix_append [_, _] _), h'⟩

/-- Behind a character of its own a text without lone pairs is kept. -/
theorem Widens.prefix_of_hasNoLonePair {c : Char} {w rest s t : Text} (hw : HasNoLonePair (c :: w))
    (h : Widens (some c) s t) (hs : w ++ rest = s) : w <+: t := by
  induction w generalizing c s t with
  | nil => exact List.nil_prefix
  | cons d w ih =>
    cases h with
    | nil => cases hs
    | keep h =>
      obtain ⟨rfl, htail⟩ := List.cons.inj hs
      refine List.cons_prefix_cons.mpr ⟨rfl, ih ?_ h htail⟩
      exact fun a b e hb he => hw a b e hb (he.trans (List.suffix_cons c _).isInfix)
    | third hd hc hafter h =>
      obtain ⟨rfl, htail⟩ := List.cons.inj hs
      -- the widened pair lies at the end of `w`, or would stand alone inside
      match w with
      | [] => exact ⟨_, rfl⟩
      | [e] =>
        obtain ⟨rfl, -⟩ := List.cons.inj htail
        exact ⟨_, rfl⟩
      | e :: f :: w =>
        obtain ⟨rfl, rfl⟩ := List.cons.inj htail
        rcases hw c e f hd ⟨[], w, rfl⟩ with rfl | rfl
        · exact absurd rfl hc
        · exact absurd rfl (hafter _ rfl)

/-- At the start the pair may be widened, and the text is kept behind the new brace. -/
theorem Widens.infix_of_hasNoLonePair {before : Option Char} {w rest s t : Text}
    (hw : HasNoLonePair w) (h : Widens before s t) (hs : w ++ rest = s) : w <:+: t := by
  cases w with
  | nil => exact List.nil_infix
  | cons c w =>
    cases h with
    | nil => cases hs
    | keep h =>
      obtain ⟨rfl, htail⟩ := List.cons.inj hs
      exact (List.cons_prefix_cons.mpr ⟨rfl, h.prefix_of_hasNoLonePair hw htail⟩).isInfix
    | third _ _ _ h =>
      obtain ⟨rfl, htail⟩ := List.cons.inj hs
      refine List.IsInfix.trans ?_ (List.suffix_cons c _).isInfix
      exact (List.cons_prefix_cons.mpr ⟨rfl, h.prefix_of_hasNoLonePair hw htail⟩).isInfix

/-- **A text without lone pairs stays where it stands.** -/
theorem infix_tripleBrace {w html : Text} (hw : HasNoLonePair w) (h : w <:+: html) :
    w <:+: tripleBrace html := by
  obtain ⟨front, rest, hs⟩ := h
  rw [List.append_assoc] at hs
  have hwidens : Widens none html (tripleBrace html) := widens_tripleBraceFrom fun _ => by decide
  obtain ⟨before, t, ht, h⟩ := hwidens.exists_suffix hs.symm
  exact (h.infix_of_hasNoLonePair hw rfl).trans ht.isInfix

end Mailout.UrlSpan
