import Mailout.Proofs.MergeTag.Cut
import Mailout.Proofs.Text.Words
import Mathlib.Data.List.Basic

/-!
# Where a replaced text has its tags

Taking a tag out brings the texts on its two sides next to what it is replaced by, and a new tag
could be written over the boundary. It is not if the substitution *severs* the text: if it begins
and ends with two braces, or has no brace and a character that stands in no tag. Then the only tags
of the replaced text are those inside its substitutions (`exists_infix_of_transform`).

## Why no tag crosses

* Of a tag only the first two characters and the last two are braces. Over a boundary at two braces
  it would have a brace in between (`severs_of_braces`).
* Over a substitution without braces it would have all of it between its own braces, with the
  character that stands in no tag (`IsOutside.severs`).
-/

namespace Mailout.MergeTag

open Text

/-! ## Texts that no tag crosses -/

/-- A tag that is written in a text lies in front of `r`, in it or behind it, wherever `r`
stands. -/
def Severs (r : Text) : Prop :=
  ∀ (t : MergeTag) (s s' : Text), t.IsWritten → t.source <:+: s ++ r ++ s' →
    t.source <:+: s ∨ t.source <:+: r ∨ t.source <:+: s'

/-- A text that has a character twice at its start and nowhere else does not go over a boundary in
front of this character twice. -/
theorem infix_or_infix_of_pair {d : Char} {body s r : Text} (hne : body ≠ []) (hd : d ∉ body)
    (h : d :: d :: body <:+: s ++ d :: d :: r) :
    d :: d :: body <:+: s ∨ d :: d :: body <:+: d :: d :: r := by
  rcases infix_append_cases h with h | h | ⟨w₁, w₂, hw, hw₁, hw₂, -, hstart⟩
  · exact .inl h
  · exact .inr h
  · -- the first character behind the boundary is `d`, and it is the second one of the text
    exfalso
    obtain ⟨c, w₁, rfl⟩ := List.exists_cons_of_ne_nil hw₁
    obtain ⟨e, w₂, rfl⟩ := List.exists_cons_of_ne_nil hw₂
    obtain ⟨rfl, hstart⟩ := List.cons_prefix_cons.mp hstart
    rw [List.cons_append, List.cons.injEq] at hw
    cases w₁ with
    | nil =>
      obtain ⟨b, body, rfl⟩ := List.exists_cons_of_ne_nil hne
      rw [List.nil_append, List.cons.injEq] at hw
      rw [← hw.2.2] at hstart
      obtain ⟨rfl, -⟩ := List.cons_prefix_cons.mp hstart
      exact hd List.mem_cons_self
    | cons f w₁ =>
      rw [List.cons_append, List.cons.injEq] at hw
      rw [hw.2.2] at hd
      exact hd (List.mem_append_right w₁ List.mem_cons_self)

/-- No tag goes over a boundary in front of two opening braces. -/
theorem infix_or_infix_of_open {t : MergeTag} (ht : t.IsWritten) {s r : Text}
    (hr : ['{', '{'] <+: r) (h : t.source <:+: s ++ r) : t.source <:+: s ∨ t.source <:+: r := by
  obtain ⟨content, hsource, -, hcontent⟩ := ht.exists_content
  obtain ⟨r, rfl⟩ := hr
  have hbrace : '{' ∉ content ++ ['}', '}'] := by
    intro hm
    rcases List.mem_append.mp hm with hm | hm
    · exact (ne_brace_of_content (hcontent _ hm)).1 rfl
    · revert hm
      decide
  rw [hsource, List.append_assoc] at h ⊢
  exact infix_or_infix_of_pair (by simp) hbrace h

/-- No tag goes over a boundary behind two closing braces. -/
theorem infix_or_infix_of_close {t : MergeTag} (ht : t.IsWritten) {r s : Text}
    (hr : ['}', '}'] <:+ r) (h : t.source <:+: r ++ s) : t.source <:+: r ∨ t.source <:+: s := by
  obtain ⟨content, hsource, -, hcontent⟩ := ht.exists_content
  obtain ⟨r, rfl⟩ := hr
  have hbrace : '}' ∉ content.reverse ++ ['{', '{'] := by
    intro hm
    rcases List.mem_append.mp hm with hm | hm
    · exact (ne_brace_of_content (hcontent _ (List.mem_reverse.mp hm))).2 rfl
    · revert hm
      decide
  -- read from its end, the tag is a text that begins with two braces
  have hreverse : t.source.reverse = '}' :: '}' :: (content.reverse ++ ['{', '{']) := by
    simp [hsource]
  rw [← List.reverse_infix, hreverse] at h
  simp only [List.reverse_append, List.reverse_cons, List.reverse_nil, List.nil_append,
    List.cons_append] at h
  have hsides := infix_or_infix_of_pair (by simp) hbrace h
  rw [← hreverse, List.reverse_infix] at hsides
  refine hsides.symm.imp (fun hside => ?_) id
  rw [← List.reverse_infix]
  simpa using hside

/-- **A text that begins and ends with two braces severs.** -/
theorem severs_of_braces {r : Text} (hopen : ['{', '{'] <+: r) (hclose : ['}', '}'] <:+ r) :
    Severs r := by
  intro t s s' ht h
  rw [List.append_assoc] at h
  rcases infix_or_infix_of_open ht (hopen.trans (List.prefix_append r s')) h with h | h
  · exact .inl h
  · exact .inr (infix_or_infix_of_close ht hclose h)

/-- A tag does not end in a text without a closing brace. -/
theorem infix_of_not_mem_close {t : MergeTag} (ht : t.IsWritten) {s r : Text} (hr : '}' ∉ r)
    (h : t.source <:+: s ++ r) : t.source <:+: s := by
  obtain ⟨content, hsource, -, -⟩ := ht.exists_content
  have hlast : t.source = ['{', '{'] ++ content ++ ['}'] ++ ['}'] := by simp [hsource]
  rcases infix_append_cases h with h | h | ⟨w₁, w₂, hw, -, hw₂, -, hstart⟩
  · exact h
  · exact absurd (h.subset (by rw [hlast]; simp)) hr
  · rcases w₂.eq_nil_or_concat with rfl | ⟨w₂, d, rfl⟩
    · exact absurd rfl hw₂
    · rw [hlast, List.concat_eq_append, ← List.append_assoc] at hw
      rw [List.concat_eq_append, ← (List.append_inj' hw rfl).2] at hstart
      exact absurd (hstart.subset (by simp)) hr

/-- A tag does not begin in a text without an opening brace. -/
theorem infix_of_not_mem_open {t : MergeTag} (ht : t.IsWritten) {r s : Text} (hr : '{' ∉ r)
    (h : t.source <:+: r ++ s) : t.source <:+: s := by
  obtain ⟨content, hsource, -, -⟩ := ht.exists_content
  have hfirst : t.source.head? = some '{' := by rw [hsource]; rfl
  exact (infix_append_of_not_mem hfirst hr).mp h

/-- The text has no brace, and a character that stands in no tag. -/
structure IsOutside (r : Text) : Prop where
  not_open : '{' ∉ r
  not_close : '}' ∉ r
  outsider : ∃ c ∈ r, isBlank c = false ∧ isIdentifierPart c = false

instance : DecidablePred IsOutside := fun r =>
  decidable_of_iff ('{' ∉ r ∧ '}' ∉ r ∧ r.any (fun c => !isBlank c && !isIdentifierPart c) = true) <| by
  simp only [List.any_eq_true, Bool.and_eq_true, Bool.not_eq_true']
  exact ⟨fun h => ⟨h.1, h.2.1, h.2.2⟩, fun h => ⟨h.not_open, h.not_close, h.outsider⟩⟩

/-- **A text without braces and with a character that stands in no tag severs.** -/
theorem IsOutside.severs {r : Text} (h : IsOutside r) : Severs r := by
  intro t s s' ht htext
  obtain ⟨hopen, hclose, c, hc, hblank, hpart⟩ := h
  obtain ⟨r₁, r₂, rfl⟩ := List.append_of_mem hc
  obtain ⟨content, hsource, -, hcontent⟩ := ht.exists_content
  have hopen₂ : '{' ∉ r₂ := fun hm =>
    hopen (List.mem_append_right r₁ (List.mem_cons_of_mem c hm))
  have hclose₁ : '}' ∉ r₁ := fun hm => hclose (List.mem_append_left _ hm)
  have houtside : c ∉ t.source := by
    intro hm
    rw [hsource, List.mem_append, List.mem_append] at hm
    rcases hm with (hm | hm) | hm
    · have hbrace : c = '{' := by simpa using hm
      exact hopen (hbrace ▸ hc)
    · rcases hcontent c hm with hm | hm
      · rw [hblank] at hm
        cases hm
      · rw [hpart] at hm
        cases hm
    · have hbrace : c = '}' := by simpa using hm
      exact hclose (hbrace ▸ hc)
  have hsplit : s ++ (r₁ ++ c :: r₂) ++ s' = (s ++ r₁) ++ c :: (r₂ ++ s') := by simp
  rw [hsplit] at htext
  rcases infix_append_cons houtside htext with htext | htext
  · exact .inl (infix_of_not_mem_close ht hclose₁ htext)
  · exact .inr (.inr (infix_of_not_mem_open ht hopen₂ htext))

/-- No tag is written in a text without braces. -/
theorem IsOutside.isFree {r : Text} (h : IsOutside r) : IsFree r := by
  intro t ht htext
  obtain ⟨content, hsource, -, -⟩ := ht.exists_content
  exact h.not_open (htext.subset (by rw [hsource]; simp))

/-! ## Tags of a replaced text -/

variable {p : Preset} {overrides : Dictionary Text} {markup : Text}

/-- A tag among the pieces of a text is written in it. -/
theorem source_infix_of_mem_pieces {s gap : Text} {t : MergeTag}
    (h : (t, gap) ∈ (pieces s).tagged) : t.source <:+: s := by
  obtain ⟨front, back, htagged⟩ := List.append_of_mem h
  have hsource := source_pieces s
  rw [Pieces.source, htagged, List.flatMap_append, List.flatMap_cons, List.append_assoc,
    ← List.append_assoc, ← List.append_assoc] at hsource
  exact ⟨_, _, by rw [← hsource, List.append_assoc]⟩

/-- A text whose tags are substituted by themselves stays as it is. -/
theorem transform_eq_self
    (h : ∀ t : MergeTag, t.IsWritten → t.source <:+: markup →
      p.substitution overrides t.name = t.source) : p.transform overrides markup = markup := by
  rw [transform_eq]
  conv => rhs; rw [← source_pieces markup]
  rw [Pieces.source, List.append_right_inj]
  refine List.flatMap_congr ?_
  rintro ⟨t, gap⟩ hpiece
  show p.substitution overrides t.name ++ gap = t.source ++ gap
  rw [h t ((isCut_pieces markup).written _ hpiece) (source_infix_of_mem_pieces hpiece)]

theorem transform_of_isFree (h : IsFree markup) : p.transform overrides markup = markup :=
  transform_eq_self fun t ht htext => absurd htext (h t ht)

/-- **The texts on both sides of a tag are replaced by themselves.** -/
theorem transform_append_tag {t : MergeTag} (ht : t.IsWritten) (before after : Text) :
    p.transform overrides (before ++ t.source ++ after) = p.transform overrides before
      ++ p.substitution overrides t.name ++ p.transform overrides after := by
  rw [transform_eq, transform_eq, transform_eq, pieces_append_tag ht]
  simp

/-- **The tags of a replaced text lie in its substitutions**, if all of these sever. -/
theorem exists_infix_of_transform
    (hsevers : ∀ name ∈ names markup, Severs (p.substitution overrides name)) {u : MergeTag}
    (hu : u.IsWritten) (h : u.source <:+: p.transform overrides markup) :
    ∃ name ∈ names markup, u.source <:+: p.substitution overrides name := by
  induction markup using first_tag_induction with
  | free s hs =>
    rw [transform_of_isFree hs] at h
    exact absurd h (hs u hu)
  | tag first t rest hfirst ht ih =>
    have hname : t.name ∈ names (first ++ t.source ++ rest) :=
      (mem_names_append_tag ht).mpr (.inr (.inl rfl))
    rw [transform_append_tag ht, transform_of_isFree hfirst] at h
    rcases hsevers t.name hname u _ _ hu h with h | h | h
    · exact absurd h (hfirst u hu)
    · exact ⟨t.name, hname, h⟩
    · have hrest (name : Text) (h : name ∈ names rest) : name ∈ names (first ++ t.source ++ rest) :=
        (mem_names_append_tag ht).mpr (.inr (.inr h))
      obtain ⟨name, hmem, h⟩ := ih (fun name hmem => hsevers name (hrest name hmem)) h
      exact ⟨name, hrest name hmem, h⟩

/-- The variables of a text are identifiers. -/
theorem isIdentifier_of_mem_names {s name : Text} (h : name ∈ names s) :
    isIdentifier name = true := by
  obtain ⟨piece, hpiece, rfl⟩ := mem_names_iff.mp h
  exact ((isCut_pieces s).written piece hpiece).1

end Mailout.MergeTag
