import Mailout.Proofs.MergeTag.Occurrences
import Mailout.Proofs.MergeTag.Substitution
import Mathlib.Data.List.Induction

/-!
# A text has one cut

The pieces of a text are tags with gaps between them, and no tag is written in a gap. No other cut
has this property, so a text that was put together from written tags and gaps without tags is read
as what it was put together from (`pieces_source`). This is how one knows the tags of a text that
was not scanned but made.

## Main statements

* `isCut_pieces`, `pieces_source` — the pieces of a text are its only cut;
* `pieces_append_tag` — the text in front of a tag and the text behind it are cut by themselves;
* `first_tag_induction`, `last_tag_induction` — induction over the tags of a text, from either end;
* `names_eq_nil_iff` — a text names no variable if and only if no tag is written in it.
-/

namespace Mailout.MergeTag

open Text

/-! ## Written tags -/

/-- An identifier between two pairs of braces is a tag. -/
theorem isWritten_double {name : Text} (h : isIdentifier name = true) :
    IsWritten ⟨['{', '{'] ++ name ++ ['}', '}'], name⟩ :=
  ⟨h, [], [], rfl, rfl, by simp⟩

/-- **Two written tags of a text lie apart or are the same.** -/
theorem source_append_cases {t u : MergeTag} (ht : t.IsWritten) (hu : u.IsWritten)
    {front rest before after : Text} (h : front ++ t.source ++ rest = before ++ u.source ++ after) :
    (∃ gap, front = before ++ u.source ++ gap ∧ after = gap ++ t.source ++ rest) ∨
      (before = front ∧ u = t ∧ after = rest) ∨
        ∃ gap, before = front ++ t.source ++ gap ∧ rest = gap ++ u.source ++ after := by
  have hsame {t u : MergeTag} (ht : t.IsWritten) (hu : u.IsWritten) {rest after : Text}
      (h : t.source ++ rest = u.source ++ after) : u = t ∧ after = rest := by
    have hread := read?_source_append ht rest
    rw [h, read?_source_append hu after] at hread
    exact Prod.mk.inj (Option.some.inj hread)
  rw [List.append_assoc, List.append_assoc] at h
  rcases List.append_eq_append_iff.mp h with ⟨gap, hbefore, htag⟩ | ⟨gap, hfront, htag⟩
  · cases gap with
    | nil => exact .inr (.inl ⟨by simpa using hbefore, hsame ht hu htag⟩)
    | cons c gap =>
      obtain ⟨between, hgap, hrest⟩ := exists_gap ht hu (by rw [htag, List.append_assoc])
      exact .inr (.inr ⟨between, by rw [hbefore, hgap, List.append_assoc], hrest⟩)
  · cases gap with
    | nil =>
      obtain ⟨hut, hrest⟩ := hsame hu ht htag
      exact .inr (.inl ⟨by simpa using hfront.symm, hut.symm, hrest.symm⟩)
    | cons c gap =>
      obtain ⟨between, hgap, hafter⟩ := exists_gap hu ht (by rw [htag, List.append_assoc])
      exact .inl ⟨between, by rw [hfront, hgap, List.append_assoc], hafter⟩

/-! ## Texts without tags -/

/-- No tag is written in the text. -/
def IsFree (s : Text) : Prop := ∀ t : MergeTag, t.IsWritten → ¬ t.source <:+: s

theorem IsFree.of_infix {s s' : Text} (h : IsFree s) (hs : s' <:+: s) : IsFree s' :=
  fun t ht htext => h t ht (htext.trans hs)

theorem isFree_nil : IsFree [] := by
  intro t ht h
  obtain ⟨content, hsource, -, -⟩ := ht.exists_content
  rw [hsource] at h
  simp at h

/-- A failed attempt to read a tag and a text without tags make up a text without tags. -/
theorem isFree_cons {c : Char} {s rest : Text} (hread : read? (c :: (s ++ rest)) = none)
    (hs : IsFree s) : IsFree (c :: s) := by
  intro t ht h
  rcases List.infix_cons_iff.mp h with ⟨after, hprefix⟩ | h
  · rw [← List.cons_append, ← hprefix, List.append_assoc, read?_source_append ht] at hread
    cases hread
  · exact hs t ht h

/-! ## Cuts -/

/-- The pieces are written tags and gaps without tags. -/
structure Pieces.IsCut (p : Pieces) : Prop where
  first : IsFree p.first
  written : ∀ piece ∈ p.tagged, piece.1.IsWritten
  gaps : ∀ piece ∈ p.tagged, IsFree piece.2

theorem Pieces.IsCut.tail {first gap : Text} {t : MergeTag} {tagged : List (MergeTag × Text)}
    (h : IsCut ⟨first, (t, gap) :: tagged⟩) : IsCut ⟨gap, tagged⟩ where
  first := h.gaps _ List.mem_cons_self
  written piece hpiece := h.written piece (List.mem_cons_of_mem _ hpiece)
  gaps piece hpiece := h.gaps piece (List.mem_cons_of_mem _ hpiece)

theorem pieces_cons_of_none {c : Char} {s : Text} (h : read? (c :: s) = none) :
    pieces (c :: s) = ⟨c :: (pieces s).first, (pieces s).tagged⟩ := by
  unfold pieces
  rw [segments]
  split
  · next hread => rw [h] at hread; cases hread
  · rfl

theorem pieces_source_append {t : MergeTag} (ht : t.IsWritten) (rest : Text) :
    pieces (t.source ++ rest) = ⟨[], (t, (pieces rest).first) :: (pieces rest).tagged⟩ := by
  have hread := read?_source_append ht rest
  obtain ⟨c, s, htext⟩ : ∃ c s, t.source ++ rest = c :: s := by
    obtain ⟨content, hsource, -, -⟩ := ht.exists_content
    exact ⟨'{', '{' :: (content ++ ['}', '}'] ++ rest), by simp [hsource]⟩
  rw [htext] at hread ⊢
  unfold pieces
  rw [segments]
  split
  · next hread' =>
    rw [hread] at hread'
    obtain ⟨rfl, rfl⟩ := Prod.mk.inj (Option.some.inj hread')
    rfl
  · next hread' => rw [hread] at hread'; cases hread'

/-- **The pieces of a text are a cut of it.** -/
theorem isCut_pieces (s : Text) : (pieces s).IsCut := by
  have hfree : IsFree (pieces s).first ∧ ∀ piece ∈ (pieces s).tagged, IsFree piece.2 := by
    unfold pieces
    fun_induction segments s with
    | case1 => exact ⟨isFree_nil, List.forall_mem_nil _⟩
    | case2 c s t rest hread ih => exact ⟨isFree_nil, List.forall_mem_cons.mpr ih⟩
    | case3 c s hread ih =>
      have hs : (Pieces.ofSegments (segments s)).source = s := source_pieces s
      rw [← hs] at hread
      exact ⟨isFree_cons hread ih.1, ih.2⟩
  exact ⟨hfree.1, fun _ => isWritten_of_mem_pieces, hfree.2⟩

namespace Pieces

/-- In front of the first tag no tag is read. -/
theorem IsCut.read?_eq_none {c : Char} {first : Text} {tagged : List (MergeTag × Text)}
    (h : IsCut ⟨c :: first, tagged⟩) : read? (c :: source ⟨first, tagged⟩) = none := by
  cases hread : read? (c :: source ⟨first, tagged⟩) with
  | none => rfl
  | some reading =>
    obtain ⟨u, rest⟩ := reading
    obtain ⟨htext, hu⟩ := read?_append hread
    -- the tag would be a part of the gap, since it does not overlap the tag behind the gap
    have hgap : u.source <:+: c :: first := by
      cases tagged with
      | nil => exact ⟨[], rest, by simpa [source] using htext⟩
      | cons piece tagged =>
        obtain ⟨t, gap⟩ := piece
        have ht : t.IsWritten := h.written _ List.mem_cons_self
        have hs : u.source ++ rest = c :: first ++ t.source ++ source ⟨gap, tagged⟩ := by
          rw [htext]
          simp [source]
        obtain ⟨between, hfirst, -⟩ := exists_gap hu ht hs
        exact ⟨[], between, hfirst.symm⟩
    exact absurd hgap (h.first u hu)

/-- The gap in front of the first tag is read character by character. -/
theorem IsCut.pieces_first {first : Text} {tagged : List (MergeTag × Text)}
    (h : IsCut ⟨first, tagged⟩) (hrest : pieces (source ⟨[], tagged⟩) = ⟨[], tagged⟩) :
    pieces (source ⟨first, tagged⟩) = ⟨first, tagged⟩ := by
  induction first with
  | nil => exact hrest
  | cons c first ih =>
    have htail : IsCut ⟨first, tagged⟩ :=
      ⟨h.first.of_infix (List.suffix_cons c first).isInfix, h.written, h.gaps⟩
    have hstep := pieces_cons_of_none h.read?_eq_none
    rw [ih htail] at hstep
    exact hstep

end Pieces

/-- **A text has one cut**: what it is put together from, if this is written tags and gaps without
tags. -/
theorem pieces_source {p : Pieces} (h : p.IsCut) : pieces p.source = p := by
  obtain ⟨first, tagged⟩ := p
  induction tagged generalizing first with
  | nil =>
    have hnil : pieces (Pieces.source ⟨[], []⟩) = ⟨[], []⟩ := by
      simp [Pieces.source, pieces, segments, Pieces.ofSegments]
    exact h.pieces_first hnil
  | cons piece tagged ih =>
    obtain ⟨t, gap⟩ := piece
    have htag := pieces_source_append (h.written (t, gap) List.mem_cons_self)
      (Pieces.source ⟨gap, tagged⟩)
    rw [ih gap h.tail] at htag
    refine h.pieces_first ?_
    simpa [Pieces.source] using htag

/-- **The text in front of a tag and the text behind it are cut by themselves.** -/
theorem pieces_append_tag {t : MergeTag} (ht : t.IsWritten) (before after : Text) :
    pieces (before ++ t.source ++ after) = ⟨(pieces before).first,
      (pieces before).tagged ++ (t, (pieces after).first) :: (pieces after).tagged⟩ := by
  have hbefore := isCut_pieces before
  have hafter := isCut_pieces after
  have hsource : before ++ t.source ++ after = Pieces.source ⟨(pieces before).first,
      (pieces before).tagged ++ (t, (pieces after).first) :: (pieces after).tagged⟩ := by
    conv => lhs; rw [← source_pieces before, ← source_pieces after]
    simp [Pieces.source]
  rw [hsource]
  refine pieces_source ⟨hbefore.first, fun piece hpiece => ?_, fun piece hpiece => ?_⟩
  · rcases List.mem_append.mp hpiece with hpiece | hpiece
    · exact hbefore.written piece hpiece
    · rcases List.mem_cons.mp hpiece with rfl | hpiece
      · exact ht
      · exact hafter.written piece hpiece
  · rcases List.mem_append.mp hpiece with hpiece | hpiece
    · exact hbefore.gaps piece hpiece
    · rcases List.mem_cons.mp hpiece with rfl | hpiece
      · exact hafter.first
      · exact hafter.gaps piece hpiece

/-! ## Induction over the tags -/

/-- What holds of texts without tags, and of a text if it holds of what is behind its first tag,
holds of every text. -/
@[elab_as_elim]
theorem first_tag_induction {motive : Text → Prop} (free : ∀ s, IsFree s → motive s)
    (tag : ∀ (first : Text) (t : MergeTag) (rest : Text), IsFree first → t.IsWritten → motive rest →
      motive (first ++ t.source ++ rest)) (s : Text) : motive s := by
  have hcut {first : Text} {tagged : List (MergeTag × Text)} (h : Pieces.IsCut ⟨first, tagged⟩) :
      motive (Pieces.source ⟨first, tagged⟩) := by
    induction tagged generalizing first with
    | nil =>
      rw [Pieces.source, List.flatMap_nil, List.append_nil]
      exact free first h.first
    | cons piece tagged ih =>
      obtain ⟨t, gap⟩ := piece
      have hrest := tag first t _ h.first (h.written _ List.mem_cons_self) (ih h.tail)
      simpa [Pieces.source] using hrest
  rw [← source_pieces s]
  exact hcut (isCut_pieces s)

/-- What holds of texts without tags, and of a text if it holds of what is in front of its last tag,
holds of every text. -/
@[elab_as_elim]
theorem last_tag_induction {motive : Text → Prop} (free : ∀ s, IsFree s → motive s)
    (tag : ∀ (front : Text) (t : MergeTag) (last : Text), motive front → t.IsWritten → IsFree last →
      motive (front ++ t.source ++ last)) (s : Text) : motive s := by
  have hcut {first : Text} {tagged : List (MergeTag × Text)} (h : Pieces.IsCut ⟨first, tagged⟩) :
      motive (Pieces.source ⟨first, tagged⟩) := by
    induction tagged using List.reverseRecOn with
    | nil =>
      rw [Pieces.source, List.flatMap_nil, List.append_nil]
      exact free first h.first
    | append_singleton tagged piece ih =>
      obtain ⟨t, gap⟩ := piece
      have hmem : (t, gap) ∈ tagged ++ [(t, gap)] := List.mem_concat_self
      have hfront : Pieces.IsCut ⟨first, tagged⟩ := ⟨h.first,
        fun piece hpiece => h.written piece (List.mem_append_left _ hpiece),
        fun piece hpiece => h.gaps piece (List.mem_append_left _ hpiece)⟩
      have hrest := tag _ t gap (ih hfront) (h.written _ hmem) (h.gaps _ hmem)
      simpa [Pieces.source] using hrest
  rw [← source_pieces s]
  exact hcut (isCut_pieces s)

/-! ## Variables -/

/-- The variables of the listed tags are those of the pieces. -/
theorem map_name_occurrences (s : Text) :
    (occurrences s).map Occurrence.name = (pieces s).tagged.map fun piece => piece.1.name := by
  have hplaces (offset : Nat) (tagged : List (MergeTag × Text)) :
      (Pieces.placesFrom offset tagged).map Occurrence.name
        = tagged.map fun piece => piece.1.name := by
    induction tagged generalizing offset with
    | nil => rfl
    | cons piece tagged ih => rw [Pieces.placesFrom, List.map_cons, List.map_cons, ih]
  rw [← places_pieces]
  exact hplaces _ _

/-- A tag's variable is among the variables of the text, once. -/
theorem mem_names_iff {s name : Text} :
    name ∈ names s ↔ ∃ piece ∈ (pieces s).tagged, piece.1.name = name := by
  rw [names, map_name_occurrences, List.mem_eraseDups, List.mem_map]

/-- A text names what it names in front of a tag, the tag's variable, and what it names behind
it. -/
theorem mem_names_append_tag {t : MergeTag} (ht : t.IsWritten) {before after name : Text} :
    name ∈ names (before ++ t.source ++ after) ↔
      name ∈ names before ∨ name = t.name ∨ name ∈ names after := by
  rw [mem_names_iff, mem_names_iff, mem_names_iff, pieces_append_tag ht]
  simp [or_and_right, exists_or, eq_comm]

/-- **A text names no variable** if and only if no tag is written in it. -/
theorem names_eq_nil_iff {s : Text} : names s = [] ↔ IsFree s := by
  constructor
  · intro hnil t ht htext
    obtain ⟨before, after, rfl⟩ := htext
    have hname : t.name ∈ names (before ++ t.source ++ after) :=
      (mem_names_append_tag ht).mpr (.inr (.inl rfl))
    rw [hnil] at hname
    cases hname
  · intro hfree
    rw [names, map_name_occurrences]
    have hcut : Pieces.IsCut ⟨s, []⟩ := ⟨hfree, List.forall_mem_nil _, List.forall_mem_nil _⟩
    have hpieces := pieces_source hcut
    rw [Pieces.source, List.flatMap_nil, List.append_nil] at hpieces
    rw [hpieces]
    rfl

end Mailout.MergeTag
