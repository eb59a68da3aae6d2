import Mailout.Preset.Builtin
import Mailout.Proofs.Preset.Resolution

/-!
# Exporting what was exported

What a preset writes may hold merge tags of its own. Exported once more, such a text stays as it is
if every tag in it is substituted by itself. That is a property of the table alone: no tag of the
text crosses a substitution, so all its tags lie inside what the preset has written
(`transform_transform`).

Handlebars writes every variable as a tag of this variable, so the tags of the markup and those of
the exported text are the same but for the blanks (`pieces_transform_handlebars`).
-/

namespace Mailout

open Text MergeTag

/-! ## Presets that keep what they have written -/

namespace MergeTag

/-- A tag that is written in a text is among its pieces. -/
theorem exists_mem_pieces {s : Text} {t : MergeTag} (ht : t.IsWritten) (h : t.source <:+: s) :
    ∃ gap, (t, gap) ∈ (pieces s).tagged := by
  obtain ⟨before, after, rfl⟩ := h
  rw [pieces_append_tag ht]
  exact ⟨(pieces after).first, List.mem_append_right _ List.mem_cons_self⟩

/-- **Exporting a second time changes nothing** if no tag crosses what the preset writes, and every
tag in what it writes is written by the preset as it stands. -/
theorem transform_transform {p : Preset}
    (hsevers : ∀ name, isIdentifier name = true → Severs (p.transformTag name))
    (hself : ∀ name, isIdentifier name = true → ∀ t : MergeTag, t.IsWritten →
      t.source <:+: p.transformTag name → p.transformTag t.name = t.source) (markup : Text) :
    p.transform {} (p.transform {} markup) = p.transform {} markup := by
  have hsub : ∀ name ∈ names markup, Severs (p.substitution {} name) :=
    fun name hname => hsevers name (isIdentifier_of_mem_names hname)
  refine transform_eq_self fun t ht htext => ?_
  obtain ⟨name, hname, hinside⟩ := exists_infix_of_transform hsub ht htext
  exact hself name (isIdentifier_of_mem_names hname) t ht hinside

end MergeTag

namespace TablePreset

/-- A table of expressions in braces, with the rule of handlebars for all other variables, that
writes every tag in one of its expressions as it stands. -/
structure WritesItself (t : TablePreset) : Prop where
  fallback : t.fallback = .handlebars
  braces : ∀ e ∈ t.knownTags.entries, ['{', '{'] <+: e.2 ∧ ['}', '}'] <:+ e.2
  tags : ∀ e ∈ t.knownTags.entries, ∀ piece ∈ (pieces e.2).tagged,
    t.transformTag piece.1.name = piece.1.source

theorem writesItself_sendgrid : WritesItself sendgrid :=
  ⟨rfl, by decide +kernel, by decide +kernel⟩

theorem writesItself_postmark : WritesItself postmark :=
  ⟨rfl, by decide +kernel, by decide +kernel⟩

theorem writesItself_handlebars : WritesItself handlebars :=
  ⟨rfl, List.forall_mem_nil _, List.forall_mem_nil _⟩

variable {t : TablePreset} {name : Text}

theorem WritesItself.severs (h : t.WritesItself) (name : Text) : Severs (t.transformTag name) := by
  rcases t.transformTag_cases name with ⟨e, he, htag⟩ | htag
  · rw [htag]
    exact severs_of_braces (h.braces e he).1 (h.braces e he).2
  · rw [htag, h.fallback, Fallback.apply_handlebars]
    exact severs_of_braces ⟨name ++ ['}', '}'], by simp⟩ (List.suffix_append _ _)

theorem WritesItself.transformTag_name (h : t.WritesItself) (hname : isIdentifier name = true)
    {u : MergeTag} (hu : u.IsWritten) (hinside : u.source <:+: t.transformTag name) :
    t.transformTag u.name = u.source := by
  rcases t.transformTag_cases name with ⟨e, he, htag⟩ | htag
  · rw [htag] at hinside
    obtain ⟨gap, hgap⟩ := exists_mem_pieces hu hinside
    exact h.tags e he _ hgap
  · -- the only tag between two pairs of braces is the whole
    rw [h.fallback, Fallback.apply_handlebars] at htag
    have hwritten := isWritten_double hname
    have hpieces := pieces_source_append hwritten []
    rw [List.append_nil, ← htag] at hpieces
    obtain ⟨gap, hgap⟩ := exists_mem_pieces hu hinside
    rw [hpieces] at hgap
    have hgap : (u, gap) = (⟨t.transformTag name, name⟩, []) := by
      simpa [pieces, segments, Pieces.ofSegments] using hgap
    rw [(Prod.mk.inj hgap).1]

/-! ## Handlebars -/

/-- **Handlebars keeps the tags of a text**, without the blanks in them, and the gaps. -/
theorem pieces_transform_handlebars (markup : Text) :
    pieces (handlebars.toPreset.transform {} markup) = ⟨(pieces markup).first,
      (pieces markup).tagged.map fun (t, gap) =>
        (⟨['{', '{'] ++ t.name ++ ['}', '}'], t.name⟩, gap)⟩ := by
  have hcut := isCut_pieces markup
  have hsource : handlebars.toPreset.transform {} markup = Pieces.source ⟨(pieces markup).first,
      (pieces markup).tagged.map fun (t, gap) =>
        (⟨['{', '{'] ++ t.name ++ ['}', '}'], t.name⟩, gap)⟩ := by
    rw [transform_eq, Pieces.source, List.flatMap_map]
    rfl
  rw [hsource]
  refine pieces_source ⟨hcut.first, fun piece hpiece => ?_, fun piece hpiece => ?_⟩
  · obtain ⟨⟨t, gap⟩, hmem, rfl⟩ := List.mem_map.mp hpiece
    exact isWritten_double (hcut.written _ hmem).1
  · obtain ⟨⟨t, gap⟩, hmem, rfl⟩ := List.mem_map.mp hpiece
    show IsFree gap
    exact hcut.gaps (t, gap) hmem

/-! ## The built-in presets -/

/-- **What was exported stays as it is when it is exported again**, for Mailchimp, SendGrid,
Postmark and handlebars; and handlebars keeps the variables of the markup, each as often as it
stands there and in the same order. -/
theorem transform_transform_builtin :
    (∀ t ∈ [mailchimp, sendgrid, postmark, handlebars], ∀ markup,
      t.toPreset.transform {} (t.toPreset.transform {} markup) = t.toPreset.transform {} markup) ∧
      ∀ markup, (occurrences (handlebars.toPreset.transform {} markup)).map Occurrence.name
        = (occurrences markup).map Occurrence.name := by
  have htable {t : TablePreset} (h : t.WritesItself) (markup : Text) :
      t.toPreset.transform {} (t.toPreset.transform {} markup) = t.toPreset.transform {} markup :=
    transform_transform (fun name _ => h.severs name)
      (fun _ hname _ hu hinside => h.transformTag_name hname hu hinside) markup
  refine ⟨?_, fun markup => ?_⟩
  · intro t ht markup
    simp only [List.mem_cons, List.not_mem_nil, or_false] at ht
    rcases ht with rfl | rfl | rfl | rfl
    · refine transform_transform (fun name hname => (isOutside_mailchimp hname).severs) ?_ markup
      intro name hname u hu hinside
      exact absurd hinside ((isOutside_mailchimp hname).isFree u hu)
    · exact htable writesItself_sendgrid markup
    · exact htable writesItself_postmark markup
    · exact htable writesItself_handlebars markup
  · rw [map_name_occurrences, map_name_occurrences, pieces_transform_handlebars, List.map_map]
    rfl

/-- SendGrid's expressions among stray braces: two that are tags again, and one between more braces
than an expression has. -/
theorem transform_transform_builtin_sendgrid :
    let markup := "\x7b\x7b phone \x7d\x7d\x7d\x7b\x7b\x7bunsubscribe_url\x7d\x7d\x7d \x7b\x7bx".toList
    let exported :=
      "\x7b\x7bphone_number\x7d\x7d\x7d\x7b\x7b\x7b\x7bunsubscribe\x7d\x7d\x7d\x7d \x7b\x7bx".toList
    sendgrid ∈ [mailchimp, sendgrid, postmark, handlebars] ∧
      sendgrid.toPreset.transform {} markup = exported ∧
      sendgrid.toPreset.transform {} exported = exported := by
  intro markup exported
  have hmem : sendgrid ∈ [mailchimp, sendgrid, postmark, handlebars] :=
    List.mem_cons_of_mem _ List.mem_cons_self
  have hexported : sendgrid.toPreset.transform {} markup = exported := by decide +kernel
  have hagain := transform_transform_builtin.1 sendgrid hmem markup
  rw [hexported] at hagain
  exact ⟨hmem, hexported, hagain⟩

end TablePreset

end Mailout
