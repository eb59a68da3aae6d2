import Mailout.Markup.ClassRun
import Mailout.Proofs.Text.Search
import Mailout.Proofs.Text.Words

/-!
# The class runs of a text

A run that is read has spaces, one of two names, one of two quotes and a value without its quote.

## Main statements

* `isRun_of_mem_parts` — so has every run among the parts of a text;
* `source_infix_of_mem_parts` — every part stands in the text;
* `IsRun.parts_source_append`, `parts_append_of_literal` — what a text begins with is a part of it.
-/

namespace Mailout.ClassRun

open Text

/-- A run as it is read from a text. -/
structure IsRun (r : ClassRun) : Prop where
  space_ne_nil : r.space ≠ []
  space : r.space.all isMarkupSpace = true
  name : r.name = "class=".toList ∨ r.name = "css-class=".toList
  quote : r.quote = '"' ∨ r.quote = '\''
  value : r.quote ∉ r.value

theorem name_of_readName {s name rest : Text} (h : readName s = some (name, rest)) :
    name = "class=".toList ∨ name = "css-class=".toList := by
  unfold readName at h
  split at h
  · exact Or.inr (Prod.mk.inj (Option.some.inj h)).1.symm
  · obtain ⟨_, -, h⟩ := Option.map_eq_some_iff.mp h
    exact Or.inl (Prod.mk.inj h).1.symm

theorem isRun_of_read {c : Char} {s rest : Text} {r : ClassRun} (hc : isMarkupSpace c = true)
    (h : read (c :: s) = .run r rest) : r.IsRun := by
  unfold read at h
  split at h
  · next name quote t hname =>
    split at h
    · next hquote =>
      split at h
      · next value u hvalue =>
        obtain ⟨rfl, rfl⟩ := Start.run.inj h
        refine ⟨?_, List.all_takeWhile, name_of_readName hname, ?_,
          (cut?_singleton_iff.mp hvalue).2⟩
        · rw [List.takeWhile_cons_of_pos hc]
          exact List.cons_ne_nil _ _
        · simpa using hquote
      · cases h
    · cases h
  · cases h

theorem isRun_of_mem_parts {s : Text} {r : ClassRun} (h : .run r ∈ parts s) : r.IsRun := by
  fun_induction parts s with
  | case1 => cases h
  | case2 c s _ _ ih =>
    rcases List.mem_cons.mp h with h | h
    · cases h
    · exact ih h
  | case3 c s _ _ => simp at h
  | case4 c s hc r' rest hread ih =>
    rcases List.mem_cons.mp h with h | h
    · obtain rfl := Part.run.inj h
      exact isRun_of_read hc hread
    · exact ih h
  | case5 c s _ ih =>
    rcases List.mem_cons.mp h with h | h
    · cases h
    · exact ih h

/-- A part's own text stands in the text. -/
theorem source_infix_of_mem_parts {s : Text} {p : Part} (h : p ∈ parts s) : p.source <:+: s := by
  obtain ⟨front, back, hs⟩ := List.append_of_mem h
  have hsource := parts_source s
  rw [hs, List.flatMap_append, List.flatMap_cons, ← List.append_assoc] at hsource
  exact ⟨_, _, hsource⟩

/-! ## Reading part by part -/

theorem parts_cons_of_literal {c : Char} {s : Text}
    (h : isMarkupSpace c = true → read (c :: s) = .other) :
    parts (c :: s) = .literal c :: parts s := by
  by_cases hc : isMarkupSpace c = true
  · rw [parts, if_pos hc]
    split
    · rfl
    · next hread => rw [h hc] at hread; cases hread
    · next hread => rw [h hc] at hread; cases hread
  · rw [parts, if_neg hc]

theorem parts_cons_of_run {c : Char} {s rest : Text} {r : ClassRun} (hc : isMarkupSpace c = true)
    (h : read (c :: s) = .run r rest) : parts (c :: s) = .run r :: parts rest := by
  rw [parts, if_pos hc]
  split
  · next hread => rw [h] at hread; cases hread
  · next hread => rw [h] at hread; cases hread
  · next hread =>
    rw [h] at hread
    obtain ⟨rfl, rfl⟩ := Start.run.inj hread
    rfl

/-- A text is literal if no class run begins in it. -/
theorem parts_append_of_literal {w rest : Text}
    (h : ∀ c w', c :: w' <:+ w → isMarkupSpace c = true → read (c :: (w' ++ rest)) = .other) :
    parts (w ++ rest) = w.map .literal ++ parts rest := by
  induction w with
  | nil => rfl
  | cons c w ih =>
    rw [List.cons_append, parts_cons_of_literal (h c w (List.suffix_refl _)),
      ih fun d w' hw' => h d w' (hw'.trans (List.suffix_cons c w))]
    rfl

theorem parts_append_of_no_space {w rest : Text} (h : ∀ c ∈ w, isMarkupSpace c = false) :
    parts (w ++ rest) = w.map .literal ++ parts rest := by
  refine parts_append_of_literal fun c w' hw' hc => ?_
  rw [h c (hw'.subset List.mem_cons_self)] at hc
  cases hc

theorem flatMap_cleaned_literal (s : Text) : (s.map Part.literal).flatMap Part.cleaned = s := by
  induction s with
  | nil => rfl
  | cons c s ih =>
    rw [List.map_cons, List.flatMap_cons, ih]
    rfl

/-- A text that begins with no name of a class attribute. -/
theorem readName_eq_none {s : Text} (hclass : ¬ "class=".toList <+: s)
    (hcss : ¬ "css-class=".toList <+: s) : readName s = none := by
  have hafter {p : Text} (hp : ¬ p <+: s) : after? p s = none := by
    refine Option.eq_none_iff_forall_ne_some.mpr fun rest hrest => hp ?_
    rw [after?_eq_some_iff.mp hrest]
    exact List.prefix_append p rest
  rw [readName, hafter hclass, hafter hcss]
  rfl

/-- A text without `class=` has no name of a class attribute at its start, and none that goes on
behind it. -/
theorem readName_append_eq_none {s t : Text} {d : Char} (hd : d ∉ "css-class=".toList)
    (h : ¬ "class=".toList <:+: s) : readName (s ++ d :: t) = none := by
  have hpart : "class=".toList <:+: "css-class=".toList := ⟨"css-".toList, [], rfl⟩
  refine readName_eq_none (fun hclass => h ?_) (fun hcss => h ?_)
  · exact (prefix_of_not_mem (fun hm => hd (hpart.subset hm)) hclass).isInfix
  · exact hpart.trans (prefix_of_not_mem hd hcss).isInfix

theorem read_eq_other {s : Text} (h : readName (s.dropWhile isMarkupSpace) = none) :
    read s = .other := by
  rw [read, h]

/-- Spaces are literal where no name of a class attribute follows. -/
theorem parts_append_spaces {space rest : Text} (hspace : space.all isMarkupSpace = true)
    (hstop : ∀ c ∈ rest.head?, isMarkupSpace c = false) (hname : readName rest = none) :
    parts (space ++ rest) = space.map .literal ++ parts rest := by
  refine parts_append_of_literal fun c w' hw' _ => read_eq_other ?_
  have hall : (c :: w').all isMarkupSpace = true :=
    List.all_eq_true.mpr fun d hd => List.all_eq_true.mp hspace d (hw'.subset hd)
  rw [← List.cons_append, dropWhile_append_eq hall hstop]
  exact hname

theorem not_isMarkupSpace_of_mem_name {c : Char} (h : c ∈ "css-class=".toList) :
    isMarkupSpace c = false := by
  have hall : "css-class=".toList.all (!isMarkupSpace ·) = true := by decide
  simpa using List.all_eq_true.mp hall c h

/-- A run begins with a space. -/
theorem IsRun.exists_source {r : ClassRun} (h : r.IsRun) :
    ∃ c u, isMarkupSpace c = true ∧ r.source = c :: u := by
  obtain ⟨c, space, hspace⟩ := List.exists_cons_of_ne_nil h.space_ne_nil
  refine ⟨c, space ++ r.name ++ r.quote :: r.value ++ [r.quote], ?_, ?_⟩
  · exact List.all_eq_true.mp h.space c (by rw [hspace]; exact List.mem_cons_self)
  · simp [source, withValue, hspace]

/-- **A run is read where it stands.** -/
theorem IsRun.read_source {r : ClassRun} (h : r.IsRun) (rest : Text) :
    read (r.source ++ rest) = .run r rest := by
  have hsource : r.source ++ rest
      = r.space ++ (r.name ++ r.quote :: (r.value ++ r.quote :: rest)) := by
    simp [source, withValue]
  have hname (t : Text) : readName (r.name ++ t) = some (r.name, t) ∧
      ∀ c ∈ (r.name ++ t).head?, isMarkupSpace c = false := by
    rcases h.name with hn | hn
    · rw [hn]
      exact ⟨rfl, by simp [isMarkupSpace]⟩
    · rw [hn]
      exact ⟨rfl, by simp [isMarkupSpace]⟩
  have hcut : cut? [r.quote] (r.value ++ r.quote :: rest) = some (r.value, rest) :=
    cut?_singleton_iff.mpr ⟨rfl, h.value⟩
  have hquote : (r.quote == '"' || r.quote == '\'') = true := by simpa using h.quote
  rw [read, hsource, dropWhile_append_eq h.space (hname _).2, (hname _).1]
  simp only [hquote, hcut, takeWhile_append_eq h.space (hname _).2, if_true]

theorem IsRun.parts_source_append {r : ClassRun} (h : r.IsRun) (rest : Text) :
    parts (r.source ++ rest) = .run r :: parts rest := by
  obtain ⟨c, u, hc, hsource⟩ := h.exists_source
  have hread := h.read_source rest
  rw [hsource, List.cons_append] at hread ⊢
  exact parts_cons_of_run hc hread

end Mailout.ClassRun
