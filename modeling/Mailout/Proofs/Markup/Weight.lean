import Mailout.Proofs.Markup.ClassRun
import Mailout.Proofs.Markup.Cleaning
import Mailout.Proofs.Markup.TagBody
import Mailout.Proofs.Text.Words

/-!
# What cleaning takes away

An edit can make a text longer: it writes quotes and spaces. What it always takes away is an `l`, as
in `class`, or a `d`, as in `editor-`; `weight` counts these letters. What it writes weighs nothing.

## Main statements

* `ClassList.weight_clean?_lt`, `ClassRun.weight_clean?_lt` — cleaning a class list or the class
  runs of a text takes weight away;
* `weight_cleanAttributes?_lt` — and so does cleaning a tag's attributes.
-/

namespace Mailout

open Text

/-! ## Weight -/

/-- A letter that counts: an `l` in both cases, and `d`. -/
def isHeavy (c : Char) : Bool := c == 'l' || c == 'L' || c == 'd'

/-- The number of letters that count. -/
def weight (s : Text) : Nat := s.countP isHeavy

@[simp] theorem weight_nil : weight [] = 0 := rfl

@[simp] theorem weight_append (s t : Text) : weight (s ++ t) = weight s + weight t :=
  List.countP_append

theorem weight_cons_le (c : Char) (s : Text) : weight s ≤ weight (c :: s) :=
  (List.sublist_cons_self c s).countP_le

theorem weight_cons_of_not {c : Char} (hc : isHeavy c = false) (s : Text) :
    weight (c :: s) = weight s := by
  simp [weight, hc]

theorem weight_le_of_sublist {s t : Text} (h : s.Sublist t) : weight s ≤ weight t := h.countP_le

theorem weight_pos_of_mem {c : Char} {s : Text} (hc : isHeavy c = true) (h : c ∈ s) :
    0 < weight s := List.countP_pos_iff.mpr ⟨c, h, hc⟩

theorem weight_flatMap_le {f g : α → Text} {l : List α}
    (h : ∀ a ∈ l, weight (f a) ≤ weight (g a)) : weight (l.flatMap f) ≤ weight (l.flatMap g) := by
  induction l with
  | nil => exact Nat.le_refl _
  | cons a l ih =>
    simp only [List.mem_cons, forall_eq_or_imp] at h
    simpa using Nat.add_le_add h.1 (ih h.2)

theorem weight_flatMap_lt {f g : α → Text} {l : List α} (h : ∀ a ∈ l, weight (f a) ≤ weight (g a))
    (hlt : ∃ a ∈ l, weight (f a) < weight (g a)) : weight (l.flatMap f) < weight (l.flatMap g) := by
  induction l with
  | nil => simp at hlt
  | cons a l ih =>
    simp only [List.mem_cons, forall_eq_or_imp] at h
    obtain ⟨b, hb, hlt⟩ := hlt
    simp only [List.flatMap_cons, weight_append]
    rcases List.mem_cons.mp hb with rfl | hb
    · have := weight_flatMap_le h.2
      omega
    · have := ih h.2 ⟨b, hb, hlt⟩
      omega

theorem flatMap_filter (f : α → Text) (p : α → Bool) (l : List α) :
    (l.filter p).flatMap f = l.flatMap fun a => if p a then f a else [] := by
  induction l with
  | nil => rfl
  | cons a l ih =>
    cases hp : p a with
    | true => rw [List.filter_cons_of_pos hp, List.flatMap_cons, List.flatMap_cons, ih, if_pos hp]
    | false =>
      rw [List.filter_cons_of_neg (by simp [hp]), List.flatMap_cons, ih, if_neg (by simp [hp])]
      rfl

/-- A list without an element that counts weighs less. -/
theorem weight_flatMap_filter_lt {f : α → Text} {p : α → Bool} {l : List α}
    (h : ∃ a ∈ l, p a = false ∧ 0 < weight (f a)) :
    weight ((l.filter p).flatMap f) < weight (l.flatMap f) := by
  rw [flatMap_filter]
  refine weight_flatMap_lt (fun a _ => ?_) ?_
  · split
    · exact Nat.le_refl _
    · exact Nat.zero_le _
  · obtain ⟨a, ha, hp, hpos⟩ := h
    exact ⟨a, ha, by simpa [hp] using hpos⟩

/-! ## Class lists -/

theorem weight_filter_blank (s : Text) : weight (s.filter (!isBlank ·)) = weight s := by
  induction s with
  | nil => rfl
  | cons c s ih =>
    cases hc : isBlank c with
    | false =>
      rw [List.filter_cons_of_pos (by simp [hc])]
      simp only [weight, List.countP_cons] at ih ⊢
      rw [ih]
    | true =>
      have hheavy : isHeavy c = false := by
        refine Bool.eq_false_iff.mpr fun h => ?_
        simp only [isHeavy, Bool.or_eq_true, beq_iff_eq] at h
        rcases h with (rfl | rfl) | rfl <;> revert hc <;> decide
      rw [List.filter_cons_of_neg (by simp [hc]), ih, weight_cons_of_not hheavy]

theorem weight_words (s : Text) : weight ((words s).flatMap id) = weight s := by
  rw [List.flatMap_id, flatten_words, weight_filter_blank]

theorem weight_joinWords (ws : List Text) : weight (joinWords ws) = weight (ws.flatMap id) := by
  rw [List.flatMap_id]
  exact countP_joinWords (by decide) ws

theorem weight_pos_of_isEditorToken {w : Text} (h : ClassList.isEditorToken w = true) :
    0 < weight w := by
  obtain ⟨t, rfl⟩ := List.isPrefixOf_iff_prefix.mp h
  exact weight_pos_of_mem (c := 'd') (by decide) (by simp)

/-- **A class list that is cleaned loses weight**, unless nothing is left of it. -/
theorem ClassList.weight_clean?_lt {value kept : Text} (h : ClassList.clean? value = some kept)
    (hne : kept ≠ []) : weight kept < weight value := by
  unfold ClassList.clean? at h
  split at h
  · next hdirty =>
    obtain rfl := Option.some.inj h
    have hwords : (words value).isEmpty = false := by
      refine Bool.eq_false_iff.mpr fun hempty => hne ?_
      rw [authored, List.isEmpty_iff.mp hempty]
      rfl
    rw [hwords, Bool.or_false] at hdirty
    obtain ⟨w, hw, heditor⟩ := List.any_eq_true.mp hdirty
    rw [weight_joinWords, ← weight_words value]
    exact weight_flatMap_filter_lt
      ⟨w, hw, by simp [heditor], weight_pos_of_isEditorToken heditor⟩
  · cases h

/-! ## Attributes -/

theorem weight_quoteValue (value : Text) : weight (Attribute.quoteValue value) = weight value := by
  induction value with
  | nil => rfl
  | cons c value ih =>
    rw [Attribute.quoteValue, List.flatMap_cons, weight_append]
    rw [Attribute.quoteValue] at ih
    rw [ih]
    split
    · rw [weight_cons_of_not (by decide), show weight "&quot;".toList = 0 by decide, Nat.zero_add]
    · rw [← weight_append]
      rfl

/-- An attribute's own text holds its name and its value. -/
theorem Attribute.IsWritten.weight_le {a : Attribute} (h : a.IsWritten) :
    weight a.name + weight a.value ≤ weight a.source := by
  obtain ⟨_, h⟩ := h
  cases h with
  | bare => simp
  | @quoted name gap gap' value _ quote =>
    have := weight_cons_le quote (value ++ [quote])
    have := weight_cons_le '=' (gap' ++ quote :: (value ++ [quote]))
    simp only [weight_append] at *
    omega
  | @unquoted name gap gap' value _ c =>
    have := weight_cons_le '=' (gap' ++ c :: value)
    simp only [weight_append] at *
    omega

theorem Attribute.weight_withValue (a : Attribute) (value : Text) :
    weight (a.withValue value).source = weight a.name + weight value := by
  have hequals : weight ('=' :: '"' :: Attribute.quoteValue value) = weight value := by
    rw [weight_cons_of_not (by decide), weight_cons_of_not (by decide), weight_quoteValue]
  show weight (a.name ++ '=' :: '"' :: Attribute.quoteValue value ++ ['"']) = _
  rw [weight_append, weight_append, hequals]
  rfl

theorem isHeavy_of_toLower {c : Char} (h : c.toLower = 'l') : isHeavy c = true := by
  have h : c.toLower.toNat = 108 := congrArg Char.toNat h
  rw [toNat_toLower] at h
  have hc : c.toNat = 76 ∨ c.toNat = 108 := by split at h <;> omega
  rcases hc with hc | hc
  · obtain rfl : c = 'L' := Char.toNat_inj.mp hc
    rfl
  · obtain rfl : c = 'l' := Char.toNat_inj.mp hc
    rfl

/-- An annotated name has an `l`. -/
theorem Attribute.weight_name_pos {a : Attribute} {n : Text} (hn : n ∈ annotatedNames)
    (h : a.isNamed n = true) : 0 < weight a.name := by
  have hl : 'l' ∈ lowerAscii n := by
    simp only [annotatedNames, List.mem_cons, List.not_mem_nil, or_false] at hn
    rcases hn with rfl | rfl <;> decide
  rw [← sameLetters_iff.mp h] at hl
  obtain ⟨c, hc, hlower⟩ := List.mem_map.mp hl
  exact weight_pos_of_mem (isHeavy_of_toLower hlower) ((dropMark_suffix a.name).mem hc)

open Attribute

theorem weight_cleanAttribute?_lt {n : Text} (hn : n ∈ annotatedNames)
    {attrs attrs' : List Attribute} (hw : ∀ a ∈ attrs, a.IsWritten)
    (h : cleanAttribute? n attrs = some attrs') :
    weight (attrs'.flatMap source) < weight (attrs.flatMap source) := by
  obtain ⟨front, a, back, kept, he, hkept⟩ := cleanAttribute?_cases h
  have hmem : a ∈ attrs := by rw [he.eq]; simp
  have hsource := (hw a hmem).weight_le
  -- the name itself goes, or the first value loses its editor tokens
  rcases hkept with ⟨-, rfl⟩ | ⟨hne, rfl⟩
  · have hpos := weight_name_pos hn he.isNamed
    exact weight_flatMap_filter_lt ⟨a, hmem, by simp [he.isNamed], by omega⟩
  · have hlt := ClassList.weight_clean?_lt he.clean? hne
    have hle := weight_le_of_sublist (dropMark_suffix a.value).sublist
    rw [he.eq]
    simp only [List.flatMap_append, List.flatMap_cons, weight_append, weight_withValue]
    omega

theorem weight_cleanName_le {n : Text} (hn : n ∈ annotatedNames) {attrs : List Attribute}
    (hw : ∀ a ∈ attrs, a.IsWritten) :
    weight ((cleanName n attrs).flatMap source) ≤ weight (attrs.flatMap source) := by
  unfold cleanName
  cases h : cleanAttribute? n attrs with
  | none => exact Nat.le_refl _
  | some attrs' => exact Nat.le_of_lt (weight_cleanAttribute?_lt hn hw h)

/-- **Attributes that are cleaned lose weight.** -/
theorem weight_cleanAttributes?_lt {attrs attrs' : List Attribute}
    (hw : ∀ a ∈ attrs, a.IsWritten) (h : cleanAttributes? attrs = some attrs') :
    weight (attrs'.flatMap source) < weight (attrs.flatMap source) := by
  have hclass : "class".toList ∈ annotatedNames := by simp [annotatedNames]
  have hcss : "css-class".toList ∈ annotatedNames := by simp [annotatedNames]
  rw [cleanAttributes?_eq] at h
  split at h
  · next attrs₁ h₁ =>
    obtain rfl := Option.some.inj h
    have hw₁ : ∀ a ∈ attrs₁, a.IsWritten := by
      have := cleanName_induction (fun _ value ha => ha.withValue value) hw "class".toList
      rwa [cleanName, h₁, Option.getD_some] at this
    exact Nat.lt_of_le_of_lt (weight_cleanName_le hcss hw₁)
      (weight_cleanAttribute?_lt hclass hw h₁)
  · exact weight_cleanAttribute?_lt hcss hw h

/-! ## Class runs -/

theorem ClassRun.IsRun.weight_name_pos {r : ClassRun} (h : r.IsRun) : 0 < weight r.name := by
  rcases h.name with hn | hn
  · rw [hn]; decide
  · rw [hn]; decide

theorem ClassRun.weight_cleaned {r : ClassRun} (hname : 0 < weight r.name) :
    (r.isDirty = true → weight r.cleaned < weight r.source) ∧
      (r.isDirty = false → r.cleaned = r.source) := by
  have hsource : weight r.source
      = weight r.space + weight r.name + weight (r.quote :: r.value) + weight [r.quote] := by
    simp only [ClassRun.source, ClassRun.withValue, weight_append]
  unfold ClassRun.isDirty ClassRun.cleaned
  cases hc : ClassList.clean? r.value with
  | none => simp
  | some kept =>
    refine ⟨fun _ => ?_, by simp⟩
    cases kept with
    | nil =>
      show 0 < _
      omega
    | cons c kept =>
      have hlt := ClassList.weight_clean?_lt hc (by simp)
      have hquote (t : Text) : weight (r.quote :: t) = weight [r.quote] + weight t :=
        weight_append [r.quote] t
      show weight (r.withValue (c :: kept)) < _
      simp only [ClassRun.source, ClassRun.withValue, weight_append]
      rw [hquote, hquote r.value]
      omega

/-- **A text whose class runs are cleaned loses weight.** -/
theorem ClassRun.weight_clean?_lt {s t : Text} (h : ClassRun.clean? s = some t) :
    weight t < weight s := by
  unfold ClassRun.clean? at h
  split at h
  · next hdirty =>
    obtain rfl := Option.some.inj h
    have hpart (p : ClassRun.Part) (hp : p ∈ ClassRun.parts s) :
        (p.isDirty = true → weight p.cleaned < weight p.source) ∧
          (p.isDirty = false → p.cleaned = p.source) := by
      cases p with
      | literal c => exact ⟨(by cases ·), fun _ => rfl⟩
      | run r => exact ClassRun.weight_cleaned (ClassRun.isRun_of_mem_parts hp).weight_name_pos
    conv => rhs; rw [← ClassRun.parts_source s]
    refine weight_flatMap_lt (fun p hp => ?_) ?_
    · cases hd : p.isDirty with
      | true => exact Nat.le_of_lt ((hpart p hp).1 hd)
      | false => exact Nat.le_of_eq (congrArg weight ((hpart p hp).2 hd))
    · obtain ⟨p, hp, hd⟩ := List.any_eq_true.mp hdirty
      exact ⟨p, hp, (hpart p hp).1 hd⟩
  · cases h

end Mailout
