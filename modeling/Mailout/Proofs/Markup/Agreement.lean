import Mailout.Proofs.Markup.QuotedRun
import Mathlib.Data.List.Find
import Mathlib.Data.List.Flatten
import Mathlib.Data.List.Nodup

/-!
# The same tag in markup and in a comment

A tag is cleaned by its attributes in markup and as mere text in a comment. What is left of it is
the same, but for byte order marks: a reader of attributes does not count a mark that a name or a
value begins with, a reader of text does. Where a mark stands in front of a class list that is to be
edited, the two always differ (`agrees_iff`): by the mark itself, which is left in the text of the
comment. They may also differ where two names are the same but for a mark: then only the first of
the two is edited in markup.
-/

namespace Mailout

open Text

/-! ## Class lists behind a mark -/

namespace ClassList

theorem left_of_none {value : Text} (h : clean? value = none) : left value = some value := by
  rw [left, h]

theorem left_of_some {value kept : Text} (h : clean? value = some kept) :
    left value = if kept = [] then none else some kept := by
  rw [left, h]
  cases kept <;> rfl

/-- A class list that is to be edited is not left as it is. -/
theorem left_ne_self {value : Text} (h : clean? value ≠ none) (front : Text) :
    left value ≠ some (front ++ value) := by
  obtain ⟨kept, hclean⟩ := Option.ne_none_iff_exists'.mp h
  rw [left_of_some hclean]
  split
  · simp
  · next hne =>
    intro hsame
    have hlt := weight_clean?_lt hclean hne
    have hle := weight_le_of_sublist (List.sublist_append_right front value)
    rw [Option.some.inj hsame] at hlt
    omega

/-- The number of byte order marks. -/
def marks (s : Text) : Nat := s.countP (· == '\uFEFF')

theorem marks_joinWords (ws : List Text) : marks (joinWords ws) = marks ws.flatten :=
  countP_joinWords (by decide) ws

theorem marks_cons (s : Text) : marks ('\uFEFF' :: s) = marks s + 1 := List.countP_cons_of_pos rfl

/-- A class list has all marks of its authored tokens. -/
theorem marks_authored_le (value : Text) : marks (joinWords (authored value)) ≤ marks value := by
  have hwords : (authored value).flatten.Sublist (words value).flatten :=
    List.Sublist.flatten List.filter_sublist
  rw [flatten_words] at hwords
  rw [marks_joinWords]
  exact (hwords.trans List.filter_sublist).countP_le

/-- **A mark in front of a class list stays in the text of a comment**, with what is authored in
it. -/
theorem exists_left_mark (value : Text) : ∃ v, left ('\uFEFF' :: value) = some v ∧
    marks (joinWords (authored value)) < marks v := by
  obtain ⟨w, ws, hwords, hmarked⟩ := @exists_words_cons '\uFEFF' (by decide) value
  have hauthored : authored ('\uFEFF' :: value)
      = ('\uFEFF' :: w) :: ws.filter (!isEditorToken ·) := by
    rw [authored, hmarked, List.filter_cons_of_pos rfl]
  cases hclean : clean? ('\uFEFF' :: value) with
  | none =>
    refine ⟨_, left_of_none hclean, ?_⟩
    rw [marks_cons]
    exact Nat.lt_succ_of_le (marks_authored_le value)
  | some kept =>
    obtain ⟨rfl, hnil⟩ := clean?_eq_some hclean
    refine ⟨joinWords (authored ('\uFEFF' :: value)), ?_, ?_⟩
    · have hne : joinWords (authored ('\uFEFF' :: value)) ≠ [] := by
        rw [Ne, hnil, hauthored]
        exact List.cons_ne_nil _ _
      rw [left_of_some hclean, if_neg hne]
    · -- the first word is authored with the mark, and may not be without it
      have hsub : (authored value).Sublist (w :: ws.filter (!isEditorToken ·)) := by
        rw [authored, hwords]
        split
        · exact List.sublist_cons_self w _
        · rw [List.filter_cons]
          split
          · exact List.Sublist.refl _
          · exact List.sublist_cons_self w _
      have hle : marks (authored value).flatten
          ≤ marks (w :: ws.filter (!isEditorToken ·)).flatten :=
        (List.Sublist.flatten hsub).countP_le
      rw [marks_joinWords, marks_joinWords, hauthored]
      show _ < marks ('\uFEFF' :: (w :: ws.filter (!isEditorToken ·)).flatten)
      rw [marks_cons]
      exact Nat.lt_succ_of_le hle

/-- Behind a mark a class list that is to be edited is left as something else. -/
theorem left_mark_ne {value : Text} (h : clean? value ≠ none) :
    left ('\uFEFF' :: value) ≠ left value := by
  obtain ⟨v, hv, hlt⟩ := exists_left_mark value
  obtain ⟨kept, hclean⟩ := Option.ne_none_iff_exists'.mp h
  rw [hv, left_of_some hclean]
  split
  · simp
  · intro hsame
    rw [Option.some.inj hsame, (clean?_eq_some hclean).1] at hlt
    exact absurd hlt (Nat.lt_irrefl _)

/-- Behind a mark a clean class list is clean. -/
theorem clean?_mark_of_none {value : Text} (h : clean? value = none) :
    clean? ('\uFEFF' :: value) = none := by
  obtain ⟨w, ws, hwords, hmarked⟩ := @exists_words_cons '\uFEFF' (by decide) value
  rw [clean?_eq_none_iff] at h ⊢
  refine ⟨by simp [hmarked], fun v hv => ?_⟩
  rw [hmarked] at hv
  rcases List.mem_cons.mp hv with rfl | hv
  · rfl
  · refine h.2 v ?_
    rw [hwords]
    split
    · exact hv
    · exact List.mem_cons_of_mem w hv

end ClassList

/-! ## Attributes -/

theorem Text.dropMark_cases (s : Text) : dropMark s = s ∨ s = '\uFEFF' :: dropMark s := by
  unfold dropMark
  split
  · exact .inr rfl
  · exact .inl rfl

/-- A value without quotes is written as it is. -/
theorem Attribute.quoteValue_eq_self {value : Text} (h : '"' ∉ value) : quoteValue value = value := by
  induction value with
  | nil => rfl
  | cons c value ih =>
    rw [List.mem_cons, not_or] at h
    have hvalue := ih h.2
    unfold quoteValue at hvalue ⊢
    rw [List.flatMap_cons, hvalue]
    split
    · exact absurd rfl h.1
    · rfl

/-- What is left of the first attribute of a name, by what is left of its class list. -/
theorem Attribute.leftOfFirst_eq (a : Attribute) :
    leftOfFirst a = if IsAuthored a.value then some a
      else (ClassList.left (dropMark a.value)).map a.withValue := by
  unfold leftOfFirst
  by_cases hauthored : IsAuthored a.value
  · rw [if_pos hauthored, if_pos hauthored]
  · rw [if_neg hauthored, if_neg hauthored]
    obtain ⟨kept, hclean⟩ := Option.ne_none_iff_exists'.mp (mt isAuthored_iff.mpr hauthored)
    obtain ⟨rfl, hnil⟩ := ClassList.clean?_eq_some hclean
    rw [ClassList.left_of_some hclean]
    split
    · next hkept => rw [if_pos (hnil.mpr hkept), Option.map_none]
    · next hne => rw [if_neg (mt hnil.mp hne), Option.map_some]

namespace QuotedAttribute

/-- The attribute holds a class list, and this is to be edited, as attributes are looked up and
read. -/
def IsEdited (a : QuotedAttribute) : Prop := dropMark a.name ∈ annotatedNames ∧ ¬ IsAuthored a.value

instance (a : QuotedAttribute) : Decidable a.IsEdited :=
  inferInstanceAs (Decidable (dropMark a.name ∈ annotatedNames ∧ ¬ IsAuthored a.value))

/-- What is left of the attribute's value in markup, if it is the first of its name. -/
def leftInMarkup (a : QuotedAttribute) : Option Text :=
  if a.IsEdited then ClassList.left (dropMark a.value) else some a.value

/-- A name in small letters is the name by which it is looked up, a mark apart. -/
theorem IsPlain.lookupName_eq {a : QuotedAttribute} (h : a.IsPlain) :
    a.toAttribute.lookupName = dropMark a.name := by
  show lowerAscii (dropMark a.name) = dropMark a.name
  rcases dropMark_cases a.name with hname | hname
  · rw [hname]
    exact h.lower
  · have hlower := h.lower
    rw [hname] at hlower
    exact (List.cons.inj hlower).2

theorem IsPlain.isAnnotated_iff {a : QuotedAttribute} (h : a.IsPlain) :
    a.toAttribute.isAnnotated = true ↔ dropMark a.name ∈ annotatedNames := by
  have hnamed (n : Text) (hn : lowerAscii n = n) :
      a.toAttribute.isNamed n = true ↔ dropMark a.name = n := by
    rw [Attribute.isNamed, sameLetters_iff, hn]
    show a.toAttribute.lookupName = n ↔ _
    rw [h.lookupName_eq]
  simp only [Attribute.isAnnotated, annotatedNames, List.any_cons, List.any_nil, Bool.or_false,
    Bool.or_eq_true, List.mem_cons, List.not_mem_nil, or_false]
  exact or_congr (hnamed _ (by decide)) (hnamed _ (by decide))

/-- What is left of the attribute where it is the first of its name. -/
theorem IsPlain.leftOfFirst_eq {a : QuotedAttribute} (h : a.IsPlain) :
    (if a.toAttribute.isAnnotated then Attribute.leftOfFirst a.toAttribute
      else some a.toAttribute).map (fun b => (b.name, b.value))
        = a.leftInMarkup.map fun v => (a.name, v) := by
  rw [Attribute.leftOfFirst_eq]
  by_cases hname : dropMark a.name ∈ annotatedNames
  · rw [if_pos (h.isAnnotated_iff.mpr hname)]
    by_cases hauthored : IsAuthored a.value
    · have hnot : ¬ a.IsEdited := fun hedited => hedited.2 hauthored
      have hauthored' : IsAuthored a.toAttribute.value := hauthored
      rw [leftInMarkup, if_neg hnot, if_pos hauthored']
      rfl
    · have hedited : a.IsEdited := ⟨hname, hauthored⟩
      have hauthored' : ¬ IsAuthored a.toAttribute.value := hauthored
      rw [leftInMarkup, if_pos hedited, if_neg hauthored', Option.map_map]
      refine Option.map_congr fun v hv => ?_
      have hquote : '"' ∉ v := fun hm =>
        h.value.1 ((dropMark_suffix a.value).mem (ClassList.mem_of_mem_left hv hm (by decide)))
      show (a.name, Attribute.quoteValue v) = (a.name, v)
      rw [Attribute.quoteValue_eq_self hquote]
  · have hnot : ¬ a.IsEdited := fun hedited => hname hedited.1
    rw [if_neg (mt h.isAnnotated_iff.mp hname), leftInMarkup, if_neg hnot]
    rfl

/-- A name that is annotated as it stands has no mark in front. -/
theorem dropMark_name {a : QuotedAttribute} (h : a.name ∈ annotatedNames) :
    dropMark a.name = a.name := by
  simp only [annotatedNames, List.mem_cons, List.not_mem_nil, or_false] at h
  rcases h with hname | hname
  · rw [hname]
    rfl
  · rw [hname]
    rfl

/-- **The same is left of the first attribute of a name in markup and in a comment** if and only if
no mark stands in front of a class list that is to be edited, or of its name. -/
theorem left_eq_iff (a : QuotedAttribute) : a.leftInMarkup = a.leftInText ↔
    (a.IsEdited → dropMark a.name = a.name ∧ dropMark a.value = a.value) := by
  unfold leftInMarkup leftInText
  by_cases hedited : a.IsEdited
  · have hclean : ClassList.clean? (dropMark a.value) ≠ none := mt isAuthored_iff.mpr hedited.2
    rw [if_pos hedited]
    constructor
    · intro hleft _
      by_cases hname : a.name ∈ annotatedNames
      · rw [if_pos hname] at hleft
        refine ⟨dropMark_name hname, ?_⟩
        rcases dropMark_cases a.value with hvalue | hvalue
        · exact hvalue
        · rw [hvalue] at hleft
          exact absurd hleft.symm (ClassList.left_mark_ne hclean)
      · rw [if_neg hname] at hleft
        obtain ⟨front, hvalue⟩ := dropMark_suffix a.value
        exact absurd (hleft.trans (congrArg some hvalue.symm)) (ClassList.left_ne_self hclean front)
    · intro hmarks
      obtain ⟨hname, hvalue⟩ := hmarks hedited
      rw [if_pos (hname ▸ hedited.1), hvalue]
  · rw [if_neg hedited]
    refine iff_of_true ?_ fun h => absurd h hedited
    split
    · next hname =>
      have hauthored : IsAuthored a.value := by
        by_contra hauthored
        exact hedited ⟨(dropMark_name hname).symm ▸ hname, hauthored⟩
      have hclean := isAuthored_iff.mp hauthored
      refine (ClassList.left_of_none ?_).symm
      rcases dropMark_cases a.value with hvalue | hvalue
      · rwa [hvalue] at hclean
      · rw [hvalue]
        exact ClassList.clean?_mark_of_none hclean
    · rfl

end QuotedAttribute

/-! ## Tags -/

/-- Lists of entries with different keys are the same entry by entry. -/
theorem filterMap_entries_eq_iff {α β : Type} {key : α → Text} {f g : α → Option β} {l : List α}
    (hkeys : (l.map key).Nodup) :
    l.filterMap (fun a => (f a).map fun v => (key a, v))
        = l.filterMap (fun a => (g a).map fun v => (key a, v)) ↔ ∀ a ∈ l, f a = g a := by
  have hmem (f : α → Option β) (a : α) (ha : a ∈ l) (v : β) :
      (key a, v) ∈ l.filterMap (fun a => (f a).map fun v => (key a, v)) ↔ f a = some v := by
    rw [List.mem_filterMap]
    constructor
    · rintro ⟨b, hb, hbv⟩
      obtain ⟨w, hw, hentry⟩ := Option.map_eq_some_iff.mp hbv
      obtain ⟨hkey, rfl⟩ := Prod.mk.inj hentry
      rw [← List.inj_on_of_nodup_map hkeys hb ha hkey, hw]
    · intro hv
      exact ⟨a, ha, by rw [hv]; rfl⟩
  constructor
  · intro hlists a ha
    refine Option.ext fun v => ?_
    rw [← hmem f a ha, hlists, hmem g a ha]
  · intro hsame
    exact List.filterMap_congr fun a ha => by rw [hsame a ha]

namespace QuotedTag

open Markup Attribute

/-- The first attribute of the tag that is looked up by the name of `a`. -/
def first (t : QuotedTag) (a : QuotedAttribute) : QuotedAttribute :=
  (t.attributes.find? fun b => dropMark b.name = dropMark a.name).getD a

/-- The attribute goes with the first one of its name, if it is not that one itself: this has no
authored token. -/
def GoesWithFirst (t : QuotedTag) (a : QuotedAttribute) : Prop :=
  dropMark a.name ∈ annotatedNames ∧ ClassList.authored (dropMark (t.first a).value) = []

instance (t : QuotedTag) (a : QuotedAttribute) : Decidable (t.GoesWithFirst a) :=
  inferInstanceAs (Decidable (dropMark a.name ∈ annotatedNames ∧ _ = []))

/-- What is left of the value of one of the tag's attributes in markup. -/
def leftInMarkup (t : QuotedTag) (a : QuotedAttribute) : Option Text :=
  if (t.first a).name = a.name then a.leftInMarkup
  else if t.GoesWithFirst a then none
  else some a.value

/-- The attribute comes out the same in markup and in a comment. If it is the first of its name, no
mark stands in front of a class list that is to be edited or of its name. Behind another one it
stays as it is in markup: the other one has an authored token, so that it does not take this one
with it, and there is nothing to edit where a comment shows a class list. -/
def AgreesAt (t : QuotedTag) (a : QuotedAttribute) : Prop :=
  if (t.first a).name = a.name then
    a.IsEdited → dropMark a.name = a.name ∧ dropMark a.value = a.value
  else
    dropMark a.name ∈ annotatedNames → ClassList.authored (dropMark (t.first a).value) ≠ [] ∧
      (a.name ∈ annotatedNames → ClassList.clean? a.value = none)

instance (t : QuotedTag) (a : QuotedAttribute) : Decidable (t.AgreesAt a) :=
  inferInstanceAs (Decidable (if (t.first a).name = a.name then _ else _))

variable {t : QuotedTag} {a : QuotedAttribute}

/-- An attribute of the tag has a first one of its name, which is the first for itself too. -/
theorem first_spec (ha : a ∈ t.attributes) :
    t.first a ∈ t.attributes ∧ dropMark (t.first a).name = dropMark a.name ∧
      t.first (t.first a) = t.first a := by
  cases hfind : t.attributes.find? fun b => dropMark b.name = dropMark a.name with
  | none =>
    have hself := List.find?_eq_none.mp hfind a ha
    simp at hself
  | some b =>
    have hfirst : t.first a = b := by rw [first, hfind]; rfl
    have hname : dropMark b.name = dropMark a.name := by simpa using List.find?_some hfind
    rw [hfirst]
    refine ⟨List.mem_of_find?_eq_some hfind, hname, ?_⟩
    rw [first, hname, hfind]
    rfl

theorem IsPlain.firstOf_eq (h : t.IsPlain) (ha : a ∈ t.attributes) :
    firstOf (t.attributes.map QuotedAttribute.toAttribute) a.toAttribute
      = (t.first a).toAttribute := by
  have hlookup : ∀ b ∈ t.attributes,
      decide (b.toAttribute.lookupName = a.toAttribute.lookupName)
        = decide (dropMark b.name = dropMark a.name) := by
    intro b hb
    rw [(h.attributes b hb).lookupName_eq, (h.attributes a ha).lookupName_eq]
  rw [firstOf, List.find?_map, first, ← List.find?_congr hlookup, Function.comp_def]
  exact Option.getD_map QuotedAttribute.toAttribute a _

/-- What is left of an attribute in markup, by its name and its value. -/
theorem IsPlain.leftAmong_eq (h : t.IsPlain) (ha : a ∈ t.attributes) :
    (leftAmong (t.attributes.map QuotedAttribute.toAttribute) a.toAttribute).map
        (fun b => (b.name, b.value)) = (t.leftInMarkup a).map fun v => (a.name, v) := by
  have hplain := h.attributes a ha
  rw [leftAmong, h.firstOf_eq ha, leftInMarkup]
  by_cases hfirst : (t.first a).name = a.name
  · have hname : (t.first a).toAttribute.name = a.toAttribute.name := hfirst
    rw [if_pos hfirst, if_pos hname, ← hplain.leftOfFirst_eq]
  · have hname : ¬ (t.first a).toAttribute.name = a.toAttribute.name := hfirst
    rw [if_neg hfirst, if_neg hname]
    by_cases hannotated : dropMark a.name ∈ annotatedNames
    · rw [if_pos (hplain.isAnnotated_iff.mpr hannotated)]
      by_cases hnil : ClassList.authored (dropMark (t.first a).value) = []
      · have hnil' : ClassList.authored (dropMark (t.first a).toAttribute.value) = [] := hnil
        rw [if_pos hnil', if_pos ⟨hannotated, hnil⟩]
        rfl
      · have hnil' : ¬ ClassList.authored (dropMark (t.first a).toAttribute.value) = [] := hnil
        rw [if_neg hnil', if_neg fun hgoes => hnil hgoes.2]
        rfl
    · rw [if_neg (mt hplain.isAnnotated_iff.mp hannotated), if_neg fun hgoes => hannotated hgoes.1]
      rfl

theorem left_eq_of_agreesAt (h : t.AgreesAt a) : t.leftInMarkup a = a.leftInText := by
  unfold AgreesAt at h
  unfold leftInMarkup
  split at h
  · next hfirst => rw [if_pos hfirst, a.left_eq_iff.mpr h]
  · next hfirst =>
    rw [if_neg hfirst, if_neg fun hgoes => (h hgoes.1).1 hgoes.2]
    unfold QuotedAttribute.leftInText
    split
    · next hname =>
      have hannotated : dropMark a.name ∈ annotatedNames := by
        rwa [QuotedAttribute.dropMark_name hname]
      rw [ClassList.left_of_none ((h hannotated).2 hname)]
    · rfl

/-- Where all attributes come out the same, none goes with the first one of its name: this one would
have no mark in front of its name, so the other one would, and would stay in a comment. -/
theorem authored_ne_nil_of_left_eq (h : ∀ b ∈ t.attributes, t.leftInMarkup b = b.leftInText)
    (ha : a ∈ t.attributes) (hfirst : (t.first a).name ≠ a.name)
    (hannotated : dropMark a.name ∈ annotatedNames) :
    ClassList.authored (dropMark (t.first a).value) ≠ [] := by
  intro hnil
  obtain ⟨hmem, hname, hself⟩ := first_spec ha
  have hedited : (t.first a).IsEdited := by
    refine ⟨hname ▸ hannotated, fun hauthored => ?_⟩
    exact ClassList.authored_ne_nil (isAuthored_iff.mp hauthored) hnil
  have hleft := h (t.first a) hmem
  rw [leftInMarkup, if_pos (by rw [hself])] at hleft
  have hunmarked := ((t.first a).left_eq_iff.mp hleft hedited).1
  have hmarked : a.name ∉ annotatedNames := by
    intro hin
    refine hfirst ?_
    rw [← hunmarked, hname, QuotedAttribute.dropMark_name hin]
  have hgoes := h a ha
  rw [leftInMarkup, if_neg hfirst, if_pos ⟨hannotated, hnil⟩, QuotedAttribute.leftInText,
    if_neg hmarked] at hgoes
  cases hgoes

theorem forall_left_eq_iff :
    (∀ a ∈ t.attributes, t.leftInMarkup a = a.leftInText) ↔ ∀ a ∈ t.attributes, t.AgreesAt a := by
  refine ⟨fun h a ha => ?_, fun h a ha => left_eq_of_agreesAt (h a ha)⟩
  have hleft := h a ha
  unfold AgreesAt
  split
  · next hfirst =>
    rw [leftInMarkup, if_pos hfirst] at hleft
    exact a.left_eq_iff.mp hleft
  · next hfirst =>
    intro hannotated
    have hne := authored_ne_nil_of_left_eq h ha hfirst hannotated
    refine ⟨hne, fun hname => ?_⟩
    rw [leftInMarkup, if_neg hfirst, if_neg fun hgoes => hne hgoes.2, QuotedAttribute.leftInText,
      if_pos hname] at hleft
    by_contra hclean
    exact ClassList.left_ne_self hclean [] hleft.symm

/-- **A tag comes out the same in markup and in a comment**: it has the same name, and the same
attributes if and only if each of them comes out the same (`AgreesAt`). Where no two names are the
same but for a mark, this means that no byte order mark stands in front of a class list that is to
be edited or of its name. -/
theorem agrees_iff (h : t.IsPlain) :
    ∃ o inMarkup inText, strip t.text = .ok o ∧ tagOf? o = some (t.name, inMarkup) ∧
      tagOf? ((ClassRun.clean? t.text).getD t.text) = some (t.name, inText) ∧
      (inMarkup = inText ↔ ∀ a ∈ t.attributes, t.AgreesAt a) := by
  obtain ⟨o, hstrip, hread⟩ := exists_strip_text h.isQuoted h.distinct
  rw [List.map_filterMap, List.filterMap_congr fun a ha => h.leftAmong_eq ha] at hread
  refine ⟨o, _, _, hstrip, hread, h.tagOf?_clean?, ?_⟩
  rw [filterMap_entries_eq_iff h.distinct]
  exact forall_left_eq_iff

/-- A tag with names that end like those of class lists, with class lists of which something and
nothing is left, and with one that is not the first of its name. -/
theorem agrees_iff_cell :
    let t : QuotedTag := ⟨"td".toList,
      [⟨[' '], "css-class".toList, '\'', " editor-a  b editor-c".toList⟩,
        ⟨['\n', '\t'], "xcss-class".toList, '"', "editor-x".toList⟩,
        ⟨[' '], "class".toList, '"', "editor-y".toList⟩,
        ⟨[' '], "data-class".toList, '"', "a > b".toList⟩,
        ⟨[' '], "\uFEFFcss-class".toList, '"', "editor-z".toList⟩], [' '], true⟩
    t.IsPlain ∧ (∀ a ∈ t.attributes, t.AgreesAt a) ∧
      ∃ o entries, strip t.text = .ok o ∧ tagOf? o = some (t.name, entries) ∧
        tagOf? ((ClassRun.clean? t.text).getD t.text) = some (t.name, entries) := by
  intro t
  have hplain : t.IsPlain := by
    refine ⟨⟨'t', ['d'], rfl, rfl, by decide⟩, ?_, by decide +kernel, by decide⟩
    intro a ha
    simp only [t, List.mem_cons, List.not_mem_nil, or_false] at ha
    rcases ha with rfl | rfl | rfl | rfl | rfl
    all_goals exact ⟨by decide, by decide, by decide, by decide, by decide, by decide, by decide,
      by decide +kernel⟩
  have hagrees : ∀ a ∈ t.attributes, t.AgreesAt a := by decide +kernel
  obtain ⟨o, inMarkup, inText, hstrip, hmarkup, htext, hiff⟩ := agrees_iff hplain
  exact ⟨hplain, hagrees, o, inMarkup, hstrip, hmarkup, hiff.mpr hagrees ▸ htext⟩

/-- A mark in front of a class list: in markup the class list is edited, and goes, in a comment it
is not. -/
theorem not_agrees_mark :
    let t : QuotedTag := ⟨['p'], [⟨[' '], "class".toList, '"', "\uFEFFeditor-x".toList⟩], [], false⟩
    t.IsPlain ∧ strip t.text = .ok "<p>".toList ∧ tagOf? "<p>".toList = some (['p'], []) ∧
      ClassRun.clean? t.text = none ∧
      tagOf? t.text = some (['p'], [("class".toList, "\uFEFFeditor-x".toList)]) := by
  intro t
  have hplain : t.IsPlain := by
    refine ⟨⟨'p', [], rfl, rfl, rfl⟩, ?_, by decide, by decide⟩
    intro a ha
    rw [List.mem_singleton.mp ha]
    exact ⟨by decide, by decide, by decide, by decide, by decide, by decide, by decide,
      by decide +kernel⟩
  exact ⟨hplain, by decide +kernel, by decide +kernel, by decide +kernel, by decide +kernel⟩

end QuotedTag

end Mailout
