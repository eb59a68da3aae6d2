import Mailout.Markup.Strip
import Mailout.Proofs.Text.Letters

/-!
# Cleaning attributes and tokens

What cleaning a start tag's attributes does, seen name by name: the annotated names are cleaned
independently of each other, and every other attribute stays.

## Main statements

* `cleanAttribute?_cases` — the two ways in which a name is cleaned;
* `cleanAttributes?_eq_none_iff`, `cleanAttributes?_getD` — the two names one after the other;
* `others_cleanAttributes?` — the other attributes stay;
* `strip_eq_ok_iff` — markup is stripped token by token.
-/

namespace Mailout

open Text

/-! ## Class lists -/

/-- A class list is clean if it has a token and none of them is an editor token. -/
theorem ClassList.clean?_eq_none_iff {value : Text} :
    ClassList.clean? value = none ↔
      words value ≠ [] ∧ ∀ w ∈ words value, ClassList.isEditorToken w = false := by
  unfold ClassList.clean?
  split
  · next h =>
    simp only [Bool.or_eq_true, List.any_eq_true, List.isEmpty_iff] at h
    simp only [reduceCtorEq, false_iff, not_and]
    intro hne hw
    rcases h with ⟨w, hm, he⟩ | h
    · rw [hw w hm] at he
      cases he
    · exact hne h
  · next h =>
    simp only [Bool.or_eq_true, List.any_eq_true, List.isEmpty_iff, not_or, not_exists, not_and,
      Bool.not_eq_true] at h
    exact ⟨fun _ => ⟨h.2, h.1⟩, fun _ => rfl⟩

/-- The value of a class list that is neither blank nor holds an editor token. -/
def IsAuthored (value : Text) : Prop :=
  words (dropMark value) ≠ [] ∧
    ∀ w ∈ words (dropMark value), ClassList.isEditorToken w = false

instance (value : Text) : Decidable (IsAuthored value) :=
  inferInstanceAs (Decidable (_ ∧ ∀ w ∈ words (dropMark value), _))

/-- An authored value is one that is not to be edited. -/
theorem isAuthored_iff {value : Text} :
    IsAuthored value ↔ ClassList.clean? (dropMark value) = none :=
  ClassList.clean?_eq_none_iff.symm

/-! ## Attributes by name -/

namespace Attribute

/-- Whether the attribute holds a class list. -/
def isAnnotated (a : Attribute) : Bool := annotatedNames.any a.isNamed

/-- The attributes of a name. -/
def named (name : Text) (attrs : List Attribute) : List Attribute := attrs.filter (isNamed name)

/-- The attributes that hold no class list. -/
def others (attrs : List Attribute) : List Attribute := attrs.filter (!isAnnotated ·)

/-- An attribute has one name at most. -/
theorem not_isNamed_of_isNamed {n m : Text} (hnm : sameLetters n m = false) {a : Attribute}
    (h : a.isNamed n = true) : a.isNamed m = false := by
  refine Bool.eq_false_iff.mpr fun hm => ?_
  have hn := sameLetters_iff.mp h
  have hm := sameLetters_iff.mp hm
  rw [sameLetters_iff.mpr (hn.symm.trans hm)] at hnm
  cases hnm

theorem isAnnotated_of_isNamed {n : Text} (hn : n ∈ annotatedNames) {a : Attribute}
    (h : a.isNamed n = true) : a.isAnnotated = true :=
  List.any_eq_true.mpr ⟨n, hn, h⟩

end Attribute

open Attribute

/-! ## Cleaning one name -/

theorem replaceFirst_append {α : Type} {isWanted : α → Bool} (change : α → α) {l₁ l₂ : List α}
    {a : α} (ha : isWanted a = true) (h : ∀ b ∈ l₁, isWanted b = false) :
    replaceFirst isWanted change (l₁ ++ a :: l₂) = l₁ ++ change a :: l₂ := by
  induction l₁ with
  | nil => simp [replaceFirst, ha]
  | cons b l₁ ih =>
    simp only [List.mem_cons, forall_eq_or_imp] at h
    simp [replaceFirst, h.1, ih h.2]

/-- The first attribute of the name, and what its value becomes. -/
structure EditsFirst (name : Text) (attrs front : List Attribute) (a : Attribute)
    (back : List Attribute) (kept : Text) : Prop where
  eq : attrs = front ++ a :: back
  not_front : ∀ b ∈ front, b.isNamed name = false
  isNamed : a.isNamed name = true
  clean? : ClassList.clean? (dropMark a.value) = some kept

/-- **A name is cleaned in two ways**: all its attributes go, or the first one gets a new value. -/
theorem cleanAttribute?_cases {name : Text} {attrs attrs' : List Attribute}
    (h : cleanAttribute? name attrs = some attrs') :
    ∃ front a back kept, EditsFirst name attrs front a back kept ∧
      (kept = [] ∧ attrs' = attrs.filter (!isNamed name ·) ∨
        kept ≠ [] ∧ attrs' = front ++ a.withValue kept :: back) := by
  unfold cleanAttribute? at h
  cases hfind : attrs.find? (isNamed name) with
  | none => simp [hfind] at h
  | some a =>
    obtain ⟨ha, front, back, heq, hfront⟩ := List.find?_eq_some_iff_append.mp hfind
    have hfront : ∀ b ∈ front, b.isNamed name = false := fun b hb => by simpa using hfront b hb
    cases hclean : ClassList.clean? (dropMark a.value) with
    | none => simp [hfind, hclean] at h
    | some kept =>
      refine ⟨front, a, back, kept, ⟨heq, hfront, ha, hclean⟩, ?_⟩
      cases kept with
      | nil =>
        simp only [hfind, hclean, Option.bind_eq_bind, Option.bind_some, Option.some.injEq] at h
        exact Or.inl ⟨rfl, h.symm⟩
      | cons c kept =>
        simp only [hfind, hclean, Option.bind_eq_bind, Option.bind_some, Option.some.injEq] at h
        rw [heq, replaceFirst_append _ ha hfront] at h
        exact Or.inr ⟨by simp, h.symm⟩

theorem cleanAttribute?_eq_none_iff {name : Text} {attrs : List Attribute} :
    cleanAttribute? name attrs = none ↔ ∀ a ∈ (named name attrs).head?, IsAuthored a.value := by
  simp only [isAuthored_iff]
  unfold cleanAttribute? named
  rw [List.head?_filter]
  cases hfind : attrs.find? (isNamed name) with
  | none => simp
  | some a =>
    simp only [Option.bind_eq_bind, Option.bind_some, Option.mem_def, Option.some.injEq,
      forall_eq']
    cases hclean : ClassList.clean? (dropMark a.value) with
    | none => simp
    | some kept => cases kept <;> simp

/-- The attributes after a name is cleaned. -/
def cleanName (name : Text) (attrs : List Attribute) : List Attribute :=
  (cleanAttribute? name attrs).getD attrs

/-- Attributes of another kind stay when a name is cleaned. -/
theorem filter_cleanName {p : Attribute → Bool} {name : Text}
    (hp : ∀ a, a.isNamed name = true → p a = false) (attrs : List Attribute) :
    (cleanName name attrs).filter p = attrs.filter p := by
  unfold cleanName
  cases h : cleanAttribute? name attrs with
  | none => rfl
  | some attrs' =>
    obtain ⟨front, a, back, kept, he, hkept⟩ := cleanAttribute?_cases h
    rcases hkept with ⟨-, rfl⟩ | ⟨-, rfl⟩
    · rw [Option.getD_some, List.filter_filter]
      refine List.filter_congr fun b _ => ?_
      cases hb : b.isNamed name with
      | false => simp
      | true => simp [hp b hb]
    · have ha := hp a he.isNamed
      have ha' := hp (a.withValue kept) he.isNamed
      simp [he.eq, ha, ha']

/-- What is left of the attributes of a name: none of them, or all with the first one cleaned. -/
def remaining (name : Text) (attrs : List Attribute) : List Attribute :=
  match named name attrs with
  | [] => []
  | a :: as =>
    match ClassList.clean? (dropMark a.value) with
    | none => a :: as
    | some [] => []
    | some kept => a.withValue kept :: as

theorem named_append_cons {name : Text} {front back : List Attribute} {a : Attribute}
    (hfront : ∀ b ∈ front, b.isNamed name = false) (ha : a.isNamed name = true) :
    named name (front ++ a :: back) = a :: named name back := by
  rw [named, List.filter_append, List.filter_eq_nil_iff.mpr (by simpa using hfront),
    List.nil_append, List.filter_cons_of_pos ha]
  rfl

/-- **Cleaning a name leaves what remains of its attributes.** -/
theorem named_cleanName (name : Text) (attrs : List Attribute) :
    named name (cleanName name attrs) = remaining name attrs := by
  unfold cleanName
  cases h : cleanAttribute? name attrs with
  | none =>
    rw [cleanAttribute?_eq_none_iff] at h
    rw [Option.getD_none, remaining]
    split
    · next hnil => exact hnil
    · next a as hcons =>
      rw [isAuthored_iff.mp (h a (by rw [hcons]; rfl))]
      exact hcons
  | some attrs' =>
    obtain ⟨front, a, back, kept, he, hkept⟩ := cleanAttribute?_cases h
    rw [Option.getD_some, remaining, he.eq, named_append_cons he.not_front he.isNamed]
    simp only [he.clean?]
    rcases hkept with ⟨rfl, rfl⟩ | ⟨hne, rfl⟩
    · rw [named, List.filter_filter]
      exact List.filter_eq_nil_iff.mpr (by simp)
    · have ha : (a.withValue kept).isNamed name = true := he.isNamed
      rw [named_append_cons he.not_front ha]
      cases kept with
      | nil => exact absurd rfl hne
      | cons c kept => rfl

/-! ## Cleaning both names -/

theorem cleanAttributes?_eq (attrs : List Attribute) :
    cleanAttributes? attrs =
      match cleanAttribute? "class".toList attrs with
      | some attrs' => some (cleanName "css-class".toList attrs')
      | none => cleanAttribute? "css-class".toList attrs := by
  unfold cleanAttributes? annotatedNames
  -- the names are not to be taken apart
  generalize "class".toList = n
  generalize "css-class".toList = m
  simp only [List.foldl_cons, List.foldl_nil, Option.getD_none, cleanName]
  cases cleanAttribute? n attrs with
  | none =>
    rw [Option.getD_none]
    cases cleanAttribute? m attrs <;> rfl
  | some attrs' =>
    simp only [Option.getD_some]
    cases cleanAttribute? m attrs' <;> rfl

theorem not_sameLetters_annotated : sameLetters "class".toList "css-class".toList = false ∧
    sameLetters "css-class".toList "class".toList = false := by
  constructor <;> decide

theorem named_css_cleanName (attrs : List Attribute) :
    named "css-class".toList (cleanName "class".toList attrs) = named "css-class".toList attrs :=
  filter_cleanName (fun _ => not_isNamed_of_isNamed not_sameLetters_annotated.1) attrs

theorem named_cleanName_css (attrs : List Attribute) :
    named "class".toList (cleanName "css-class".toList attrs) = named "class".toList attrs :=
  filter_cleanName (fun _ => not_isNamed_of_isNamed not_sameLetters_annotated.2) attrs

/-- **The attributes after cleaning**: both names cleaned, one after the other. -/
theorem cleanAttributes?_getD (attrs : List Attribute) :
    (cleanAttributes? attrs).getD attrs
      = cleanName "css-class".toList (cleanName "class".toList attrs) := by
  rw [cleanAttributes?_eq]
  unfold cleanName
  generalize "class".toList = n
  generalize "css-class".toList = m
  cases cleanAttribute? n attrs <;> rfl

/-- What remains of the names after both are cleaned. -/
theorem named_cleanAttributes? (attrs : List Attribute) {name : Text} (hn : name ∈ annotatedNames) :
    named name ((cleanAttributes? attrs).getD attrs) = remaining name attrs := by
  rw [cleanAttributes?_getD]
  simp only [annotatedNames, List.mem_cons, List.not_mem_nil, or_false] at hn
  rcases hn with rfl | rfl
  · rw [named_cleanName_css, named_cleanName]
  · rw [named_cleanName, remaining, named_css_cleanName]
    rfl

/-- Attributes are clean if both names are. -/
theorem cleanAttributes?_eq_none_iff {attrs : List Attribute} :
    cleanAttributes? attrs = none ↔ ∀ n ∈ annotatedNames, cleanAttribute? n attrs = none := by
  rw [cleanAttributes?_eq]
  simp only [annotatedNames, List.mem_cons, List.not_mem_nil, or_false, forall_eq_or_imp, forall_eq]
  cases cleanAttribute? "class".toList attrs <;> simp

/-- What holds of all attributes and of an attribute with a new value holds after cleaning. -/
theorem cleanName_induction {P : Attribute → Prop} (hP : ∀ a value, P a → P (a.withValue value))
    {attrs : List Attribute} (h : ∀ a ∈ attrs, P a) (name : Text) :
    ∀ a ∈ cleanName name attrs, P a := by
  unfold cleanName
  cases hc : cleanAttribute? name attrs with
  | none => exact h
  | some attrs' =>
    obtain ⟨front, a, back, kept, he, hkept⟩ := cleanAttribute?_cases hc
    rcases hkept with ⟨-, rfl⟩ | ⟨-, rfl⟩
    · exact fun b hb => h b ((List.mem_filter.mp hb).1)
    · intro b hb
      rw [he.eq] at h
      simp only [List.mem_append, List.mem_cons] at h
      simp only [Option.getD_some, List.mem_append, List.mem_cons] at hb
      rcases hb with hb | rfl | hb
      · exact h b (Or.inl hb)
      · exact hP a kept (h a (Or.inr (Or.inl rfl)))
      · exact h b (Or.inr (Or.inr hb))

theorem cleanAttributes?_induction {P : Attribute → Prop}
    (hP : ∀ a value, P a → P (a.withValue value)) {attrs attrs' : List Attribute}
    (h : ∀ a ∈ attrs, P a) (hc : cleanAttributes? attrs = some attrs') : ∀ a ∈ attrs', P a := by
  have hget := cleanAttributes?_getD attrs
  rw [hc, Option.getD_some] at hget
  rw [hget]
  exact cleanName_induction hP (cleanName_induction hP h _) _

/-- **Cleaning keeps the attributes that hold no class list.** -/
theorem others_cleanAttributes? {attrs attrs' : List Attribute}
    (h : cleanAttributes? attrs = some attrs') : others attrs' = others attrs := by
  have hget := cleanAttributes?_getD attrs
  rw [h, Option.getD_some] at hget
  have hkeep {n : Text} (hn : n ∈ annotatedNames) (a : Attribute) (ha : a.isNamed n = true) :
      (!a.isAnnotated) = false := by
    rw [isAnnotated_of_isNamed hn ha]
    rfl
  rw [hget, others, others, filter_cleanName (hkeep (by simp [annotatedNames])),
    filter_cleanName (hkeep (by simp [annotatedNames]))]

/-! ## Cleaning tokens -/

namespace Token

/-- The token without editor tokens; a token that cannot be written anew stays. -/
def cleaned (t : Token) : Token :=
  match t.strip with
  | .ok t' => t'
  | .error _ => t

/-- Whether the token can be written. -/
def CanStrip (t : Token) : Prop := t.strip = .ok t.cleaned

theorem strip_eq_ok_iff {t t' : Token} : t.strip = .ok t' ↔ t.CanStrip ∧ t' = t.cleaned := by
  unfold CanStrip cleaned
  cases t.strip with
  | ok u => simp [eq_comm]
  | error e => simp

/-- **A token stays, or it is a comment or a start tag that is written anew.** -/
theorem CanStrip.cleaned_cases {t : Token} (h : t.CanStrip) :
    t.cleaned = t ∨
      (∃ source content text, t = .comment source content ∧
        ClassRun.clean? (dropMark content) = some text ∧ t.cleaned = commentOf text) ∨
      ∃ source tag attrs, t = .startTag source tag ∧
        cleanAttributes? tag.attributes = some attrs ∧ t.cleaned = startTagWith tag attrs := by
  cases t with
  | comment source content =>
    unfold Token.CanStrip Token.strip at h
    cases hc : ClassRun.clean? (dropMark content) with
    | none =>
      simp only [hc, Except.ok.injEq] at h
      exact Or.inl h.symm
    | some text =>
      simp only [hc] at h
      split at h
      · cases h
      · exact Or.inr (Or.inl ⟨source, content, text, rfl, hc, (Except.ok.inj h).symm⟩)
  | startTag source tag =>
    unfold Token.CanStrip Token.strip at h
    cases hc : cleanAttributes? tag.attributes with
    | none =>
      simp only [hc, Option.elim_none, Except.ok.injEq] at h
      exact Or.inl h.symm
    | some attrs =>
      simp only [hc, Option.elim_some, Except.ok.injEq] at h
      exact Or.inr (Or.inr ⟨source, tag, attrs, rfl, hc, h.symm⟩)
  | char _ => exact Or.inl rfl
  | scrap _ => exact Or.inl rfl
  | cdata _ => exact Or.inl rfl
  | doctype _ => exact Or.inl rfl
  | endTag _ _ => exact Or.inl rfl

theorem cleaned_comment {source content text : Text}
    (hcan : (Token.comment source content).CanStrip)
    (hclean : ClassRun.clean? (dropMark content) = some text) :
    (Token.comment source content).cleaned = commentOf text := by
  unfold Token.CanStrip Token.strip at hcan
  simp only [hclean] at hcan
  split at hcan
  · cases hcan
  · exact (Except.ok.inj hcan).symm

theorem cleaned_startTag {source : Text} {tag : StartTag} {attrs : List Attribute}
    (hclean : cleanAttributes? tag.attributes = some attrs) :
    (Token.startTag source tag).cleaned = startTagWith tag attrs := by
  simp only [Token.cleaned, Token.strip, hclean, Option.elim_some]

/-- A start tag keeps all but its attributes. -/
theorem cleaned_startTag_eq (source : Text) (tag : StartTag) :
    ∃ source' selfClosing dangling, (Token.startTag source tag).cleaned = .startTag source'
      ⟨tag.name, (cleanAttributes? tag.attributes).getD tag.attributes, selfClosing, dangling⟩ := by
  cases hclean : cleanAttributes? tag.attributes with
  | none =>
    refine ⟨source, tag.body.selfClosing, tag.body.dangling, ?_⟩
    simp only [Token.cleaned, Token.strip, hclean, Option.elim_none]
    rfl
  | some attrs => exact ⟨_, _, _, cleaned_startTag hclean⟩

end Token

/-- The text of the tokens without editor tokens. -/
def written (ts : List Token) : Text := ts.flatMap fun t => t.cleaned.source

theorem mapM_strip_eq_ok_iff {ts ws : List Token} :
    ts.mapM Token.strip = .ok ws ↔ (∀ t ∈ ts, t.CanStrip) ∧ ws = ts.map Token.cleaned := by
  induction ts generalizing ws with
  | nil => simp [pure, Except.pure, eq_comm]
  | cons t ts ih =>
    rw [List.mapM_cons]
    cases ht : t.strip with
    | error e =>
      have hcan : ¬ t.CanStrip := by simp [Token.CanStrip, ht]
      simp [bind, Except.bind, hcan]
    | ok w =>
      obtain ⟨hcan, rfl⟩ := Token.strip_eq_ok_iff.mp ht
      cases hts : ts.mapM Token.strip with
      | error e =>
        have hcan' : ¬ ∀ u ∈ ts, u.CanStrip := by
          intro hall
          rw [ih.mpr ⟨hall, rfl⟩] at hts
          cases hts
        simp only [bind, Except.bind, reduceCtorEq, List.mem_cons, forall_eq_or_imp, false_iff]
        exact fun h => hcan' h.1.2
      | ok us =>
        obtain ⟨hall, rfl⟩ := ih.mp hts
        simp only [bind, Except.bind, pure, Except.pure, Except.ok.injEq, List.mem_cons,
          forall_eq_or_imp, List.map_cons]
        exact ⟨fun h => ⟨⟨hcan, hall⟩, h.symm⟩, fun h => h.2.symm⟩

/-- **Markup is stripped token by token.** -/
theorem strip_eq_ok_iff {markup o : Text} :
    strip markup = .ok o ↔
      (∀ t ∈ Markup.tokens markup, t.CanStrip) ∧ o = written (Markup.tokens markup) := by
  unfold strip
  cases h : (Markup.tokens markup).mapM Token.strip with
  | error e =>
    have hcan : ¬ ∀ t ∈ Markup.tokens markup, t.CanStrip := by
      intro hall
      rw [mapM_strip_eq_ok_iff.mpr ⟨hall, rfl⟩] at h
      cases h
    simp only [bind, Except.bind, reduceCtorEq, false_iff]
    exact fun h => hcan h.1
  | ok ws =>
    obtain ⟨hall, rfl⟩ := mapM_strip_eq_ok_iff.mp h
    simp only [bind, Except.bind, pure, Except.pure, Except.ok.injEq]
    simp only [written, List.flatMap_map]
    exact ⟨fun h => ⟨hall, h.symm⟩, fun h => h.2.symm⟩

end Mailout
