import Mathlib.Algebra.Order.BigOperators.Group.List
import Mathlib.Algebra.Order.Ring.Nat
import Mailout.Proofs.Markup.Idempotence

/-!
# What stripping leaves as it is

Stripped markup is the markup token by token. A token without editor tokens keeps its own text, and
of an edited start tag all but the class lists stays. The two annotated names are cleaned one after
the other, each by its first attribute; here the same is said attribute by attribute, by what stands
in front of it in its tag (`Attribute.left`).

An attribute is looked up by its name, but it is removed by its name too: when nothing is left of
the first one, all others of its name go with it, authored ones as well. Where this happens less is
left of the tag than editing the first one leaves (`eachIn_left_cases`).

## Main statements

* `cleanAttributes?_eq_eachIn` — what cleaning leaves of a tag's attributes, in one pass;
* `text_of_strip` — the text of stripped markup;
* `strip_framed_iff` — when it is the markup with only the first class list of each name edited.
-/

namespace Mailout

open Text Attribute

/-! ## Class lists -/

theorem joinWords_eq_nil_iff {ws : List Text} (h : ∀ w ∈ ws, w ≠ [] ∧ ∀ c ∈ w, isBlank c = false) :
    joinWords ws = [] ↔ ws = [] := by
  constructor
  · intro hjoin
    rw [← words_joinWords h, hjoin]
    rfl
  · rintro rfl
    rfl

namespace ClassList

theorem mem_authored {value w : Text} (h : w ∈ authored value) :
    w ≠ [] ∧ ∀ c ∈ w, isBlank c = false :=
  mem_words (List.mem_filter.mp h).1

/-- A class list that is to be edited is left with its authored tokens, joined by single spaces. -/
theorem clean?_eq_some {value kept : Text} (h : clean? value = some kept) :
    kept = joinWords (authored value) ∧ (kept = [] ↔ authored value = []) := by
  unfold clean? at h
  split at h
  · have hkept := Option.some.inj h
    exact ⟨hkept.symm, by rw [← hkept]; exact joinWords_eq_nil_iff fun _ => mem_authored⟩
  · cases h

/-- An authored class list has authored tokens. -/
theorem authored_ne_nil {value : Text} (h : clean? value = none) : authored value ≠ [] := by
  obtain ⟨hne, hw⟩ := clean?_eq_none_iff.mp h
  obtain ⟨w, ws, hwords⟩ := List.exists_cons_of_ne_nil hne
  refine List.ne_nil_of_mem (a := w) (List.mem_filter.mpr ⟨?_, ?_⟩)
  · rw [hwords]
    exact List.mem_cons_self
  · rw [hw w (by rw [hwords]; exact List.mem_cons_self)]
    rfl

end ClassList

/-! ## What is left of an attribute -/

namespace Attribute

/-- What is left of the first attribute of an annotated name: its authored tokens, joined by single
spaces, or nothing if there are none. The tokens are those of the value without the byte order mark
that it may begin with (`dropMark`), which is how a value is handed out. An authored class list is
left as it is written, with its mark. -/
def leftOfFirst (a : Attribute) : Option Attribute :=
  if IsAuthored a.value then some a
  else
    match ClassList.authored (dropMark a.value) with
    | [] => none
    | kept => some (a.withValue (joinWords kept))

/-- What is left of an attribute with the attributes `front` in front of it in its tag, if only the
first attribute of a name is edited. -/
def keptIn (front : List Attribute) (a : Attribute) : Option Attribute :=
  match annotatedNames.find? a.isNamed with
  | none => some a
  | some n =>
    match front.find? (isNamed n) with
    | none => leftOfFirst a
    | some _ => some a

/-- The attribute goes with the first one of its name, which has no authored token. -/
def goesWithFirst (front : List Attribute) (a : Attribute) : Bool :=
  match annotatedNames.find? a.isNamed with
  | none => false
  | some n =>
    match front.find? (isNamed n) with
    | none => false
    | some first => (ClassList.authored (dropMark first.value)).isEmpty

/-- What is left of an attribute with the attributes `front` in front of it in its tag. -/
def left (front : List Attribute) (a : Attribute) : Option Attribute :=
  if goesWithFirst front a then none else keptIn front a

/-- What is left of attributes that follow `front` in their tag, in order, each by what stands in
front of it. -/
def eachIn (f : List Attribute → Attribute → Option Attribute) (front : List Attribute) :
    List Attribute → List Attribute
  | [] => []
  | a :: back => (f front a).toList ++ eachIn f (front ++ [a]) back

/-- One of the attributes that follow `front` goes with the first one of its name. -/
def losesIn (front : List Attribute) : List Attribute → Bool
  | [] => false
  | a :: back => goesWithFirst front a || losesIn (front ++ [a]) back

/-! ### One name -/

/-- What is left of an attribute named `n` with the attributes `front` in front of it. -/
def leftOfName (n : Text) (front : List Attribute) (a : Attribute) : Option Attribute :=
  match front.find? (isNamed n) with
  | some first => if ClassList.authored (dropMark first.value) = [] then none else some a
  | none => leftOfFirst a

/-- The attributes behind `front` after a name is cleaned in both. -/
def cleanBehind (n : Text) (front attrs : List Attribute) : List Attribute :=
  match front.find? (isNamed n) with
  | some first =>
    if ClassList.authored (dropMark first.value) = [] then attrs.filter (!isNamed n ·) else attrs
  | none => cleanName n attrs

theorem find?_append_singleton (n : Text) (front : List Attribute) (a : Attribute) :
    (front ++ [a]).find? (isNamed n)
      = (front.find? (isNamed n)).or (if a.isNamed n then some a else none) := by
  rw [List.find?_append, List.find?_singleton]

/-- An attribute of another name has no part in it. -/
theorem cleanBehind_append_of_not {n : Text} {a : Attribute} (ha : a.isNamed n = false)
    (front attrs : List Attribute) :
    cleanBehind n (front ++ [a]) attrs = cleanBehind n front attrs := by
  rw [cleanBehind, find?_append_singleton, if_neg (by rw [ha]; exact Bool.false_ne_true),
    Option.or_none, cleanBehind]

theorem cleanName_cons_of_not {n : Text} {a : Attribute} (ha : a.isNamed n = false)
    (back : List Attribute) : cleanName n (a :: back) = a :: cleanName n back := by
  have hfind : (a :: back).find? (isNamed n) = back.find? (isNamed n) := by simp [ha]
  unfold cleanName cleanAttribute?
  rw [hfind]
  cases back.find? (isNamed n) with
  | none => rfl
  | some first =>
    simp only [Option.bind_eq_bind, Option.bind_some]
    cases ClassList.clean? (dropMark first.value) with
    | none => rfl
    | some kept => cases kept <;> simp [ha, replaceFirst]

/-- The first attribute of a name decides. -/
theorem cleanName_cons_of_isNamed {n : Text} {a : Attribute} (ha : a.isNamed n = true)
    (back : List Attribute) :
    cleanName n (a :: back)
      = (leftOfName n [] a).toList ++ cleanBehind n [a] back := by
  have hfind : (a :: back).find? (isNamed n) = some a := by simp [ha]
  have hfront : [a].find? (isNamed n) = some a := by simp [ha]
  unfold cleanName cleanAttribute? leftOfName leftOfFirst cleanBehind
  rw [hfind, hfront]
  simp only [Option.bind_eq_bind, Option.bind_some, List.find?_nil, isAuthored_iff]
  cases hclean : ClassList.clean? (dropMark a.value) with
  | none => simp [ClassList.authored_ne_nil hclean]
  | some kept =>
    obtain ⟨rfl, hnil⟩ := ClassList.clean?_eq_some hclean
    cases hauthored : ClassList.authored (dropMark a.value) with
    | nil => simp [joinWords, ha]
    | cons w ws =>
      rw [hauthored] at hnil
      obtain ⟨c, s, hjoin⟩ :=
        List.exists_cons_of_ne_nil fun hjoin => List.cons_ne_nil w ws (hnil.mp hjoin)
      simp [hjoin, ha, replaceFirst]

theorem cleanBehind_cons (n : Text) (front : List Attribute) (a : Attribute)
    (back : List Attribute) :
    cleanBehind n front (a :: back)
      = (if a.isNamed n then leftOfName n front a else some a).toList
        ++ cleanBehind n (front ++ [a]) back := by
  by_cases ha : a.isNamed n = true
  · rw [if_pos ha]
    cases hfront : front.find? (isNamed n) with
    | none =>
      have happend : cleanBehind n (front ++ [a]) back = cleanBehind n [a] back := by
        simp [cleanBehind, hfront, ha]
      have hleft : leftOfName n front a = leftOfName n [] a := by simp [leftOfName, hfront]
      rw [happend, hleft, ← cleanName_cons_of_isNamed ha, cleanBehind, hfront]
    | some first =>
      rw [cleanBehind, cleanBehind, find?_append_singleton, leftOfName, hfront]
      simp only [Option.some_or]
      split
      · simp [ha]
      · rfl
  · have ha : a.isNamed n = false := Bool.eq_false_iff.mpr ha
    rw [cleanBehind_append_of_not ha, ha]
    unfold cleanBehind
    cases front.find? (isNamed n) with
    | none => exact cleanName_cons_of_not ha back
    | some first =>
      simp only
      split
      · simp [ha]
      · rfl

/-! ### Both names -/

theorem isNamed_of_leftOfName {n m : Text} {front : List Attribute} {a a' : Attribute}
    (h : leftOfName n front a = some a') : a'.isNamed m = a.isNamed m := by
  unfold leftOfName at h
  split at h
  · split at h
    · cases h
    · rw [Option.some.inj h]
  · unfold leftOfFirst at h
    split at h
    · rw [Option.some.inj h]
    · split at h
      · cases h
      · rw [← Option.some.inj h]
        rfl

theorem left_eq (front : List Attribute) (a : Attribute) :
    left front a
      = match annotatedNames.find? a.isNamed with
        | none => some a
        | some n => leftOfName n front a := by
  unfold left goesWithFirst keptIn
  cases annotatedNames.find? a.isNamed with
  | none => rfl
  | some n => cases hfront : front.find? (isNamed n) <;> simp [leftOfName, hfront]

theorem left_of_class {front : List Attribute} {a : Attribute}
    (ha : a.isNamed "class".toList = true) : left front a = leftOfName "class".toList front a := by
  simp only [left_eq, annotatedNames, List.find?_cons, ha]

theorem left_of_not_class {front : List Attribute} {a : Attribute}
    (ha : a.isNamed "class".toList = false) :
    left front a
      = if a.isNamed "css-class".toList then leftOfName "css-class".toList front a else some a := by
  simp only [left_eq, annotatedNames, List.find?_cons, List.find?_nil, ha]
  cases a.isNamed "css-class".toList <;> rfl

/-- **Both names cleaned one after the other** leave of every attribute what it comes to by
itself. -/
theorem cleanBehind_cleanBehind (front attrs : List Attribute) :
    cleanBehind "css-class".toList front (cleanBehind "class".toList front attrs)
      = eachIn left front attrs := by
  induction attrs generalizing front with
  | nil =>
    have hnil (n : Text) : cleanBehind n front [] = [] := by
      unfold cleanBehind
      split
      · split <;> rfl
      · rfl
    rw [hnil, hnil]
    rfl
  | cons a back ih =>
    rw [cleanBehind_cons, eachIn, ← ih]
    by_cases ha : a.isNamed "class".toList = true
    · have hcss : a.isNamed "css-class".toList = false :=
        not_isNamed_of_isNamed not_sameLetters_annotated.1 ha
      rw [if_pos ha, left_of_class ha]
      cases hleft : leftOfName "class".toList front a with
      | none =>
        rw [Option.toList_none, List.nil_append, List.nil_append, cleanBehind_append_of_not hcss]
      | some a' =>
        -- what is left of the attribute has its name, which is not the other one
        have hcss' : a'.isNamed "css-class".toList = false := by
          rw [isNamed_of_leftOfName hleft, hcss]
        rw [Option.toList_some, List.singleton_append, List.singleton_append, cleanBehind_cons,
          hcss', cleanBehind_append_of_not hcss', cleanBehind_append_of_not hcss]
        rfl
    · have ha : a.isNamed "class".toList = false := Bool.eq_false_iff.mpr ha
      rw [ha, left_of_not_class ha]
      exact cleanBehind_cons _ front a _

/-- **What cleaning leaves of a tag's attributes**, in one pass. -/
theorem cleanAttributes?_eq_eachIn (attrs : List Attribute) :
    (cleanAttributes? attrs).getD attrs = eachIn left [] attrs := by
  rw [cleanAttributes?_getD, ← cleanBehind_cleanBehind]
  rfl

/-! ### Attributes that go with the first of their name -/

/-- Where an attribute goes with the first of its name, this one has no authored token. -/
theorem exists_of_losesIn {front attrs : List Attribute} (h : losesIn front attrs = true) :
    ∃ n ∈ annotatedNames, ∃ first, (front ++ attrs).find? (isNamed n) = some first ∧
      ClassList.authored (dropMark first.value) = [] := by
  induction attrs generalizing front with
  | nil => cases h
  | cons a back ih =>
    rw [losesIn, Bool.or_eq_true] at h
    rcases h with h | h
    · unfold goesWithFirst at h
      split at h
      · cases h
      · next n hn =>
        split at h
        · cases h
        · next first hfirst =>
          refine ⟨n, List.mem_of_find?_eq_some hn, first, ?_, List.isEmpty_iff.mp h⟩
          rw [List.find?_append, hfirst]
          rfl
    · have h := ih h
      rwa [List.append_assoc] at h

/-- Nothing goes from a tag that is not edited. -/
theorem losesIn_of_clean {attrs : List Attribute} (h : cleanAttributes? attrs = none) :
    losesIn [] attrs = false := by
  rw [← Bool.not_eq_true]
  intro hloses
  obtain ⟨n, hn, first, hfirst, hnil⟩ := exists_of_losesIn hloses
  rw [List.nil_append, ← List.head?_filter] at hfirst
  have hauthored := cleanAttribute?_eq_none_iff.mp (cleanAttributes?_eq_none_iff.mp h n hn) first hfirst
  exact ClassList.authored_ne_nil (isAuthored_iff.mp hauthored) hnil

/-- An attribute that goes with the first of its name is not the first. -/
theorem keptIn_of_goesWithFirst {front : List Attribute} {a : Attribute}
    (h : goesWithFirst front a = true) : keptIn front a = some a := by
  unfold goesWithFirst at h
  unfold keptIn
  split at h
  · cases h
  · split at h
    · cases h
    · rfl

/-- Only the first attribute of a name is edited, unless others go with it, and then less is
left. -/
theorem eachIn_left_cases (front attrs : List Attribute) :
    losesIn front attrs = false ∧ eachIn left front attrs = eachIn keptIn front attrs ∨
      losesIn front attrs = true ∧
        (spaced (eachIn left front attrs)).length < (spaced (eachIn keptIn front attrs)).length := by
  induction attrs generalizing front with
  | nil => exact .inl ⟨rfl, rfl⟩
  | cons a back ih =>
    rw [losesIn, eachIn, eachIn]
    cases hgoes : goesWithFirst front a with
    | false =>
      have hleft : left front a = keptIn front a := by rw [left, hgoes]; rfl
      rw [hleft, Bool.false_or]
      rcases ih (front ++ [a]) with ⟨hloses, heq⟩ | ⟨hloses, hlt⟩
      · exact .inl ⟨hloses, by rw [heq]⟩
      · refine .inr ⟨hloses, ?_⟩
        simp only [spaced, List.flatMap_append, List.length_append] at hlt ⊢
        omega
    | true =>
      have hleft : left front a = none := by rw [left, hgoes]; rfl
      rw [hleft, keptIn_of_goesWithFirst hgoes]
      refine .inr ⟨rfl, ?_⟩
      -- this attribute makes the difference, whatever becomes of those behind it
      have hle : (spaced (eachIn left (front ++ [a]) back)).length
          ≤ (spaced (eachIn keptIn (front ++ [a]) back)).length := by
        rcases ih (front ++ [a]) with ⟨-, heq⟩ | ⟨-, hlt⟩
        · rw [heq]
        · omega
      simp only [spaced, Option.toList_none, Option.toList_some, List.nil_append,
        List.singleton_append, List.flatMap_cons, List.length_append, List.length_cons] at hle ⊢
      omega

end Attribute

/-! ## The text of stripped markup -/

namespace Token

open Markup

/-- The text of a token with what is left of its attributes by `f`: its own text, unless it is a
start tag with a class list to edit, which is written anew, or a comment with a class run to edit,
which is written between `<!--` and `-->`. -/
def textBy (f : List Attribute → Attribute → Option Attribute) (t : Token) : Text :=
  match t with
  | .startTag source tag =>
    if IsClean t then source
    else StartTag.render ⟨tag.name, eachIn f [] tag.attributes, tag.body.selfClosing, false⟩
  | .comment source content =>
    match ClassRun.clean? (dropMark content) with
    | none => source
    | some text => ['<', '!', '-', '-'] ++ text ++ ['-', '-', '>']
  | t => t.source

/-- The text of a token where only the first class list of each name is edited. The lists are read
without byte order marks, and a list that is edited is written without one (`leftOfFirst`). -/
def framed (t : Token) : Text := t.textBy keptIn

/-- An attribute of the tag goes with the first one of its name. -/
def loses : Token → Bool
  | .startTag _ tag => losesIn [] tag.attributes
  | _ => false

/-- What a token is stripped to is its own text, but for the two kinds that are written anew. -/
theorem source_cleaned {t : Token} (h : t.CanStrip) : t.cleaned.source = t.textBy left := by
  cases t with
  | startTag source tag =>
    simp only [textBy]
    split
    · next hclean =>
      rw [cleaned, strip_of_isClean hclean]
      rfl
    · next hdirty =>
      rw [isClean_startTag_iff] at hdirty
      obtain ⟨attrs, hattrs⟩ := Option.ne_none_iff_exists'.mp hdirty
      have hleft := cleanAttributes?_eq_eachIn tag.attributes
      rw [hattrs, Option.getD_some] at hleft
      rw [cleaned_startTag hattrs, hleft]
      rfl
  | comment source content =>
    simp only [textBy]
    cases hclean : ClassRun.clean? (dropMark content) with
    | none =>
      have hclean : IsClean (.comment source content) := hclean
      rw [cleaned, strip_of_isClean hclean]
      rfl
    | some text =>
      rw [cleaned_comment h hclean]
      rfl
  | _ => rfl

/-- With fewer and shorter attributes a tag is shorter. -/
theorem length_render_lt {name : Text} {attrs attrs' : List Attribute} {selfClosing : Bool}
    (h : (spaced attrs).length < (spaced attrs').length) :
    (StartTag.render ⟨name, attrs, selfClosing, false⟩).length
      < (StartTag.render ⟨name, attrs', selfClosing, false⟩).length := by
  have hne : attrs'.isEmpty = false := by
    cases attrs' with
    | nil => cases h
    | cons a back => rfl
  have hending : (tagEnding selfClosing attrs.isEmpty).length
      ≤ (tagEnding selfClosing attrs'.isEmpty).length := by
    rw [hne]
    cases selfClosing <;> cases attrs.isEmpty <;> decide
  rw [render_eq, render_eq]
  simp only [StartTag.attributes, List.length_cons, List.length_append]
  omega

/-- A token is framed, or it loses an attribute and less is left of it. -/
theorem textBy_left_cases (t : Token) :
    t.loses = false ∧ t.textBy left = t.framed ∨
      t.loses = true ∧ (t.textBy left).length < t.framed.length := by
  cases t with
  | startTag source tag =>
    simp only [framed, textBy, loses]
    split
    · next hclean =>
      exact .inl ⟨losesIn_of_clean (isClean_startTag_iff.mp hclean), rfl⟩
    · rcases eachIn_left_cases [] tag.attributes with ⟨hloses, heq⟩ | ⟨hloses, hlt⟩
      · exact .inl ⟨hloses, by rw [heq]⟩
      · exact .inr ⟨hloses, length_render_lt hlt⟩
  | _ => exact .inl ⟨rfl, rfl⟩

end Token

namespace Markup

/-- **Stripped markup is the markup token by token**, each token by its own text or by what it is
stripped to. -/
theorem text_of_strip {markup o : Text} (h : strip markup = .ok o) :
    o = (tokens markup).flatMap (Token.textBy left) := by
  obtain ⟨hcan, rfl⟩ := strip_eq_ok_iff.mp h
  exact List.flatMap_congr fun t ht => Token.source_cleaned (hcan t ht)

/-- **All but the first class list of each name is framed** if and only if no tag loses an
attribute: none goes with the first one of its name. Markup without anything to edit is returned as
it is. -/
theorem strip_framed_iff (markup : Text) :
    (tokens markup).flatMap Token.source = markup ∧
      (∀ o, strip markup = .ok o →
        (o = (tokens markup).flatMap Token.framed ↔ ∀ t ∈ tokens markup, t.loses = false)) ∧
      ((∀ t ∈ tokens markup, IsClean t) → strip markup = .ok markup) := by
  refine ⟨tokens_source markup, fun o h => ?_, fun h => strip_eq_self_iff.mpr h⟩
  rw [text_of_strip h]
  constructor
  · intro heq t ht
    by_contra hloses
    -- one token with less left of it makes the whole text shorter
    have hlt : ((tokens markup).flatMap (Token.textBy left)).length
        < ((tokens markup).flatMap Token.framed).length := by
      rw [List.length_flatMap, List.length_flatMap]
      refine List.sum_lt_sum _ _ (fun t _ => ?_) ⟨t, ht, ?_⟩
      · rcases t.textBy_left_cases with ⟨-, he⟩ | ⟨-, hlt⟩
        · rw [he]
        · exact hlt.le
      · rcases t.textBy_left_cases with ⟨hkeeps, -⟩ | ⟨-, hlt⟩
        · exact absurd hkeeps hloses
        · exact hlt
    rw [heq] at hlt
    exact lt_irrefl _ hlt
  · intro hkeeps
    refine List.flatMap_congr fun t ht => ?_
    rcases t.textBy_left_cases with ⟨-, he⟩ | ⟨hloses, -⟩
    · exact he
    · rw [hkeeps t ht] at hloses
      cases hloses

/-- A tag with both names and a comment are edited; the tag in front of them is not. -/
theorem strip_framed_mixed :
    let markup := ("<b id='x'>" ++ "<p class='editor-a c\"d e' id=1 css-class=editor-f/x />"
      ++ "<!-- class=\"editor-g h\" -->").toList
    let stripped := ("<b id='x'>" ++ "<p class=\"c&quot;d e\" id=1 />"
      ++ "<!-- class=\"h\" -->").toList
    strip markup = .ok stripped ∧ (∀ t ∈ tokens markup, t.loses = false) ∧
      stripped = (tokens markup).flatMap Token.framed ∧
      (∀ t ∈ tokens stripped, IsClean t) ∧ strip stripped = .ok stripped := by
  intro markup stripped
  have h : strip markup = .ok stripped := by decide +kernel
  have hkeeps : ∀ t ∈ tokens markup, t.loses = false := by decide +kernel
  have hclean : ∀ t ∈ tokens stripped, IsClean t := by decide +kernel
  exact ⟨h, hkeeps, ((strip_framed_iff markup).2.1 stripped h).mpr hkeeps, hclean,
    (strip_framed_iff stripped).2.2 hclean⟩

/-- With the first class list of a tag all others of its name go, authored ones too. -/
theorem not_framed_repeated :
    let markup := "<p class=\"editor-x\" class=\"b\">".toList
    strip markup = .ok "<p>".toList ∧
      (tokens markup).flatMap Token.framed = "<p class=\"b\">".toList := by
  decide +kernel

end Markup

end Mailout
