import Mailout.Proofs.Markup.QuotedTag
import Mailout.Proofs.Text.Words

/-!
# A tag in a comment

In a comment a tag is mere text, and its class lists are found by what they look like. Of a tag with
quoted attributes the right ones are found: a class run is an attribute that is called `class` or
`css-class` (`parts_text`). Other attributes are passed over, whatever their names end in, as long
as nothing in their values looks like a class attribute.

What cleaning the text leaves is the tag with what is left of its class lists (`clean?_text`).
-/

namespace Mailout

open Text

/-! ## Class lists -/

namespace ClassList

/-- What is left of a class list, if anything is. -/
def left (value : Text) : Option Text :=
  match clean? value with
  | none => some value
  | some [] => none
  | some kept => some kept

/-- The characters of what is left of a class list are its own, and spaces. -/
theorem mem_of_mem_left {value v : Text} (h : left value = some v) {c : Char} (hc : c ∈ v)
    (hspace : c ≠ ' ') : c ∈ value := by
  unfold left at h
  split at h
  · rw [Option.some.inj h]
    exact hc
  · cases h
  · next kept _ hclean =>
    obtain ⟨rfl, -⟩ := clean?_eq_some hclean
    obtain rfl := Option.some.inj h
    obtain ⟨front, back, hjoin⟩ := List.append_of_mem hc
    have hin : [c] <:+: joinWords (authored value) := ⟨front, back, by simp [hjoin]⟩
    obtain ⟨w, hw, hcw⟩ := exists_of_infix_joinWords (List.cons_ne_nil c [])
      (by simpa using Ne.symm hspace) hin
    have hword := infix_of_mem_words (List.mem_filter.mp hw).1
    exact (hcw.trans hword).subset List.mem_cons_self

end ClassList

/-! ## Runs and literal text -/

namespace ClassRun

/-- What cleaning leaves of a text, part by part. -/
theorem clean?_getD (s : Text) : (clean? s).getD s = (parts s).flatMap Part.cleaned := by
  unfold clean?
  split
  · rfl
  · next hclean =>
    rw [Option.getD_none]
    conv => lhs; rw [← parts_source s]
    refine List.flatMap_congr fun p hp => ?_
    cases p with
    | literal c => rfl
    | run r =>
      have hdirty : ¬ r.isDirty = true := fun hr => hclean (List.any_eq_true.mpr ⟨_, hp, hr⟩)
      exact ((weight_cleaned (isRun_of_mem_parts hp).weight_name_pos).2
        (Bool.eq_false_iff.mpr hdirty)).symm

theorem not_isMarkupSpace_of_quote {quote : Char} (h : quote = '"' ∨ quote = '\'') :
    isMarkupSpace quote = false := by
  rcases h with rfl | rfl
  · rfl
  · rfl

/-- A value that does not look like a class attribute is literal. -/
theorem parts_append_value {value rest : Text} {quote : Char} (hquote : quote = '"' ∨ quote = '\'')
    (hvalue : ¬ "class=".toList <:+: value) :
    parts (value ++ quote :: rest) = value.map .literal ++ parts (quote :: rest) := by
  refine parts_append_of_literal fun c w' hw' _ => read_eq_other ?_
  rw [← List.cons_append, dropWhile_append_stop (not_isMarkupSpace_of_quote hquote)]
  have hin : (c :: w').dropWhile isMarkupSpace <:+: value :=
    ((List.dropWhile_suffix _).trans hw').isInfix
  have hnot : quote ∉ "css-class=".toList := by
    rcases hquote with rfl | rfl <;> decide
  exact readName_append_eq_none hnot fun h => hvalue (h.trans hin)

/-- No other name is taken for that of a class attribute. -/
theorem readName_of_not_annotated {n rest : Text} (hequals : '=' ∉ n) (hn : n ∉ annotatedNames) :
    readName (n ++ '=' :: rest) = none := by
  have hsame {m : Text} (hm : '=' ∉ m) (h : m ++ ['='] <+: n ++ '=' :: rest) : m = n := by
    obtain ⟨t, ht⟩ := h
    have hstop : (('=' : Char) != '=') = false := by decide
    have hall {s : Text} (hs : '=' ∉ s) (u : Text) :
        (s ++ '=' :: u).takeWhile (· != '=') = s := by
      refine takeWhile_append_eq ?_ (by simp)
      simp only [List.all_eq_true, bne_iff_ne]
      rintro c hc rfl
      exact hs hc
    rw [← hall hm t, ← hall hequals rest, ← ht, List.append_assoc]
    rfl
  refine readName_eq_none (fun h => hn ?_) (fun h => hn ?_)
  · rw [← @hsame "class".toList (by decide) h]
    exact List.mem_cons_self
  · rw [← @hsame "css-class".toList (by decide) h]
    exact List.mem_cons_of_mem _ List.mem_cons_self

end ClassRun

/-! ## Attributes -/

namespace QuotedAttribute

open ClassRun

/-- A character of a name that is no space and no sign of a tag. -/
def isPlainNamePart (c : Char) : Bool :=
  !(isMarkupSpace c || ['"', '\'', '=', '/', '<', '>'].contains c)

/-- The attribute is written as usual: behind spaces, with a name in small letters, between quotes,
and with a value that looks like no class attribute. -/
structure IsPlain (a : QuotedAttribute) : Prop where
  space_ne_nil : a.space ≠ []
  space : a.space.all isMarkupSpace = true
  name_ne_nil : a.name ≠ []
  name : a.name.all isPlainNamePart = true
  lower : lowerAscii a.name = a.name
  quote : a.quote = '"' ∨ a.quote = '\''
  value : '"' ∉ a.value ∧ '\'' ∉ a.value
  no_class : ¬ "class=".toList <:+: a.value

theorem IsPlain.not_mem_value {a : QuotedAttribute} (h : a.IsPlain) : a.quote ∉ a.value := by
  rcases h.quote with hq | hq
  · rw [hq]
    exact h.value.1
  · rw [hq]
    exact h.value.2

theorem IsPlain.of_mem_name {a : QuotedAttribute} (h : a.IsPlain) {c : Char} (hc : c ∈ a.name) :
    isMarkupSpace c = false ∧ c ∉ ['"', '\'', '=', '/', '<', '>'] := by
  have hpart := List.all_eq_true.mp h.name c hc
  simpa only [isPlainNamePart, Bool.not_eq_true', Bool.or_eq_false_iff, List.contains_eq_mem,
    decide_eq_false_iff_not] using hpart

theorem IsPlain.not_equals {a : QuotedAttribute} (h : a.IsPlain) : '=' ∉ a.name := by
  intro hm
  exact (h.of_mem_name hm).2 (by decide)

theorem IsPlain.isQuoted {a : QuotedAttribute} (h : a.IsPlain) : a.IsQuoted := by
  refine ⟨h.space_ne_nil, h.space, ?_, h.quote, h.not_mem_value⟩
  have hpart (c : Char) (hc : c ∈ a.name) :
      Attribute.isNameStart c = true ∧ Attribute.isNamePart c = true := by
    obtain ⟨hspace, hsign⟩ := h.of_mem_name hc
    simp only [List.mem_cons, List.not_mem_nil, or_false, not_or] at hsign
    simp [Attribute.isNameStart, Attribute.isNamePart, hspace, hsign]
  obtain ⟨c, n, hname⟩ := List.exists_cons_of_ne_nil h.name_ne_nil
  rw [hname] at hpart ⊢
  exact ⟨(hpart c List.mem_cons_self).1,
    List.all_eq_true.mpr fun d hd => (hpart d (List.mem_cons_of_mem c hd)).2⟩

/-- The attribute as a class run. -/
def run (a : QuotedAttribute) : ClassRun := ⟨a.space, a.name ++ ['='], a.quote, a.value⟩

/-- The parts of the attribute's text. -/
def parts (a : QuotedAttribute) : List Part :=
  if a.name ∈ annotatedNames then [.run a.run] else a.text.map .literal

/-- What is left of the attribute's value in the text of a comment. -/
def leftInText (a : QuotedAttribute) : Option Text :=
  if a.name ∈ annotatedNames then ClassList.left a.value else some a.value

/-- What is left of the attribute in the text of a comment. -/
def inText (a : QuotedAttribute) : List QuotedAttribute :=
  a.leftInText.toList.map fun v => { a with value := v }

/-- An attribute's name begins with no space. -/
theorem IsPlain.head?_name {a : QuotedAttribute} (h : a.IsPlain) (s : Text) :
    ∀ c ∈ (a.name ++ s).head?, isMarkupSpace c = false := by
  intro c hc
  obtain ⟨d, n, hname⟩ := List.exists_cons_of_ne_nil h.name_ne_nil
  rw [hname, List.cons_append, List.head?_cons, Option.mem_def, Option.some.injEq] at hc
  rw [← hc]
  exact (h.of_mem_name (by rw [hname]; exact List.mem_cons_self)).1

theorem text_eq_source (a : QuotedAttribute) : a.text = a.run.source := by
  simp [text, source, run, ClassRun.source, ClassRun.withValue]

/-- A class attribute is a run. -/
theorem IsPlain.isRun {a : QuotedAttribute} (h : a.IsPlain) (hname : a.name ∈ annotatedNames) :
    a.run.IsRun := by
  refine ⟨h.space_ne_nil, h.space, ?_, h.quote, h.not_mem_value⟩
  simp only [annotatedNames, List.mem_cons, List.not_mem_nil, or_false] at hname
  exact hname.imp (fun hn => by rw [run, hn]; rfl) (fun hn => by rw [run, hn]; rfl)

/-- Another attribute is literal text. -/
theorem IsPlain.parts_append_of_not_annotated {a : QuotedAttribute} (h : a.IsPlain)
    (hname : a.name ∉ annotatedNames) (rest : Text) :
    ClassRun.parts (a.text ++ rest) = a.text.map .literal ++ ClassRun.parts rest := by
  have htext : a.text ++ rest = a.space ++ ((a.name ++ ['=', a.quote])
      ++ (a.value ++ a.quote :: rest)) := by
    simp [text, source]
  have hstop : ∀ c ∈ ((a.name ++ ['=', a.quote]) ++ (a.value ++ a.quote :: rest)).head?,
      isMarkupSpace c = false := by
    rw [List.append_assoc]
    exact h.head?_name _
  have hnone : readName ((a.name ++ ['=', a.quote]) ++ (a.value ++ a.quote :: rest)) = none := by
    rw [List.append_assoc]
    exact readName_of_not_annotated h.not_equals hname
  have hquote : isMarkupSpace a.quote = false := not_isMarkupSpace_of_quote h.quote
  have hliteral : ∀ c ∈ a.name ++ ['=', a.quote], isMarkupSpace c = false := by
    intro c hc
    simp only [List.mem_append, List.mem_cons, List.not_mem_nil, or_false] at hc
    rcases hc with hc | rfl | rfl
    · exact (h.of_mem_name hc).1
    · rfl
    · exact hquote
  rw [htext, parts_append_spaces h.space hstop hnone, parts_append_of_no_space hliteral,
    parts_append_value h.quote h.no_class,
    parts_cons_of_literal fun hc => absurd hc (by simp [hquote])]
  simp [text, source]

/-- **A class run is an attribute that is called `class` or `css-class`.** -/
theorem IsPlain.parts_append {a : QuotedAttribute} (h : a.IsPlain) (rest : Text) :
    ClassRun.parts (a.text ++ rest) = a.parts ++ ClassRun.parts rest := by
  by_cases hname : a.name ∈ annotatedNames
  · rw [a.text_eq_source, (h.isRun hname).parts_source_append, parts, if_pos hname]
    rfl
  · rw [h.parts_append_of_not_annotated hname, parts, if_neg hname]

/-- What cleaning leaves of the attribute's parts. -/
theorem cleaned_parts (a : QuotedAttribute) :
    a.parts.flatMap Part.cleaned = a.inText.flatMap text := by
  unfold parts inText leftInText
  split
  · have hvalue (v : Text) : a.run.withValue v = text { a with value := v } := by
      simp [ClassRun.withValue, run, text, source]
    have hcleaned : a.run.cleaned
        = ((ClassList.left a.value).map fun v => a.run.withValue v).getD [] := by
      unfold ClassRun.cleaned ClassList.left
      cases hclean : ClassList.clean? a.value with
      | none => simp [run, hclean, ClassRun.source]
      | some kept => cases kept <;> simp [run, hclean]
    simp only [List.flatMap_cons, List.flatMap_nil, List.append_nil, Part.cleaned, hcleaned, hvalue]
    cases ClassList.left a.value <;> simp
  · simp [flatMap_cleaned_literal]

end QuotedAttribute

/-! ## Tags -/

namespace QuotedTag

open QuotedAttribute ClassRun

/-- The tag is written as usual: its name is a letter and then letters, digits and hyphens, and no
two of its attributes have the same name. -/
structure IsPlain (t : QuotedTag) : Prop where
  name : ∃ c n, t.name = c :: n ∧ c.isAlpha = true ∧
    n.all (fun d => d.isAlphanum || d == '-') = true
  attributes : ∀ a ∈ t.attributes, a.IsPlain
  distinct : (t.attributes.map QuotedAttribute.name).Nodup
  space : t.space.all isMarkupSpace = true

theorem IsPlain.isTagNamePart_name {t : QuotedTag} (h : t.IsPlain) :
    ∀ c ∈ t.name, Markup.isTagNamePart c = true := by
  obtain ⟨c, n, hname, hc, hn⟩ := h.name
  rw [hname]
  intro d hd
  rcases List.mem_cons.mp hd with rfl | hd
  · exact Markup.isTagNamePart_of_isAlpha hc
  · have hn := List.all_eq_true.mp hn d hd
    rw [Bool.or_eq_true, beq_iff_eq] at hn
    rcases hn with hd | rfl
    · rcases Bool.or_eq_true_iff.mp hd with hd | hd
      · exact Markup.isTagNamePart_of_isAlpha hd
      · have hdigit := (isDigit_iff d).mp hd
        have hne {e : Char} (he : e.toNat < 48 ∨ 57 < e.toNat) : d ≠ e := by
          rintro rfl
          omega
        simp [Markup.isTagNamePart, isMarkupSpace, @hne ' ' (by decide), @hne '\t' (by decide),
          @hne '\n' (by decide), @hne '\x0C' (by decide), @hne '\r' (by decide), @hne '/' (by decide),
          @hne '>' (by decide)]
    · decide

theorem IsPlain.isQuoted {t : QuotedTag} (h : t.IsPlain) : t.IsQuoted := by
  obtain ⟨c, n, hname, hc, -⟩ := h.name
  exact ⟨⟨c, n, hname, hc, List.all_eq_true.mpr h.isTagNamePart_name⟩,
    fun a ha => (h.attributes a ha).isQuoted, h.space⟩

/-- **The class runs of a tag are its class attributes.** -/
theorem IsPlain.parts_text {t : QuotedTag} (h : t.IsPlain) :
    ClassRun.parts t.text = ('<' :: t.name).map .literal ++ (t.attributes.flatMap QuotedAttribute.parts
      ++ (t.space ++ if t.selfClosing then ['/', '>'] else ['>']).map .literal) := by
  have hname : ∀ c ∈ '<' :: t.name, isMarkupSpace c = false := by
    intro c hc
    rcases List.mem_cons.mp hc with rfl | hc
    · decide
    · have hpart := h.isTagNamePart_name c hc
      simp only [Markup.isTagNamePart, Bool.not_eq_true', Bool.or_eq_false_iff] at hpart
      exact hpart.1.1
  have hattrs {attrs : List QuotedAttribute} (hattrs : ∀ a ∈ attrs, a.IsPlain) (rest : Text) :
      ClassRun.parts (attrs.flatMap QuotedAttribute.text ++ rest)
        = attrs.flatMap QuotedAttribute.parts ++ ClassRun.parts rest := by
    induction attrs with
    | nil => rfl
    | cons a attrs ih =>
      obtain ⟨ha, hattrs⟩ := List.forall_mem_cons.mp hattrs
      rw [List.flatMap_cons, List.append_assoc, ha.parts_append, ih hattrs, List.flatMap_cons,
        List.append_assoc]
  have hending {ending : Text} (hstop : ∀ c ∈ ending, isMarkupSpace c = false)
      (hread : readName ending = none) :
      ClassRun.parts (t.space ++ ending) = (t.space ++ ending).map .literal := by
    have hspace := parts_append_spaces h.space (fun c hc => hstop c (List.mem_of_mem_head? hc)) hread
    have hliteral : ClassRun.parts (ending ++ []) = ending.map .literal ++ ClassRun.parts [] :=
      parts_append_of_no_space hstop
    rw [List.append_nil, ClassRun.parts, List.append_nil] at hliteral
    rw [hspace, hliteral, List.map_append]
  rw [text, ← List.cons_append, parts_append_of_no_space hname, hattrs h.attributes]
  congr 2
  cases t.selfClosing with
  | false => exact hending (by simp [isMarkupSpace]) rfl
  | true => exact hending (by simp [isMarkupSpace]) rfl

/-- **Cleaning the text of a tag** leaves the tag with what is left of its class lists. -/
theorem IsPlain.clean?_text {t : QuotedTag} (h : t.IsPlain) :
    (ClassRun.clean? t.text).getD t.text = 
      text { t with attributes := t.attributes.flatMap inText } := by
  rw [clean?_getD, h.parts_text, List.flatMap_append, List.flatMap_append, flatMap_cleaned_literal,
    flatMap_cleaned_literal, List.flatMap_assoc]
  simp only [cleaned_parts, ← List.flatMap_assoc]
  rfl

/-- The tag that is read where the text of a tag was cleaned. -/
theorem IsPlain.tagOf?_clean? {t : QuotedTag} (h : t.IsPlain) :
    Markup.tagOf? ((ClassRun.clean? t.text).getD t.text) = some (t.name,
      t.attributes.filterMap fun a => a.leftInText.map fun v => (a.name, v)) := by
  have hquoted : IsQuoted { t with attributes := t.attributes.flatMap inText } := by
    refine ⟨h.isQuoted.name, fun a ha => ?_, h.space⟩
    obtain ⟨b, hb, ha⟩ := List.mem_flatMap.mp ha
    obtain ⟨v, hv, rfl⟩ := List.mem_map.mp ha
    have hplain := h.attributes b hb
    refine ⟨hplain.space_ne_nil, hplain.space, hplain.isQuoted.name, hplain.quote, fun hm => ?_⟩
    have hv : b.leftInText = some v := by simpa using hv
    unfold leftInText at hv
    split at hv
    · refine hplain.not_mem_value (ClassList.mem_of_mem_left hv hm ?_)
      rcases hplain.quote with hq | hq
      · show b.quote ≠ ' '
        rw [hq]
        decide
      · show b.quote ≠ ' '
        rw [hq]
        decide
    · rw [← Option.some.inj hv] at hm
      exact hplain.not_mem_value hm
  rw [h.clean?_text, tagOf?_text hquoted]
  have hentries (attrs : List QuotedAttribute) :
      (attrs.flatMap inText).map (fun a => (a.name, a.value))
        = attrs.filterMap fun a => a.leftInText.map fun v => (a.name, v) := by
    induction attrs with
    | nil => rfl
    | cons a attrs ih =>
      rw [List.flatMap_cons, List.map_append, ih, List.filterMap_cons, inText]
      cases a.leftInText <;> rfl
  rw [hentries]

end QuotedTag

end Mailout
