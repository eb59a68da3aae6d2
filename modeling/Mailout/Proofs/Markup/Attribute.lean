import Mailout.Markup.Attribute
import Mailout.Proofs.Text.Search

/-!
# The grammar of an attribute

`Attribute.StandsBefore a rest` says that the attribute's own text, in front of `rest`, is the
attribute: a quoted value ends by itself, an unquoted one needs a space or the tag's end behind it,
and an attribute without a value must not be followed by `=`.

## Main statements

* `read_of_standsBefore`, `standsBefore_of_read` — an attribute is read exactly where it stands;
* `IsWritten.standsBefore` — where an attribute that was read can be written again.
-/

namespace Mailout

open Text

namespace Attribute

/-! ## Attributes -/

/-- A character that a name can begin with. -/
def isNameStart (c : Char) : Bool := !(isMarkupSpace c || c == '/' || c == '>')

/-- A name as it stands in a tag. Only its first character can be `=`. -/
def IsName : Text → Prop
  | [] => False
  | c :: s => isNameStart c = true ∧ s.all isNamePart = true

/-- The attribute's own text in front of `rest` is the attribute. -/
inductive StandsBefore : Attribute → Text → Prop
  | bare {name rest : Text} (hname : IsName name) (hend : ∀ c ∈ rest.head?, isNamePart c = false)
      (hdue : '=' ∉ (rest.dropWhile isMarkupSpace).head?) : StandsBefore ⟨name, [], name⟩ rest
  | quoted {name gap gap' value rest : Text} {quote : Char} (hname : IsName name)
      (hgap : gap.all isMarkupSpace = true) (hgap' : gap'.all isMarkupSpace = true)
      (hquote : quote = '"' ∨ quote = '\'') (hvalue : quote ∉ value) :
      StandsBefore
        ⟨name, value, name ++ (gap ++ '=' :: (gap' ++ quote :: (value ++ [quote])))⟩ rest
  | unquoted {name gap gap' value rest : Text} {c : Char} (hname : IsName name)
      (hgap : gap.all isMarkupSpace = true) (hgap' : gap'.all isMarkupSpace = true)
      (hquote : c ≠ '"' ∧ c ≠ '\'') (hvalue : (c :: value).all isValuePart = true)
      (hend : ∀ d ∈ rest.head?, isValuePart d = false) :
      StandsBefore ⟨name, c :: value, name ++ (gap ++ '=' :: (gap' ++ c :: value))⟩ rest

/-- The attribute stands in front of some text. -/
def IsWritten (a : Attribute) : Prop := ∃ rest, a.StandsBefore rest

theorem isNamePart_of_space {c : Char} (h : isMarkupSpace c = true) : isNamePart c = false := by
  simp [isNamePart, h]

theorem not_isMarkupSpace_of_isValuePart {c : Char} (h : isValuePart c = true) :
    isMarkupSpace c = false ∧ c ≠ '>' := by
  simpa [isValuePart] using h

theorem head?_gap_append {gap s : Text} (hgap : gap.all isMarkupSpace = true) {p : Char → Bool}
    (hspace : ∀ c, isMarkupSpace c = true → p c = false) (hs : ∀ c ∈ s.head?, p c = false) :
    ∀ c ∈ (gap ++ s).head?, p c = false := by
  intro c hc
  cases gap with
  | nil => exact hs c hc
  | cons d gap =>
    simp only [List.cons_append, List.head?_cons, Option.mem_def, Option.some.injEq] at hc
    exact hspace c (List.all_eq_true.mp hgap c (by simp [hc]))

/-- Behind a name and spaces `=` announces a value. -/
theorem read_due {name gap s t : Text} {c : Char} (hname : IsName name)
    (hgap : gap.all isMarkupSpace = true) (h : name ++ (gap ++ '=' :: t) = c :: s) :
    read c s = readValue name (c :: s) (t.dropWhile isMarkupSpace) := by
  have hend : ∀ d ∈ (gap ++ '=' :: t).head?, isNamePart d = false :=
    head?_gap_append hgap (fun _ => isNamePart_of_space) (by simp; decide)
  cases name with
  | nil => exact hname.elim
  | cons d name =>
    simp only [List.cons_append, List.cons.injEq] at h
    obtain ⟨rfl, rfl⟩ := h
    rw [read, takeWhile_append_eq hname.2 hend, dropWhile_append_eq hname.2 hend,
      dropWhile_append_eq hgap (by simp; decide)]
    rfl

/-- Without `=` the name is the attribute. -/
theorem read_bare {name s t : Text} {c : Char} (hname : IsName name)
    (hend : ∀ d ∈ t.head?, isNamePart d = false) (hdue : '=' ∉ (t.dropWhile isMarkupSpace).head?)
    (h : name ++ t = c :: s) : read c s = some ⟨⟨name, [], name⟩, false, t⟩ := by
  cases name with
  | nil => exact hname.elim
  | cons d name =>
    simp only [List.cons_append, List.cons.injEq] at h
    obtain ⟨rfl, rfl⟩ := h
    rw [read, takeWhile_append_eq hname.2 hend, dropWhile_append_eq hname.2 hend]
    split
    · next u hu => simp [hu] at hdue
    · rfl

/-- Every text that begins like a name is a name and what follows it. -/
theorem exists_name {c : Char} (s : Text) (hc : isNameStart c = true) :
    ∃ name t, IsName name ∧ (∀ d ∈ t.head?, isNamePart d = false) ∧ name ++ t = c :: s :=
  ⟨c :: s.takeWhile isNamePart, s.dropWhile isNamePart, ⟨hc, List.all_takeWhile⟩,
    fun _ hd => not_of_mem_head?_dropWhile hd, by simp⟩

/-- **An attribute that stands in front of a text is read there.** -/
theorem read_of_standsBefore {a : Attribute} {rest s : Text} {c : Char} (h : a.StandsBefore rest)
    (hs : a.source ++ rest = c :: s) : read c s = some ⟨a, false, rest⟩ := by
  cases h with
  | bare hname hend hdue => exact read_bare hname hend hdue hs
  | @quoted name gap gap' value rest quote hname hgap hgap' hquote hvalue =>
    have hs' : name ++ (gap ++ '=' :: (gap' ++ quote :: (value ++ quote :: rest))) = c :: s := by
      simpa using hs
    have hq : isMarkupSpace quote = false ∧ quote ≠ '>' := by
      rcases hquote with rfl | rfl <;> decide
    have hcut : cut? [quote] (value ++ quote :: rest) = some (value, rest) :=
      cut?_singleton_iff.mpr ⟨rfl, hvalue⟩
    have hwhole : consumed (c :: s) rest
        = name ++ (gap ++ '=' :: (gap' ++ quote :: (value ++ [quote]))) := by
      rw [← hs]
      exact consumed_of_append _ _
    rw [read_due hname hgap hs', dropWhile_append_eq hgap' (by simp [hq.1]), readValue]
    simp [hq.2, hquote, hcut, hwhole]
  | @unquoted name gap gap' value rest d hname hgap hgap' hquote hvalue hend =>
    have hs' : name ++ (gap ++ '=' :: (gap' ++ d :: (value ++ rest))) = c :: s := by
      simpa using hs
    simp only [List.all_cons, Bool.and_eq_true] at hvalue
    have hd := not_isMarkupSpace_of_isValuePart hvalue.1
    have hwhole : consumed (c :: s) rest = name ++ (gap ++ '=' :: (gap' ++ d :: value)) := by
      rw [← hs]
      exact consumed_of_append _ _
    rw [read_due hname hgap hs', dropWhile_append_eq hgap' (by simp [hd.1]), readValue,
      takeWhile_append_eq hvalue.2 hend, dropWhile_append_eq hvalue.2 hend]
    simp [hd.2, hquote.1, hquote.2, hwhole]

/-- A name whose value is due right in front of the tag's end. -/
def IsDue (name gap gap' : Text) : Prop :=
  IsName name ∧ gap.all isMarkupSpace = true ∧ gap'.all isMarkupSpace = true

theorem read_of_isDue {name gap gap' s t : Text} {c : Char} (h : IsDue name gap gap')
    (hs : name ++ (gap ++ '=' :: (gap' ++ '>' :: t)) = c :: s) :
    read c s = some ⟨⟨name, [], name⟩, true, '>' :: t⟩ := by
  rw [read_due h.1 h.2.1 hs, dropWhile_append_eq h.2.2 (by simp; decide), readValue]
  simp

/-- A value that is read, with the name and the `=` in front of it, stands there. -/
theorem standsBefore_of_readValue {name gap gap' v whole : Text} {r : Reading}
    (hdue : IsDue name gap gap') (hv : ∀ c ∈ v.head?, isMarkupSpace c = false)
    (hwhole : name ++ (gap ++ '=' :: (gap' ++ v)) = whole) (h : readValue name whole v = some r) :
    (r.dangling = false ∧ r.attr.source ++ r.rest = whole ∧ r.attr.StandsBefore r.rest) ∨
      ∃ t, v = '>' :: t ∧ r = ⟨⟨name, [], name⟩, true, '>' :: t⟩ := by
  obtain ⟨hname, hgap, hgap'⟩ := hdue
  cases v with
  | nil => simp [readValue] at h
  | cons d v =>
    simp only [readValue] at h
    split at h
    · next hd =>
      obtain rfl : d = '>' := by simpa using hd
      exact Or.inr ⟨v, rfl, (Option.some.inj h).symm⟩
    · next hd =>
      left
      split at h
      · next hquote =>
        simp only [Option.map_eq_some_iff, Prod.exists] at h
        obtain ⟨value, rest, hcut, rfl⟩ := h
        obtain ⟨rfl, hvalue⟩ := cut?_singleton_iff.mp hcut
        have hsource : consumed whole rest
            = name ++ (gap ++ '=' :: (gap' ++ d :: (value ++ [d]))) := by
          rw [show whole = name ++ (gap ++ '=' :: (gap' ++ d :: (value ++ [d]))) ++ rest by
            simp [← hwhole]]
          exact consumed_of_append _ _
        simp only [hsource]
        exact ⟨trivial, by simp [← hwhole], .quoted hname hgap hgap' (by simpa using hquote) hvalue⟩
      · next hquote =>
        obtain rfl := Option.some.inj h
        have hsource : consumed whole (v.dropWhile isValuePart)
            = name ++ (gap ++ '=' :: (gap' ++ d :: v.takeWhile isValuePart)) := by
          rw [show whole = name ++ (gap ++ '=' :: (gap' ++ d :: v.takeWhile isValuePart))
            ++ v.dropWhile isValuePart by simp [← hwhole]]
          exact consumed_of_append _ _
        have hpart : isValuePart d = true := by
          simp [isValuePart, hv d rfl, show d ≠ '>' by simpa using hd]
        simp only [hsource]
        refine ⟨trivial, by simp [← hwhole], ?_⟩
        refine .unquoted hname hgap hgap' (by simpa [not_or] using hquote) ?_
          (fun _ hd => not_of_mem_head?_dropWhile hd)
        rw [List.all_cons, hpart, Bool.true_and]
        exact List.all_takeWhile

/-- **What is read stands there**, or its value was due where the tag ends. -/
theorem standsBefore_of_read {s : Text} {c : Char} {r : Reading} (hc : isNameStart c = true)
    (h : read c s = some r) :
    (r.dangling = false ∧ r.attr.source ++ r.rest = c :: s ∧ r.attr.StandsBefore r.rest) ∨
      ∃ name gap gap' t, IsDue name gap gap' ∧ r = ⟨⟨name, [], name⟩, true, '>' :: t⟩ ∧
        name ++ (gap ++ '=' :: (gap' ++ '>' :: t)) = c :: s := by
  obtain ⟨name, t, hname, hend, hs⟩ := exists_name s hc
  by_cases hdue : '=' ∈ (t.dropWhile isMarkupSpace).head?
  · obtain ⟨u, hu⟩ : ∃ u, t.dropWhile isMarkupSpace = '=' :: u := by
      cases ht : t.dropWhile isMarkupSpace with
      | nil => simp [ht] at hdue
      | cons d u => simp [ht] at hdue; exact ⟨u, by rw [hdue]⟩
    obtain ⟨gap, hgap, rfl⟩ : ∃ gap : Text, gap.all isMarkupSpace = true ∧ t = gap ++ '=' :: u :=
      ⟨t.takeWhile isMarkupSpace, List.all_takeWhile, by
        rw [← hu, List.takeWhile_append_dropWhile]⟩
    have hgap' : (u.takeWhile isMarkupSpace).all isMarkupSpace = true := List.all_takeWhile
    have hu : u.takeWhile isMarkupSpace ++ u.dropWhile isMarkupSpace = u :=
      List.takeWhile_append_dropWhile
    rw [read_due hname hgap hs] at h
    rcases standsBefore_of_readValue ⟨hname, hgap, hgap'⟩
      (fun _ hd => not_of_mem_head?_dropWhile hd) (by rw [hu, hs]) h with h | ⟨t, ht, rfl⟩
    · exact Or.inl h
    · exact Or.inr ⟨name, gap, _, t, ⟨hname, hgap, hgap'⟩, rfl, by rw [← ht, hu, hs]⟩
  · rw [read_bare hname hend hdue hs] at h
    obtain rfl := Option.some.inj h
    exact Or.inl ⟨rfl, hs, .bare hname hend hdue⟩

/-- What follows an attribute matters only up to the first character that no tag reads over. -/
theorem StandsBefore.append_stop {a : Attribute} {s t : Text} (h : a.StandsBefore (s ++ '>' :: t))
    (t' : Text) : a.StandsBefore (s ++ '>' :: t') := by
  have hhead {u u' : Text} : (u ++ '>' :: u').head? = (u ++ ['>']).head? := by
    cases u <;> rfl
  have hspace : isMarkupSpace '>' = false := by decide
  cases h with
  | bare hname hend hdue =>
    rw [hhead] at hend
    rw [dropWhile_append_stop hspace, hhead] at hdue
    exact .bare hname (by rw [hhead]; exact hend)
      (by rw [dropWhile_append_stop hspace, hhead]; exact hdue)
  | quoted hname hgap hgap' hquote hvalue => exact .quoted hname hgap hgap' hquote hvalue
  | unquoted hname hgap hgap' hquote hvalue hend =>
    rw [hhead] at hend
    exact .unquoted hname hgap hgap' hquote hvalue (by rw [hhead]; exact hend)

theorem StandsBefore.isName {a : Attribute} {rest : Text} (h : a.StandsBefore rest) :
    IsName a.name := by
  cases h <;> assumption

/-- An attribute's own text begins with its name. -/
theorem StandsBefore.exists_source {a : Attribute} {rest : Text} (h : a.StandsBefore rest) :
    ∃ t, a.source = a.name ++ t := by
  cases h with
  | bare _ _ _ => exact ⟨[], by simp⟩
  | quoted _ _ _ _ _ => exact ⟨_, rfl⟩
  | unquoted _ _ _ _ _ _ => exact ⟨_, rfl⟩

theorem StandsBefore.exists_first {a : Attribute} {rest : Text} (h : a.StandsBefore rest) :
    ∃ c name t, isNameStart c = true ∧ a.name = c :: name ∧ a.source = c :: (name ++ t) := by
  obtain ⟨t, ht⟩ := h.exists_source
  have hname := h.isName
  cases hn : a.name with
  | nil => rw [hn] at hname; exact hname.elim
  | cons c name => rw [hn] at hname ht; exact ⟨c, name, t, hname.1, rfl, ht⟩

/-! ## Writing -/

/-- Behind an attribute without a value no value may be due. -/
theorem StandsBefore.not_due {a : Attribute} {rest : Text} (h : a.StandsBefore rest)
    (hbare : a.source = a.name) : '=' ∉ (rest.dropWhile isMarkupSpace).head? := by
  cases h with
  | bare _ _ hdue => exact hdue
  | quoted _ _ _ _ _ => simp at hbare
  | unquoted _ _ _ _ _ _ => simp at hbare

theorem IsWritten.standsBefore {a : Attribute} (h : a.IsWritten) {rest : Text}
    (hend : ∀ c ∈ rest.head?, c = ' ' ∨ c = '>')
    (hdue : a.source = a.name → '=' ∉ (rest.dropWhile isMarkupSpace).head?) :
    a.StandsBefore rest := by
  obtain ⟨rest', h⟩ := h
  cases h with
  | bare hname _ _ =>
    refine .bare hname (fun c hc => ?_) (hdue rfl)
    rcases hend c hc with rfl | rfl <;> decide
  | quoted hname hgap hgap' hquote hvalue => exact .quoted hname hgap hgap' hquote hvalue
  | unquoted hname hgap hgap' hquote hvalue _ =>
    refine .unquoted hname hgap hgap' hquote hvalue (fun c hc => ?_)
    rcases hend c hc with rfl | rfl <;> decide

theorem not_mem_quoteValue (value : Text) : '"' ∉ quoteValue value := by
  intro h
  obtain ⟨c, -, hc⟩ := List.mem_flatMap.mp h
  split at hc
  · exact absurd hc (by decide)
  · next hne => exact hne (List.mem_singleton.mp hc).symm

theorem IsWritten.withValue {a : Attribute} (h : a.IsWritten) (value : Text) :
    (a.withValue value).IsWritten := by
  obtain ⟨rest, h⟩ := h
  have : StandsBefore ⟨a.name, quoteValue value,
      a.name ++ ([] ++ '=' :: ([] ++ '"' :: (quoteValue value ++ ['"'])))⟩ rest :=
    .quoted h.isName rfl rfl (Or.inl rfl) (not_mem_quoteValue value)
  exact ⟨rest, by simpa [Attribute.withValue] using this⟩

/-- No attribute without a value stands in front of one whose name begins with `=`. -/
def Apart : List Attribute → Prop
  | a :: b :: as => (a.source = a.name → '=' ∉ b.name.head?) ∧ Apart (b :: as)
  | _ => True

instance : (as : List Attribute) → Decidable (Apart as)
  | [] | [_] => .isTrue trivial
  | a :: b :: as =>
    have := instDecidableApart (b :: as)
    inferInstanceAs (Decidable ((a.source = a.name → '=' ∉ b.name.head?) ∧ Apart (b :: as)))

/-- The attributes by their own texts, each after one space. -/
def spaced (as : List Attribute) : Text := as.flatMap fun a => ' ' :: a.source

end Attribute

end Mailout
