import Mailout.Proofs.Markup.Cleaning

/-!
# Contexts

What a context takes from the tags before it: the names of text-only elements have letters only, and
of an attribute that holds a class list nothing is taken. So a start tag leads to the same kinds of
content after its class lists are cleaned.

## Main statements

* `Context.isNamed_after` — a text-only element has a name of letters;
* `after_startTag`, `kindsAfterStart_eq` — the context after a start tag.
-/

namespace Mailout.Markup

open Text Attribute

/-! ## Names -/

/-- A name of letters only. -/
def IsLetters (name : Text) : Prop := name ≠ [] ∧ ∀ c ∈ name, c.isAlpha = true

/-- A text-only element has a name of letters. -/
def Mode.IsNamed : Mode → Prop
  | .textOnly name => IsLetters name
  | _ => True

theorem IsLetters.toLower_ne {name : Text} (h : IsLetters name) {d : Char}
    (hd : d.isAlpha = false) : ∀ c ∈ name, c.toLower ≠ d.toLower :=
  fun c hc => toLower_ne_of_isAlpha (h.2 c hc) hd

theorem IsLetters.slash_toLower_ne {name : Text} (h : IsLetters name) {d : Char}
    (hd : d.isAlpha = false) (hslash : '/' ≠ d.toLower) :
    ∀ c ∈ '/' :: name, c.toLower ≠ d.toLower := by
  rintro c (_ | ⟨_, hc⟩)
  · exact hslash
  · exact h.toLower_ne hd c hc

theorem isLetters_of_isOneOf {names : List String} {name : Text}
    (hnames : ∀ n ∈ names, n.toList ≠ [] ∧ n.toList.all Char.isAlpha = true)
    (h : isOneOf names name = true) : IsLetters name := by
  obtain ⟨n, hn, hname⟩ := List.any_eq_true.mp h
  obtain ⟨hne, halpha⟩ := hnames n hn
  refine ⟨?_, isAlpha_of_sameLetters hname (List.all_eq_true.mp halpha)⟩
  rintro rfl
  exact hne (sameLetters_nil_right.mp hname)

theorem Mode.isNamed_ofName (name : Text) : (Mode.ofName name).IsNamed := by
  unfold Mode.ofName
  split
  · next h => exact isLetters_of_isOneOf (by decide) h
  · split
    · trivial
    · split <;> trivial

theorem Context.isNamed_after {ctx : Context} (h : ctx.mode.IsNamed) (t : Token) (rest : Text) :
    (ctx.after t rest).mode.IsNamed := by
  unfold Context.after
  split
  · split
    · trivial
    · exact h
  · split
    · trivial
    · split
      · trivial
      · split
        · trivial
        · split
          · trivial
          · exact Mode.isNamed_ofName _
  · trivial
  · exact h

theorem isLetters_script : IsLetters "script".toList := by
  constructor <;> simp

/-! ## Text-only elements -/

/-- The end tag that counts in this mode. -/
def Mode.endName? : Mode → Option Text
  | .textOnly name => some name
  | .script _ => some "script".toList
  | _ => none

/-- The mode right after a start tag. -/
def Mode.IsOpening : Mode → Prop
  | .textOnly name => IsLetters name
  | .script st => st = {}
  | _ => True

theorem Mode.isOpening_ofName (name : Text) : (Mode.ofName name).IsOpening := by
  have hnamed := Mode.isNamed_ofName name
  unfold Mode.ofName at hnamed ⊢
  split
  · next h =>
    rw [if_pos h] at hnamed
    exact hnamed
  · split
    · rfl
    · split <;> trivial

theorem Mode.IsOpening.isLetters {mode : Mode} (h : mode.IsOpening) {name : Text}
    (hname : name ∈ mode.endName?) : IsLetters name := by
  cases mode with
  | data => cases hname
  | plain => cases hname
  | textOnly n =>
    obtain rfl := Option.some.inj hname
    exact h
  | script st =>
    obtain rfl := Option.some.inj hname
    exact isLetters_script

/-- The mode that a start tag opens, unless it is dangling. -/
def Context.opens (ctx : Context) (tag : StartTag) : Mode :=
  if isOneOf ["svg"] tag.name || isOneOf ["math"] tag.name || ctx.isForeign then .data
  else .ofName tag.name

/-! ## Start tags -/

theorem dropMark_of_letters {s : Text} (h : ∀ c ∈ s, c.isAlpha = true) : dropMark s = s := by
  unfold dropMark
  split
  · exact absurd (h _ List.mem_cons_self) (by decide)
  · rfl

/-- An attribute that holds a class list has none of the names that a context looks for. -/
theorem not_isOneOf_of_isAnnotated {names : List String}
    (hnames : ∀ n ∈ names, n.toList.all Char.isAlpha = true ∧
      ∀ m ∈ annotatedNames, sameLetters n.toList m = false)
    {a : Attribute} (h : a.isAnnotated = true) : isOneOf names a.name = false := by
  refine Bool.eq_false_iff.mpr fun hone => ?_
  obtain ⟨n, hn, hname⟩ := List.any_eq_true.mp hone
  obtain ⟨halpha, hne⟩ := hnames n hn
  obtain ⟨m, hm, ham⟩ := List.any_eq_true.mp h
  rw [isNamed, dropMark_of_letters (isAlpha_of_sameLetters hname (List.all_eq_true.mp halpha))]
    at ham
  have hsame := sameLetters_iff.mpr ((sameLetters_iff.mp hname).trans (sameLetters_iff.mp ham))
  rw [hne m hm] at hsame
  cases hsame

theorem any_eq_of_others {p : Attribute → Bool} (hp : ∀ a, a.isAnnotated = true → p a = false)
    {attrs attrs' : List Attribute} (h : others attrs = others attrs') :
    attrs.any p = attrs'.any p := by
  have hany (as : List Attribute) : as.any p = (others as).any p := by
    rw [others, List.any_filter]
    congr 1
    funext a
    cases ha : a.isAnnotated with
    | true => simp [hp a ha]
    | false => simp
  rw [hany attrs, hany attrs', h]

/-- The kinds of content after a start tag. -/
def Context.kindsAfterStart (ctx : Context) (tag : StartTag) : List ContentKind :=
  if isOneOf ["svg"] tag.name then .drawing :: ctx.kinds
  else if isOneOf ["math"] tag.name then .formula :: ctx.kinds
  else if ctx.isForeign then ctx.kindsAfterForeignStart tag
  else ctx.kinds

theorem after_startTag (ctx : Context) (source : Text) (tag : StartTag) (rest : Text) :
    ctx.after (.startTag source tag) rest
      = ⟨if tag.body.dangling then .data else ctx.opens tag, ctx.kindsAfterStart tag⟩ := by
  simp only [Context.after, Context.opens, Context.kindsAfterStart]
  by_cases hsvg : isOneOf ["svg"] tag.name = true
  · simp [hsvg]
  · by_cases hmath : isOneOf ["math"] tag.name = true
    · simp [hsvg, hmath]
    · by_cases hforeign : ctx.isForeign = true
      · simp [hsvg, hmath, hforeign]
      · cases hd : tag.body.dangling <;> simp [hsvg, hmath, hforeign]

theorem kindsAfterStart_eq {ctx : Context} {tag tag' : StartTag} (hname : tag'.name = tag.name)
    (hself : tag'.body.selfClosing = tag.body.selfClosing)
    (hothers : others tag'.attributes = others tag.attributes) :
    ctx.kindsAfterStart tag' = ctx.kindsAfterStart tag := by
  have hfont : (tag'.attributes.any fun a => isOneOf ["color", "size", "face"] a.name)
      = tag.attributes.any fun a => isOneOf ["color", "size", "face"] a.name :=
    any_eq_of_others (fun a ha => not_isOneOf_of_isAnnotated (by decide) ha) hothers
  have hencoding : hasPageEncoding tag' = hasPageEncoding tag := by
    refine any_eq_of_others (fun a ha => ?_) hothers
    rw [not_isOneOf_of_isAnnotated (by decide) ha, Bool.false_and]
  simp only [Context.kindsAfterStart, Context.kindsAfterForeignStart, hname, hself, hfont,
    hencoding]

end Mailout.Markup
