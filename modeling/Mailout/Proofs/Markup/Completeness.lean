import Mathlib.Data.List.Basic
import Mailout.Proofs.Markup.Throughout

/-!
# Class lists of stripped markup

Stripping looks at the first attribute of a name only. An editor token in a repeated attribute stays
unless the first one loses all its tokens, and so does one behind a byte order mark that comes to
stand first.

## Main statements

* `isBare_cleaned_iff` — when a stripped token has no editor token;
* `strip_bare_iff` — when stripped markup has none.
-/

namespace Mailout.Markup

open Text Attribute

/-- Every attribute of a start tag that holds a class list, first or repeated, holds authored
tokens only and at least one. -/
def IsBare : Token → Prop
  | .startTag _ tag => ∀ a ∈ tag.attributes, a.isAnnotated = true → IsAuthored a.value
  | _ => True

instance : DecidablePred IsBare
  | .startTag _ tag =>
    inferInstanceAs (Decidable (∀ a ∈ tag.attributes, a.isAnnotated = true → IsAuthored a.value))
  | .char _ | .scrap _ | .cdata _ | .doctype _ | .comment .. | .endTag .. => .isTrue trivial

/-- All that remains of a start tag's class lists is authored. -/
def LeavesBare : Token → Prop
  | .startTag _ tag => ∀ n ∈ annotatedNames, ∀ a ∈ remaining n tag.attributes, IsAuthored a.value
  | _ => True

instance : DecidablePred LeavesBare
  | .startTag _ tag =>
    inferInstanceAs (Decidable (∀ n ∈ annotatedNames, ∀ a ∈ remaining n tag.attributes, _))
  | .char _ | .scrap _ | .cdata _ | .doctype _ | .comment .. | .endTag .. => .isTrue trivial

/-- The attributes that hold class lists, name by name. -/
theorem forall_annotated_iff {p : Attribute → Prop} {attrs : List Attribute} :
    (∀ a ∈ attrs, a.isAnnotated = true → p a) ↔ ∀ n ∈ annotatedNames, ∀ a ∈ named n attrs, p a := by
  simp only [named, List.mem_filter]
  constructor
  · exact fun h n hn a ha => h a ha.1 (isAnnotated_of_isNamed hn ha.2)
  · intro h a ha hann
    obtain ⟨n, hn, hname⟩ := List.any_eq_true.mp hann
    exact h n hn a ⟨ha, hname⟩

/-- **A stripped token is bare** if and only if what remains of its class lists is authored. -/
theorem isBare_cleaned_iff {t : Token} (hcan : t.CanStrip) : LeavesBare t ↔ IsBare t.cleaned := by
  cases t with
  | startTag source tag =>
    obtain ⟨source', selfClosing, dangling, ht⟩ := Token.cleaned_startTag_eq source tag
    rw [ht]
    refine Iff.trans ?_ forall_annotated_iff.symm
    refine forall_congr' fun n => forall_congr' fun hn => ?_
    show _ ↔ ∀ a ∈ named n ((cleanAttributes? tag.attributes).getD tag.attributes), _
    rw [named_cleanAttributes? _ hn]
  | comment source content =>
    rcases hcan.cleaned_cases with ht | ⟨_, _, _, -, -, ht⟩ | ⟨_, _, _, ht, -, -⟩
    · rw [ht]
      exact Iff.rfl
    · rw [ht]
      exact Iff.rfl
    · cases ht
  | _ => exact Iff.rfl

/-- **Stripped markup holds no editor token and no blank class list** if and only if this is so for
what remains of every token, as long as tokens stand or a comment that ends early leaves text of the
page behind, and for every token that is read from there on (`Throughout`). If all tokens stand, it
is a matter of the single tokens. -/
theorem strip_bare_iff {markup stripped : Text} (h : strip markup = .ok stripped) :
    ((∀ t ∈ tokens stripped, IsBare t) ↔ Throughout LeavesBare IsBare {} (tokens markup)) ∧
      (AllStand {} (tokens markup) →
        ((∀ t ∈ tokens stripped, IsBare t) ↔ ∀ t ∈ tokens markup, LeavesBare t)) := by
  obtain ⟨hcan, rfl⟩ := strip_eq_ok_iff.mp h
  have hnamed : (Context.mode {}).IsNamed := trivial
  have hiff := throughout_iff (fun _ => isBare_cleaned_iff) (fun _ => trivial) hnamed hcan (.same _ _)
  exact ⟨hiff.symm, fun hall => hiff.symm.trans (throughout_iff_forall hall)⟩

/-- A second `class` attribute is not looked at where the first one is clean. -/
theorem not_bare_repeated :
    strip "<p class=\"a\" class=\"editor-x\">x</p>".toList
        = .ok "<p class=\"a\" class=\"editor-x\">x</p>".toList ∧
      ∃ t ∈ tokens "<p class=\"a\" class=\"editor-x\">x</p>".toList, ¬ IsBare t := by
  decide +kernel

/-- No class list of this markup is repeated, and stripped it holds no editor token. -/
theorem strip_bare_paragraph :
    strip "<p class=\"editor-a b\">c</p><i class=\"editor-d\" css-class>d</i>".toList
        = .ok "<p class=\"b\">c</p><i>d</i>".toList ∧
      ∀ t ∈ tokens "<p class=\"b\">c</p><i>d</i>".toList, IsBare t := by
  have h : strip "<p class=\"editor-a b\">c</p><i class=\"editor-d\" css-class>d</i>".toList
      = .ok "<p class=\"b\">c</p><i>d</i>".toList := by decide +kernel
  exact ⟨h, (strip_bare_iff h).1.mpr (by decide +kernel)⟩

end Mailout.Markup
