import Mailout.Preset.Builtin
import Mailout.Proofs.MergeTag.Boundary

/-!
# When no tag is left

A replaced text has tags only inside its substitutions, as long as no tag crosses one of them. Where
every substitution is without braces and has a character that stands in no tag, no tag is left
(`names_transform`). Mailchimp writes every variable like that: between `*|` and `|*`.
-/

namespace Mailout

open Text MergeTag

/-! ## Capitals -/

/-- The capitals of an identifier have no brace. -/
theorem Text.not_mem_upper {name : Text} (h : isIdentifier name = true) :
    '{' ∉ upper name ∧ '}' ∉ upper name := by
  have hcheck : ∀ n < 0x7B, '{' ∉ upperChar (Char.ofNat n) ∧ '}' ∉ upperChar (Char.ofNat n) := by
    decide
  have hchar {c : Char} (hc : c ∈ name) : '{' ∉ upperChar c ∧ '}' ∉ upperChar c := by
    have hlow := (toNat_of_isIdentifierPart (all_part_of_isIdentifier h c hc)).2
    have hc := hcheck c.toNat hlow
    rwa [Char.ofNat_toNat] at hc
  constructor
  · intro hm
    obtain ⟨c, hc, hm⟩ := List.mem_flatMap.mp hm
    exact (hchar hc).1 hm
  · intro hm
    obtain ⟨c, hc, hm⟩ := List.mem_flatMap.mp hm
    exact (hchar hc).2 hm

/-! ## What a preset writes -/

/-- Without overrides a variable is substituted by what the preset writes for it. -/
theorem Preset.substitution_empty (p : Preset) (name : Text) :
    p.substitution {} name = p.transformTag name := rfl

/-- A variable is written as the table has it, or by the rule for all others. -/
theorem TablePreset.transformTag_cases (t : TablePreset) (name : Text) :
    (∃ e ∈ t.knownTags.entries, t.transformTag name = e.2) ∨
      t.transformTag name = t.fallback.apply name := by
  rw [transformTag]
  cases hknown : t.knownTags.get? name with
  | some literal => exact .inl ⟨_, Dictionary.mem_entries_of_get? hknown, rfl⟩
  | none => exact .inr rfl

theorem Fallback.apply_handlebars (name : Text) :
    handlebars.apply name = ['{', '{'] ++ name ++ ['}', '}'] := rfl

theorem Fallback.apply_pipeUpper (name : Text) :
    pipeUpper.apply name = ['*', '|'] ++ upper name ++ ['|', '*'] := rfl

/-! ## Mailchimp -/

/-- Mailchimp writes every variable without braces and with a character that stands in no tag. -/
theorem TablePreset.isOutside_mailchimp {name : Text} (h : isIdentifier name = true) :
    IsOutside (mailchimp.transformTag name) := by
  have hentries : ∀ e ∈ mailchimp.knownTags.entries, IsOutside e.2 := by decide +kernel
  rcases mailchimp.transformTag_cases name with ⟨e, he, htag⟩ | htag
  · rw [htag]
    exact hentries e he
  · obtain ⟨hopen, hclose⟩ := not_mem_upper h
    have hfallback : mailchimp.fallback = .pipeUpper := rfl
    rw [htag, hfallback, Fallback.apply_pipeUpper]
    refine ⟨?_, ?_, '*', by simp, by decide, by decide⟩
    · simpa using hopen
    · simpa using hclose

/-! ## No tag is left -/

namespace MergeTag

/-- **No tag is left** where every variable of the markup is substituted by a text without braces
that has a character which is neither a blank nor a part of an identifier: no tag is written in the
text that comes out, and no variable is found in it. So no tag is left in what Mailchimp
receives. -/
theorem names_transform :
    (∀ (p : Preset) (overrides : Dictionary Text) (markup : Text),
      (∀ name ∈ names markup, IsOutside (p.substitution overrides name)) →
        IsFree (p.transform overrides markup) ∧ names (p.transform overrides markup) = []) ∧
      ∀ markup, IsFree (TablePreset.mailchimp.toPreset.transform {} markup) ∧
        names (TablePreset.mailchimp.toPreset.transform {} markup) = [] := by
  have hleft (p : Preset) (overrides : Dictionary Text) (markup : Text)
      (h : ∀ name ∈ names markup, IsOutside (p.substitution overrides name)) :
      IsFree (p.transform overrides markup) ∧ names (p.transform overrides markup) = [] := by
    have hfree : IsFree (p.transform overrides markup) := by
      intro t ht htext
      obtain ⟨name, hname, hinside⟩ :=
        exists_infix_of_transform (fun name hname => (h name hname).severs) ht htext
      exact (h name hname).isFree t ht hinside
    exact ⟨hfree, names_eq_nil_iff.mpr hfree⟩
  refine ⟨hleft, fun markup => hleft _ _ markup fun name hname => ?_⟩
  exact TablePreset.isOutside_mailchimp (isIdentifier_of_mem_names hname)

/-- Text on both sides of a tag would be a tag with it if nothing stood in between. -/
theorem names_transform_between :
    let markup := "\x7b\x7ba\x7b\x7b x \x7d\x7d.b\x7d\x7d \x7b\x7b\x7by\x7d\x7d\x7d".toList
    let overrides : Dictionary Text := .ofList [(['x'], ['-'])]
    let p := TablePreset.mailchimp.toPreset
    (∀ name ∈ names markup, IsOutside (p.substitution overrides name)) ∧
      p.transform overrides markup = "\x7b\x7ba-.b\x7d\x7d \x7b*|Y|*\x7d".toList ∧
      IsFree (p.transform overrides markup) ∧ names (p.transform overrides markup) = [] := by
  intro markup overrides p
  have h : ∀ name ∈ names markup, IsOutside (p.substitution overrides name) := by decide +kernel
  exact ⟨h, by decide +kernel, names_transform.1 p overrides markup h⟩

/-- An empty substitution would bring the two texts together. -/
example : names (TablePreset.mailchimp.toPreset.transform (.ofList [(['x'], [])])
    "\x7b\x7ba\x7b\x7b x \x7d\x7d.b\x7d\x7d".toList) = ["a.b".toList] := by
  decide +kernel

end MergeTag

end Mailout
