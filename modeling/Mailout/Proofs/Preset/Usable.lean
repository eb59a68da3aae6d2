import Mailout.Proofs.Preset.RoundTrip
import Mailout.Proofs.Preset.Template

/-!
# What the check of a table is good for

A table that passes its check writes something for every variable, and a variable that it does not
know can be read off what is written: it stands there itself, or its capitals do. For a pattern this
rests on two replacements, one after the other. The second may take away what the first has put in,
and then it puts in the capitals.

## Main statements

* `isFixed_eq_false_iff` — the check refuses the patterns that do not write every variable like
  that, and no others;
* `usable_of_accepted` — what a table writes that passes the check.
-/

namespace Mailout

open Text Fallback

namespace TablePreset

/-! ## Rules -/

theorem isFixed_template_iff {pattern : Text} :
    isFixed (.template pattern) = true ↔ ¬ namePlace <:+: pattern ∧ ¬ upperPlace <:+: pattern := by
  simp only [isFixed, Bool.and_eq_true, Bool.not_eq_true', ← Bool.not_eq_true, contains_iff]

/-- A fixed rule writes its pattern. -/
theorem apply_of_isFixed {pattern : Text} (h : isFixed (.template pattern) = true) (v : Text) :
    (template pattern).apply v = pattern := by
  obtain ⟨hname, hupper⟩ := isFixed_template_iff.mp h
  rw [apply, replaceAll_eq_self namePlace_ne_nil hname, replaceAll_eq_self upperPlace_ne_nil hupper]

/-- A rule that is not fixed writes the variable or its capitals. -/
theorem infix_apply {rule : Fallback} (h : isFixed rule = false) (v : Text) :
    v <:+: rule.apply v ∨ upper v <:+: rule.apply v := by
  cases rule with
  | pipeUpper => exact .inr ⟨['*', '|'], ['|', '*'], rfl⟩
  | handlebars => exact .inl ⟨['{', '{'], ['}', '}'], rfl⟩
  | contactAttribute => exact .inr ⟨['{', '{'] ++ " contact.".toList, [' ', '}', '}'], rfl⟩
  | template pattern =>
    by_cases hupper : upperPlace <:+: replaceAll namePlace v pattern
    · exact .inr (infix_replaceAll upperPlace_ne_nil hupper)
    · -- the second replacement does nothing, so the first one is seen in the end
      have happly : (template pattern).apply v = replaceAll namePlace v pattern :=
        replaceAll_eq_self upperPlace_ne_nil hupper
      by_cases hname : namePlace <:+: pattern
      · rw [happly]
        exact .inl (infix_replaceAll namePlace_ne_nil hname)
      · rw [replaceAll_eq_self namePlace_ne_nil hname] at hupper
        rw [isFixed_template_iff.mpr ⟨hname, hupper⟩] at h
        cases h

/-- **The check of a rule is exact**: the rules that it refuses are those that write some variable
so that neither the variable nor its capitals stand there. -/
theorem isFixed_eq_false_iff {rule : Fallback} :
    isFixed rule = false ↔
      ∀ v, isIdentifier v = true → v <:+: rule.apply v ∨ upper v <:+: rule.apply v := by
  refine ⟨fun h v _ => infix_apply h v, fun h => Bool.eq_false_iff.mpr fun hfixed => ?_⟩
  cases rule with
  | template pattern =>
    -- a variable that is longer than the pattern
    let v : Text := 'a' :: List.replicate pattern.length 'a'
    have hv : isIdentifier v = true := by
      have hstart : isIdentifierStart 'a' = true := by decide
      have hpart : isIdentifierPart 'a' = true := by decide
      simp [v, isIdentifier, hstart, hpart]
    have hlong : pattern.length < v.length := by simp [v]
    have hupper := length_le_length_upper v
    rcases h v hv with hin | hin
    all_goals
      rw [apply_of_isFixed hfixed] at hin
      have hlength := hin.length_le
      omega
  | _ => cases hfixed

/-! ## Tables -/

/-- A variable can be used: it is written as something, and if the table does not know it then so
that it or its capitals stand there. -/
def Usable (t : TablePreset) (v : Text) : Prop :=
  t.transformTag v ≠ [] ∧
    (v ∉ t.knownTags.keys → v <:+: t.transformTag v ∨ upper v <:+: t.transformTag v)

theorem transformTag_of_not_mem {t : TablePreset} {v : Text} (h : v ∉ t.knownTags.keys) :
    t.transformTag v = t.fallback.apply v := by
  rw [Dictionary.mem_keys_iff, Dictionary.contains, Bool.not_eq_true, Option.isSome_eq_false_iff,
    Option.isNone_iff_eq_none] at h
  rw [transformTag, h]
  rfl

theorem usable_of_validate? {t : TablePreset} (h : t.validate? = none) {v : Text} (hv : v ≠ []) :
    t.Usable v := by
  obtain ⟨-, -, hliterals, hfixed, -⟩ := validate?_eq_none_iff.mp h
  have hinfix := infix_apply hfixed v
  refine ⟨?_, fun hunknown => by rwa [transformTag_of_not_mem hunknown]⟩
  rw [transformTag]
  cases hknown : t.knownTags.get? v with
  | some literal => exact hliterals _ (Dictionary.mem_entries_of_get? hknown)
  | none =>
    have hlength := List.length_pos_iff.mpr hv
    have hupper := length_le_length_upper v
    refine List.ne_nil_of_length_pos ?_
    rcases hinfix with hin | hin
    all_goals
      have hle := hin.length_le
      show 0 < (t.fallback.apply v).length
      omega

end TablePreset

/-- What is described is the table with what the description says. -/
theorem PresetDescription.build_eq (d : PresetDescription) :
    d.build = ⟨d.id, d.name, d.knownTags, d.fallback, d.steps⟩ :=
  build_ofTable ⟨d.id, d.name, d.knownTags, d.fallback, d.steps⟩

namespace TablePreset

/-- **A table that passes its check can be used for every variable**, and so can what is made of a
description that passes it. -/
theorem usable_of_accepted {v : Text} (hv : v ≠ []) :
    (∀ t : TablePreset, t.validate? = none → t.Usable v) ∧
    (∀ d : PresetDescription, d.build.validate? = none →
      ∃ t, d.toTable = .ok t ∧ t.knownTags = d.knownTags ∧ t.Usable v) := by
  refine ⟨fun t h => usable_of_validate? h hv, fun d h => ⟨d.build, ?_, ?_, usable_of_validate? h hv⟩⟩
  · rw [PresetDescription.toTable, checked, h]
    rfl
  · rw [d.build_eq]

/-- The first replacement puts `NA` between braces, and the second one puts the capitals in their
place. -/
theorem usable_of_accepted_completed :
    let d : PresetDescription :=
      { id := "acme".toList, name := "Acme".toList
        fallback := .template ("[[".toList ++ bracedPlace [] ['M', 'E'] ++ "]]".toList) }
    isIdentifier "NA".toList = true ∧ d.build.validate? = none ∧
      d.build.transformTag "NA".toList = "[[NA]]".toList ∧ d.build.Usable "NA".toList ∧
      ∃ t, d.toTable = .ok t ∧ t.knownTags = d.knownTags ∧ t.Usable "NA".toList := by
  intro d
  have hcheck : d.build.validate? = none := by decide +kernel
  obtain ⟨htables, hdescriptions⟩ := usable_of_accepted (v := "NA".toList) (by decide)
  exact ⟨by decide, hcheck, by decide +kernel, htables _ hcheck, hdescriptions d hcheck⟩

end TablePreset

end Mailout
