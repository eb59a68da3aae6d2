import Mailout.Preset.Fallback
import Mailout.Proofs.MergeTag.Occurrences
import Mailout.Proofs.Text.Replace
import Mailout.Proofs.Text.Words
import Mathlib.Data.List.Basic

/-!
# What a pattern makes of a variable

A pattern has places for the variable and for its capitals. `fill` fills all of them at once, so
that nothing that was put in is taken for a place. `Fallback.apply` fills the variable's places
first and then looks for places of the capitals in what has come out; the two agree unless a
variable *completes* such a place, as `NA` does in `\x7b\x7bname\x7dME\x7d` (`apply_template_iff`).

## How the two differ

Both read the pattern from left to right (`pattern_induction`). Filling at once knows three steps: a
place for the variable, a place for its capitals, and any other character. `Fallback.apply` has a
fourth one, a completed place, for which it writes the capitals without the braces
(`apply_template_completed`). Since these are a part of `NAME`, what comes out is too short then
(`apply_template_cases`).
-/

namespace Mailout.Fallback

open Text

/-! ## Filling at once -/

/-- The pattern with the variable at every place for it, and its capitals at every place for
them. -/
def fill (variableName : Text) : Text → Text
  | [] => []
  | c :: s =>
    match _h : after? namePlace (c :: s), _h' : after? upperPlace (c :: s) with
    | some rest, _ => variableName ++ fill variableName rest
    | none, some rest => upper variableName ++ fill variableName rest
    | none, none => c :: fill variableName s
termination_by s => s.length
decreasing_by
  · have hlength := after?_length _h
    have hplace : namePlace.length = 6 := by decide
    omega
  · have hlength := after?_length _h'
    have hplace : upperPlace.length = 6 := by decide
    omega
  · exact Nat.lt_succ_self _

/-- The letters between the braces of a place for the capitals. -/
def upperLetters : Text := ['N', 'A', 'M', 'E']

/-- A place for the variable between letters and braces. -/
def bracedPlace (a b : Text) : Text := '{' :: (a ++ namePlace ++ b ++ ['}'])

/-- Some place for the variable has letters around it that make a place for the capitals of it when
it is filled. -/
def Completes (variableName pattern : Text) : Prop :=
  ∃ a b : Text, a ++ variableName ++ b = upperLetters ∧ bracedPlace a b <:+: pattern

/-! ## Places -/

theorem namePlace_eq : namePlace = '{' :: ['n', 'a', 'm', 'e', '}'] := by decide

theorem upperPlace_eq : upperPlace = '{' :: (upperLetters ++ ['}']) := by decide

theorem namePlace_ne_nil : namePlace ≠ [] := by decide

theorem upperPlace_ne_nil : upperPlace ≠ [] := by decide

theorem head?_namePlace : namePlace.head? = some '{' := by decide

theorem head?_upperPlace : upperPlace.head? = some '{' := by decide

theorem not_namePlace_prefix_upperPlace (s : Text) : ¬ namePlace <+: upperPlace ++ s := by
  intro h
  rw [namePlace_eq, upperPlace_eq, List.cons_append, List.cons_prefix_cons] at h
  exact absurd (List.cons_prefix_cons.mp h.2).1 (by decide)

theorem bracedPlace_append (a b s : Text) :
    bracedPlace a b ++ s = '{' :: (a ++ (namePlace ++ (b ++ ['}'] ++ s))) := by
  simp [bracedPlace]

/-- A text without an opening brace does not reach over one that comes early. -/
theorem not_prefix_of_brace {t a x : Text} (ht : '{' ∉ t) (ha : a.length < t.length) :
    ¬ t <+: a ++ '{' :: x := by
  rintro ⟨rest, h⟩
  rcases List.append_eq_append_iff.mp h with ⟨u, rfl, -⟩ | ⟨u, rfl, hu⟩
  · rw [List.length_append] at ha
    omega
  · cases u with
    | nil =>
      rw [List.append_nil] at ha
      exact Nat.lt_irrefl _ ha
    | cons d u =>
      rw [(List.cons.inj hu).1] at ht
      exact ht (List.mem_append_right a List.mem_cons_self)

/-- No place begins where a braced one does: the second brace would lie in it. -/
theorem no_place_at_bracedPlace {a : Text} (ha : a.length ≤ 4) (b s : Text) :
    ¬ namePlace <+: bracedPlace a b ++ s ∧ ¬ upperPlace <+: bracedPlace a b ++ s := by
  have hshort {t : Text} (ht : '{' ∉ t) (hlength : t.length = 5) :
      ¬ '{' :: t <+: bracedPlace a b ++ s := by
    intro h
    rw [bracedPlace_append, namePlace_eq, List.cons_append, List.cons_prefix_cons] at h
    exact not_prefix_of_brace ht (by omega) h.2
  rw [namePlace_eq, upperPlace_eq]
  exact ⟨hshort (by decide) rfl, hshort (by decide) rfl⟩

/-! ## Variables -/

/-- An identifier is not empty and has no brace. -/
theorem brace_of_isIdentifier {name : Text} (h : isIdentifier name = true) :
    name ≠ [] ∧ '{' ∉ name ∧ '}' ∉ name := by
  have hne : ∀ c ∈ name, c ≠ '{' ∧ c ≠ '}' := fun c hc =>
    MergeTag.ne_brace_of_content (.inr (all_part_of_isIdentifier h c hc))
  refine ⟨?_, fun hm => (hne _ hm).1 rfl, fun hm => (hne _ hm).2 rfl⟩
  rintro rfl
  cases h

/-- A part of the letters `NAME` is its own capitals, and the letters around it are few and no
braces. -/
theorem part_of_upperLetters {a name b : Text} (h : a ++ name ++ b = upperLetters) :
    upper name = name ∧ '{' ∉ a ∧ '{' ∉ b ∧ a.length + name.length + b.length = 4 := by
  have hchars : ∀ c ∈ upperLetters, upperChar c = [c] := by
    simp only [upperLetters, List.forall_mem_cons]
    exact ⟨rfl, rfl, rfl, rfl, nofun⟩
  have hopen : '{' ∉ a ++ name ++ b := by rw [h]; decide
  have hlength : (a ++ name ++ b).length = 4 := by rw [h]; rfl
  rw [← h] at hchars
  simp only [List.mem_append, not_or] at hopen
  simp only [List.length_append] at hlength
  refine ⟨?_, hopen.1.1, hopen.2, hlength⟩
  calc upper name = name.flatMap fun c => [c] :=
        List.flatMap_congr fun c hc => hchars c (by simp [hc])
    _ = name := List.flatMap_singleton' name

variable {name : Text}

/-! ## Filling at once -/

@[simp] theorem fill_nil : fill name [] = [] := by rw [fill]

theorem fill_cons (c : Char) (s : Text) : fill name (c :: s) =
    match after? namePlace (c :: s), after? upperPlace (c :: s) with
    | some rest, _ => name ++ fill name rest
    | none, some rest => upper name ++ fill name rest
    | none, none => c :: fill name s := by
  rw [fill]
  split <;> simp [*]

theorem fill_namePlace (s : Text) : fill name (namePlace ++ s) = name ++ fill name s := by
  have hname := after?_append namePlace s
  have hcons : namePlace ++ s = '{' :: (['n', 'a', 'm', 'e', '}'] ++ s) := by rw [namePlace_eq]; rfl
  rw [hcons] at hname ⊢
  rw [fill_cons, hname]

theorem fill_upperPlace (s : Text) : fill name (upperPlace ++ s) = upper name ++ fill name s := by
  have hname := after?_eq_none_iff.mpr (not_namePlace_prefix_upperPlace s)
  have hupper := after?_append upperPlace s
  have hcons : upperPlace ++ s = '{' :: (upperLetters ++ ['}'] ++ s) := by rw [upperPlace_eq]; rfl
  rw [hcons] at hname hupper ⊢
  rw [fill_cons, hname, hupper]

theorem fill_literal {c : Char} {s : Text} (hname : ¬ namePlace <+: c :: s)
    (hupper : ¬ upperPlace <+: c :: s) : fill name (c :: s) = c :: fill name s := by
  rw [fill_cons, after?_eq_none_iff.mpr hname, after?_eq_none_iff.mpr hupper]

/-- A text without an opening brace stays as it is. -/
theorem fill_append_of_not_mem {t : Text} (ht : '{' ∉ t) (s : Text) :
    fill name (t ++ s) = t ++ fill name s := by
  induction t with
  | nil => rfl
  | cons c t ih =>
    rw [List.mem_cons, not_or] at ht
    rw [List.cons_append, fill_literal (not_prefix_of_head? head?_namePlace ht.1)
      (not_prefix_of_head? head?_upperPlace ht.1), ih ht.2, List.cons_append]

/-- Filled at once, a completed place is what it looks like, with its braces. -/
theorem fill_completed {a b : Text} (hab : a ++ name ++ b = upperLetters) (s : Text) :
    fill name (bracedPlace a b ++ s) = upperPlace ++ fill name s := by
  obtain ⟨-, ha, hb, hlength⟩ := part_of_upperLetters hab
  have hclose : '{' ∉ b ++ ['}'] := by simpa using hb
  have hstart := no_place_at_bracedPlace (a := a) (by omega) b s
  rw [bracedPlace_append] at hstart ⊢
  rw [fill_literal hstart.1 hstart.2, fill_append_of_not_mem ha, fill_namePlace,
    fill_append_of_not_mem hclose, upperPlace_eq, ← hab]
  simp

/-! ## One place after the other -/

theorem apply_template (pattern : Text) : (template pattern).apply name
    = replaceAll upperPlace (upper name) (replaceAll namePlace name pattern) := rfl

theorem apply_template_nil : (template []).apply name = [] := by
  rw [apply_template, replaceAll_nil namePlace_ne_nil, replaceAll_nil upperPlace_ne_nil]

theorem apply_template_namePlace (hopen : '{' ∉ name) (s : Text) :
    (template (namePlace ++ s)).apply name = name ++ (template s).apply name := by
  rw [apply_template, replaceAll_append_needle namePlace_ne_nil,
    replaceAll_append_of_not_mem head?_upperPlace hopen, apply_template]

/-- What the first step leaves of a place for the capitals. -/
theorem replaceAll_upperPlace (s : Text) : replaceAll namePlace name (upperPlace ++ s)
    = upperPlace ++ replaceAll namePlace name s := by
  have hname := not_namePlace_prefix_upperPlace s
  have hopen : '{' ∉ upperLetters ++ ['}'] := by decide
  rw [upperPlace_eq, List.cons_append] at hname ⊢
  rw [replaceAll_cons namePlace_ne_nil hname, replaceAll_append_of_not_mem head?_namePlace hopen]
  rfl

theorem apply_template_upperPlace (s : Text) :
    (template (upperPlace ++ s)).apply name = upper name ++ (template s).apply name := by
  rw [apply_template, replaceAll_upperPlace, replaceAll_append_needle upperPlace_ne_nil,
    apply_template]

/-- The first step completes a place for the capitals. -/
theorem replaceAll_completed {a b : Text} (hab : a ++ name ++ b = upperLetters) (s : Text) :
    replaceAll namePlace name (bracedPlace a b ++ s)
      = upperPlace ++ replaceAll namePlace name s := by
  obtain ⟨-, ha, hb, hlength⟩ := part_of_upperLetters hab
  have hclose : '{' ∉ b ++ ['}'] := by simpa using hb
  have hstart := (no_place_at_bracedPlace (a := a) (by omega) b s).1
  rw [bracedPlace_append] at hstart ⊢
  rw [replaceAll_cons namePlace_ne_nil hstart, replaceAll_append_of_not_mem head?_namePlace ha,
    replaceAll_append_needle namePlace_ne_nil, replaceAll_append_of_not_mem head?_namePlace hclose,
    upperPlace_eq, ← hab]
  simp

/-- **A completed place becomes the variable's capitals**, without its braces. -/
theorem apply_template_completed {a b : Text} (hab : a ++ name ++ b = upperLetters) (s : Text) :
    (template (bracedPlace a b ++ s)).apply name = upper name ++ (template s).apply name := by
  rw [apply_template, replaceAll_completed hab, replaceAll_append_needle upperPlace_ne_nil,
    apply_template]

/-- What the first step puts in front of a closing brace was there before, or has the variable in
it. -/
theorem prefix_replaceAll_cases (hclose : '}' ∉ name) {w s : Text}
    (h : w ++ ['}'] <+: replaceAll namePlace name s) :
    w ++ ['}'] <+: s ∨ ∃ a b s', w = a ++ name ++ b ∧ s = a ++ namePlace ++ s' ∧
      b ++ ['}'] <+: replaceAll namePlace name s' := by
  induction s generalizing w with
  | nil =>
    rw [replaceAll_nil namePlace_ne_nil, List.prefix_nil] at h
    simp at h
  | cons c s ih =>
    by_cases hplace : namePlace <+: c :: s
    · right
      obtain ⟨s', hs'⟩ := hplace
      rw [← hs', replaceAll_append_needle namePlace_ne_nil] at h
      -- the variable ends in front of the closing brace
      obtain ⟨rest, hrest⟩ := h
      have hname : name <+: w ++ '}' :: rest := ⟨replaceAll namePlace name s', by simp [← hrest]⟩
      obtain ⟨b, rfl⟩ := prefix_of_not_mem hclose hname
      refine ⟨[], b, s', rfl, hs'.symm, rest, ?_⟩
      rw [List.append_assoc, List.append_assoc, List.append_right_inj] at hrest
      rw [List.append_assoc]
      exact hrest
    · rw [replaceAll_cons namePlace_ne_nil hplace] at h
      cases w with
      | nil =>
        left
        obtain ⟨rfl, -⟩ := List.cons_prefix_cons.mp h
        exact ⟨s, rfl⟩
      | cons d w =>
        obtain ⟨rfl, htail⟩ := List.cons_prefix_cons.mp h
        rcases ih htail with hs | ⟨a, b, s', rfl, rfl, hb⟩
        · exact .inl (List.cons_prefix_cons.mpr ⟨rfl, hs⟩)
        · exact .inr ⟨d :: a, b, s', rfl, rfl, hb⟩

/-- The letters `NAME` are all different, so the variable is in them once. -/
theorem not_twice_in_upperLetters (hne : name ≠ []) (a b c : Text) :
    a ++ name ++ (b ++ name ++ c) ≠ upperLetters := by
  intro h
  have hnodup : (a ++ name ++ (b ++ name ++ c)).Nodup := by rw [h]; decide
  obtain ⟨d, name, rfl⟩ := List.exists_cons_of_ne_nil hne
  exact (List.nodup_append.mp hnodup).2.2 d (by simp) d (by simp) rfl

/-- A character is passed where there is no place and none is completed. -/
theorem apply_template_literal (hne : name ≠ []) (hclose : '}' ∉ name) {c : Char} {s : Text}
    (hname : ¬ namePlace <+: c :: s) (hupper : ¬ upperPlace <+: c :: s)
    (hbraced : ∀ a b, a ++ name ++ b = upperLetters → ¬ bracedPlace a b <+: c :: s) :
    (template (c :: s)).apply name = c :: (template s).apply name := by
  have hfirst : ¬ upperPlace <+: c :: replaceAll namePlace name s := by
    intro h
    rw [upperPlace_eq, List.cons_prefix_cons] at h
    obtain ⟨rfl, hletters⟩ := h
    rcases prefix_replaceAll_cases hclose hletters with hs | ⟨a, b, s', hab, rfl, hb⟩
    · rw [upperPlace_eq] at hupper
      exact hupper (List.cons_prefix_cons.mpr ⟨rfl, hs⟩)
    · rcases prefix_replaceAll_cases hclose hb with ⟨rest, hs⟩ | ⟨a', b', s'', rfl, -, -⟩
      · exact hbraced a b hab.symm ⟨rest, by simp [bracedPlace, ← hs]⟩
      · exact not_twice_in_upperLetters hne a a' b' hab.symm
  rw [apply_template, replaceAll_cons namePlace_ne_nil hname,
    replaceAll_cons upperPlace_ne_nil hfirst, apply_template]

/-! ## Reading a pattern -/

/-- A pattern is empty, or begins with a place, with one that the variable completes, or with
another character. -/
@[elab_as_elim]
theorem pattern_induction (name : Text) {motive : Text → Prop} (nil : motive [])
    (variablePlace : ∀ s, motive s → motive (namePlace ++ s))
    (capitalsPlace : ∀ s, motive s → motive (upperPlace ++ s))
    (completed : ∀ a b s, a ++ name ++ b = upperLetters → motive s → motive (bracedPlace a b ++ s))
    (literal : ∀ c s, ¬ namePlace <+: c :: s → ¬ upperPlace <+: c :: s →
      (∀ a b, a ++ name ++ b = upperLetters → ¬ bracedPlace a b <+: c :: s) → motive s →
      motive (c :: s)) (pattern : Text) : motive pattern := by
  induction hn : pattern.length using Nat.strongRecOn generalizing pattern with
  | _ n ih =>
    have hrest {p s : Text} (hp : p ≠ []) (hs : p ++ s = pattern) : motive s := by
      refine ih s.length ?_ s rfl
      have hlength := List.length_pos_iff.mpr hp
      rw [← hn, ← hs, List.length_append]
      omega
    cases pattern with
    | nil => exact nil
    | cons c s =>
      by_cases hname : namePlace <+: c :: s
      · obtain ⟨s', hs'⟩ := hname
        rw [← hs']
        exact variablePlace s' (hrest namePlace_ne_nil hs')
      by_cases hupper : upperPlace <+: c :: s
      · obtain ⟨s', hs'⟩ := hupper
        rw [← hs']
        exact capitalsPlace s' (hrest upperPlace_ne_nil hs')
      by_cases hbraced : ∃ a b, a ++ name ++ b = upperLetters ∧ bracedPlace a b <+: c :: s
      · obtain ⟨a, b, hab, s', hs'⟩ := hbraced
        rw [← hs']
        exact completed a b s' hab (hrest (List.cons_ne_nil _ _) hs')
      · refine literal c s hname hupper (fun a b hab h => hbraced ⟨a, b, hab, h⟩) ?_
        exact hrest (List.cons_ne_nil c []) rfl

/-- Behind a place a pattern completes what it completes with it. -/
theorem completes_append {p s : Text} {u : Text} (hp : p = '{' :: u) (hu : '{' ∉ u)
    (hstart : ∀ a b r, a.length ≤ 4 → ¬ p <+: bracedPlace a b ++ r) :
    Completes name (p ++ s) ↔ Completes name s := by
  refine exists_congr fun a => exists_congr fun b => and_congr_right fun hab => ?_
  have hlength := (part_of_upperLetters hab).2.2.2
  have hnot : ¬ bracedPlace a b <+: p ++ s := by
    rintro ⟨r, hr⟩
    exact hstart a b r (by omega) ⟨s, hr.symm⟩
  rw [hp, List.cons_append] at hnot ⊢
  rw [List.infix_cons_iff, or_iff_right hnot, infix_append_of_not_mem rfl hu]

/-- **A pattern that the variable completes comes out too short; any other one is filled at
once.** -/
theorem apply_template_cases (h : isIdentifier name = true) (pattern : Text) :
    (Completes name pattern ∧
      ((template pattern).apply name).length < (fill name pattern).length) ∨
    (¬ Completes name pattern ∧ (template pattern).apply name = fill name pattern) := by
  obtain ⟨hne, hopen, hclose⟩ := brace_of_isIdentifier h
  induction pattern using pattern_induction name with
  | nil =>
    refine .inr ⟨?_, by rw [apply_template_nil, fill_nil]⟩
    rintro ⟨a, b, -, hinfix⟩
    cases List.infix_nil.mp hinfix
  | variablePlace s ih =>
    rw [completes_append namePlace_eq (by decide) fun a b r ha => (no_place_at_bracedPlace ha b r).1,
      apply_template_namePlace hopen, fill_namePlace, List.append_right_inj, List.length_append,
      List.length_append, Nat.add_lt_add_iff_left]
    exact ih
  | capitalsPlace s ih =>
    rw [completes_append upperPlace_eq (by decide) fun a b r ha => (no_place_at_bracedPlace ha b r).2,
      apply_template_upperPlace, fill_upperPlace, List.append_right_inj, List.length_append,
      List.length_append, Nat.add_lt_add_iff_left]
    exact ih
  | completed a b s hab ih =>
    refine .inl ⟨⟨a, b, hab, (List.prefix_append _ s).isInfix⟩, ?_⟩
    obtain ⟨hupper, -, -, hlength⟩ := part_of_upperLetters hab
    have hplace : upperPlace.length = 6 := by decide
    have hle : ((template s).apply name).length ≤ (fill name s).length := by
      rcases ih with ⟨-, hlt⟩ | ⟨-, heq⟩
      · exact Nat.le_of_lt hlt
      · exact Nat.le_of_eq (congrArg List.length heq)
    rw [apply_template_completed hab, fill_completed hab, hupper, List.length_append,
      List.length_append]
    omega
  | literal c s hname hupper hbraced ih =>
    have hcompletes : Completes name (c :: s) ↔ Completes name s := by
      refine exists_congr fun a => exists_congr fun b => and_congr_right fun hab => ?_
      rw [List.infix_cons_iff, or_iff_right (hbraced a b hab)]
    rw [hcompletes, apply_template_literal hne hclose hname hupper hbraced,
      fill_literal hname hupper, List.cons_inj_right, List.length_cons, List.length_cons,
      Nat.add_lt_add_iff_right]
    exact ih

/-! ## When a pattern is filled at once -/

/-- **A pattern is filled at once** if and only if the variable completes no place for the capitals
in it. -/
theorem apply_template_iff (h : isIdentifier name = true) (pattern : Text) :
    (template pattern).apply name = fill name pattern ↔ ¬ Completes name pattern := by
  rcases apply_template_cases h pattern with ⟨hcompletes, hlt⟩ | ⟨hcompletes, heq⟩
  · refine iff_of_false (fun heq => ?_) (fun hnot => hnot hcompletes)
    rw [heq] at hlt
    exact Nat.lt_irrefl _ hlt
  · exact iff_of_true heq hcompletes

/-- A place in three pairs of braces, and one for the capitals. -/
theorem apply_template_iff_city :
    let pattern := ['{', '{'] ++ namePlace ++ ['}', '}', '/'] ++ upperPlace
    isIdentifier "city".toList = true ∧
      (template pattern).apply "city".toList = "\x7b\x7bcity\x7d\x7d/CITY".toList ∧
      ¬ Completes "city".toList pattern := by
  intro pattern
  have h : isIdentifier "city".toList = true := by decide
  have hfill : (template pattern).apply "city".toList = fill "city".toList pattern := by
    decide +kernel
  exact ⟨h, by decide +kernel, (apply_template_iff h pattern).mp hfill⟩

/-- The same place, filled with a variable that is called like the place for the capitals, loses a
pair of braces. -/
theorem not_apply_template_capitals :
    let pattern := ['{', '{'] ++ namePlace ++ ['}', '}']
    isIdentifier upperLetters = true ∧
      fill upperLetters pattern = "\x7b\x7bNAME\x7d\x7d".toList ∧
      handlebars.apply upperLetters = "\x7b\x7bNAME\x7d\x7d".toList ∧
      (template pattern).apply upperLetters = "\x7bNAME\x7d".toList := by
  decide +kernel

end Mailout.Fallback
