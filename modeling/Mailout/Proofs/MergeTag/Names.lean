import Mailout.Preset.Builtin
import Mailout.Proofs.MergeTag.Cut
import Mathlib.Algebra.Order.BigOperators.Group.List
import Mathlib.Algebra.Order.Ring.Nat

/-!
# The variables that a replaced text depends on

`names` lists the variables of a text, each once, in the order in which their first tags stand. Of
presets and overrides nothing else has a part in replacing: where two of them agree on the list, the
replaced texts are the same. No name on the list can be left out, since a longer substitution for it
makes a longer text.

## Main statements

* `pairwise_names` — the order of the list;
* `transform_congr` — presets and overrides count on the list only;
* `length_transform_lt` — each name on the list counts;
* `names_exact` — all of it, for callers who ask for the list before they write overrides.
-/

namespace Mailout.MergeTag

open Text

variable {places : List Occurrence} {v w : Text}

/-! ## The order of first appearance -/

/-- Some place of the variable `v` begins in front of every place of the variable `w`. -/
def AppearsBefore (places : List Occurrence) (v w : Text) : Prop :=
  ∃ o ∈ places, o.name = v ∧ ∀ o' ∈ places, o'.name = w → o.start < o'.start

theorem AppearsBefore.ne (h : AppearsBefore places v w) : v ≠ w := by
  obtain ⟨o, ho, rfl, hbefore⟩ := h
  intro he
  exact Nat.lt_irrefl _ (hbefore o ho he)

/-- One more place behind the others does not change what appears before what. -/
theorem AppearsBefore.concat {last : Occurrence} (h : AppearsBefore places v w)
    (hlast : ∀ o ∈ places, o.start < last.start) : AppearsBefore (places ++ [last]) v w := by
  obtain ⟨o, ho, hv, hbefore⟩ := h
  refine ⟨o, List.mem_append_left _ ho, hv, ?_⟩
  intro o' ho' hw
  rcases List.mem_append.mp ho' with ho' | ho'
  · exact hbefore o' ho' hw
  · rw [List.mem_singleton.mp ho']
    exact hlast o ho

/-- A variable that has a place appears before one that has its first place behind all others. -/
theorem appearsBefore_last {last : Occurrence} (hv : v ∈ places.map Occurrence.name)
    (hw : last.name ∉ places.map Occurrence.name) (hlast : ∀ o ∈ places, o.start < last.start) :
    AppearsBefore (places ++ [last]) v last.name := by
  obtain ⟨o, ho, rfl⟩ := List.mem_map.mp hv
  refine ⟨o, List.mem_append_left _ ho, rfl, ?_⟩
  intro o' ho' hname
  rcases List.mem_append.mp ho' with ho' | ho'
  · exact absurd (List.mem_map.mpr ⟨o', ho', hname⟩) hw
  · rw [List.mem_singleton.mp ho']
    exact hlast o ho

/-- One more entry is kept if it is not there yet. -/
theorem eraseDups_concat (names : List Text) (v : Text) :
    (names ++ [v]).eraseDups = if v ∈ names then names.eraseDups else names.eraseDups ++ [v] := by
  rw [List.eraseDups_append]
  by_cases hv : v ∈ names
  · rw [if_pos hv]
    simp [List.removeAll, hv]
  · rw [if_neg hv]
    simp [List.removeAll, List.eraseDups_cons, hv]

/-- **Names without repetitions stand in the order of their first places**, if the places go from
left to right. -/
theorem pairwise_eraseDups (h : places.Pairwise fun a b => a.start < b.start) :
    (places.map Occurrence.name).eraseDups.Pairwise (AppearsBefore places) := by
  induction places using List.reverseRecOn with
  | nil => exact List.Pairwise.nil
  | append_singleton places last ih =>
    obtain ⟨hplaces, -, hbehind⟩ := List.pairwise_append.mp h
    have hlast : ∀ o ∈ places, o.start < last.start := fun o ho =>
      hbehind o ho last (List.mem_singleton_self last)
    have hfront := (ih hplaces).imp fun hvw => AppearsBefore.concat hvw hlast
    rw [List.map_append, List.map_singleton, eraseDups_concat]
    by_cases hm : last.name ∈ places.map Occurrence.name
    · rw [if_pos hm]
      exact hfront
    · rw [if_neg hm]
      refine List.pairwise_append.mpr ⟨hfront, List.pairwise_singleton _ _, ?_⟩
      intro v hv w hw
      rw [List.mem_singleton.mp hw]
      exact appearsBefore_last (List.mem_eraseDups.mp hv) hm hlast

/-- **The names of a text stand in the order of their first tags.** -/
theorem pairwise_names (s : Text) : (names s).Pairwise (AppearsBefore (occurrences s)) := by
  have hplaces : (occurrences s).Pairwise fun a b => a.start < b.start :=
    (occurrencesFrom_pairwise s 0).2.imp fun {a b} h => by omega
  exact pairwise_eraseDups hplaces

/-! ## What replacing depends on -/

variable {p q : Preset} {overrides overrides' : Dictionary Text} {s : Text}

/-- **Presets and overrides that agree on the names of a text** make the same of it. -/
theorem transform_congr
    (h : ∀ name ∈ names s, p.substitution overrides name = q.substitution overrides' name) :
    p.transform overrides s = q.transform overrides' s := by
  rw [transform_eq, transform_eq, List.append_right_inj]
  refine List.flatMap_congr ?_
  rintro ⟨t, gap⟩ hpiece
  show p.substitution overrides t.name ++ gap = q.substitution overrides' t.name ++ gap
  rw [h t.name (mem_names_iff.mpr ⟨_, hpiece, rfl⟩)]

/-- **A name's substitution counts**: if it is longer and no other one is shorter, so is the
text. -/
theorem length_transform_lt
    (hle : ∀ name ∈ names s,
      (p.substitution overrides name).length ≤ (q.substitution overrides' name).length)
    (hlt : ∃ name ∈ names s,
      (p.substitution overrides name).length < (q.substitution overrides' name).length) :
    (p.transform overrides s).length < (q.transform overrides' s).length := by
  rw [transform_eq, transform_eq, List.length_append, List.length_append, List.length_flatMap,
    List.length_flatMap]
  refine Nat.add_lt_add_left (List.sum_lt_sum _ _ ?_ ?_) _
  · rintro ⟨t, gap⟩ hpiece
    have ht := hle t.name (mem_names_iff.mpr ⟨_, hpiece, rfl⟩)
    simp only [List.length_append]
    omega
  · obtain ⟨name, hname, hlt⟩ := hlt
    obtain ⟨⟨t, gap⟩, hpiece, ht⟩ := mem_names_iff.mp hname
    obtain rfl : t.name = name := ht
    refine ⟨(t, gap), hpiece, ?_⟩
    simp only [List.length_append]
    omega

/-- What an override does to the substitution of a name: it is the one for its own name. -/
theorem substitution_insert (p : Preset) (overrides : Dictionary Text) (k name text : Text) :
    p.substitution (overrides.insert k text) name
      = if name = k then text else p.substitution overrides name := by
  unfold Preset.substitution
  rw [Dictionary.get?_insert]
  by_cases hname : name = k
  · rw [if_pos hname, if_pos hname, Option.getD_some]
  · rw [if_neg hname, if_neg hname]

theorem transform_insert_of_not_mem {name : Text} (h : name ∉ names s) (text : Text) :
    p.transform (overrides.insert name text) s = p.transform overrides s := by
  refine transform_congr fun k hk => ?_
  have hne : k ≠ name := fun he => h (he ▸ hk)
  rw [substitution_insert, if_neg hne]

/-- An override for a name of the text can be seen in what is made of the text. -/
theorem transform_insert_ne {name : Text} (h : name ∈ names s) :
    p.transform ((overrides.insert name []).insert name ['-']) s
      ≠ p.transform (overrides.insert name []) s := by
  have hlt : (p.transform (overrides.insert name []) s).length
      < (p.transform ((overrides.insert name []).insert name ['-']) s).length := by
    refine length_transform_lt (fun k _ => ?_) ⟨name, h, ?_⟩
    · rw [substitution_insert p (overrides.insert name [])]
      by_cases hk : k = name
      · rw [if_pos hk, hk, substitution_insert, if_pos rfl]
        exact Nat.zero_le _
      · rw [if_neg hk]
    · rw [substitution_insert p (overrides.insert name []), substitution_insert, if_pos rfl,
        if_pos rfl]
      exact Nat.zero_lt_one
  intro he
  rw [he] at hlt
  exact Nat.lt_irrefl _ hlt

/-! ## The list is what replacing depends on -/

/-- **The list of names is exact.** It has the variables of the listed tags, each once and in the
order of their first tags. Where two presets with their overrides resolve the names on the list to
the same texts, they make the same of the markup. A name is not on the list if and only if an
override for it never has an effect. -/
theorem names_exact (s : Text) :
    (names s).Nodup ∧ (∀ name, name ∈ names s ↔ ∃ o ∈ occurrences s, o.name = name) ∧
      (names s).Pairwise (AppearsBefore (occurrences s)) ∧
      (∀ (p q : Preset) (overrides overrides' : Dictionary Text),
        (∀ name ∈ names s, (overrides.get? name).getD (p.transformTag name)
          = (overrides'.get? name).getD (q.transformTag name)) →
        p.transform overrides s = q.transform overrides' s) ∧
      ∀ name, name ∉ names s ↔ ∀ (p : Preset) (overrides : Dictionary Text) (text : Text),
        p.transform (overrides.insert name text) s = p.transform overrides s := by
  have hnodup : (names s).Nodup := (pairwise_names s).imp AppearsBefore.ne
  refine ⟨hnodup, fun name => ?_, pairwise_names s, fun p q overrides overrides' => transform_congr,
    fun name => ⟨fun h p overrides text => transform_insert_of_not_mem h text, ?_⟩⟩
  · rw [names, List.mem_eraseDups, List.mem_map]
  · intro h hname
    exact transform_insert_ne hname
      (h ⟨[], [], id, fun html => (html, [])⟩ (Dictionary.insert {} name []) ['-'])

/-- Two presets that write `b` alike, one of them with an override for `a.c` and the other with
overrides for names that are not on the list: another case of `b`, and a part of `a.c`. -/
theorem names_exact_lookalikes :
    let s := double " b " ++ [' '] ++ double "a.c" ++ double "b"
    let p := TablePreset.handlebars.toPreset
    let q := TablePreset.sendgrid.toPreset
    let overrides : Dictionary Text := .ofList [("a.c".toList, double "a.c")]
    let overrides' : Dictionary Text := .ofList [("B".toList, ['1']), ("a".toList, ['2'])]
    names s = [['b'], "a.c".toList] ∧
      (∀ name ∈ names s, (overrides.get? name).getD (p.transformTag name)
        = (overrides'.get? name).getD (q.transformTag name)) ∧
      p.transform overrides s = q.transform overrides' s ∧
      q.transform overrides' s = double "b" ++ [' '] ++ double "a.c" ++ double "b" := by
  intro s p q overrides overrides'
  have h : ∀ name ∈ names s, (overrides.get? name).getD (p.transformTag name)
      = (overrides'.get? name).getD (q.transformTag name) := by decide +kernel
  exact ⟨by decide +kernel, h, (names_exact s).2.2.2.1 p q overrides overrides' h,
    by decide +kernel⟩

end Mailout.MergeTag
