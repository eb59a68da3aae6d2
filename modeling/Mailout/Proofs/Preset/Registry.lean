import Mailout.Preset.Builtin
import Mailout.Proofs.Text.ByteOrder
import Mathlib.Data.List.Induction
import Mathlib.Data.List.Sort

/-!
# What a registry answers

A registry is made by registering presets one after the other. What it answers depends on this
history alone, and of the history on the last preset with each identifier (`Answers`). One more
preset is the step (`get?_register`, `isLast_concat`); a whole history is taken from its end.

## Main statements

* `answers_registerAll` — a registry answers for its history;
* `registerAll_swap` — presets with different identifiers may change places;
* `registerAll_exact` — what is answered after registrations in the empty registry or in the
  built-in one.
-/

namespace Mailout

open Text

/-! ## Dictionaries with the same values -/

namespace Dictionary

variable {β : Type}

/-- An entry is what is read. -/
theorem get?_of_mem_entries {d : Dictionary β} {k : Text} {v : β} (h : (k, v) ∈ d.entries) :
    d.get? k = some v := by
  obtain ⟨entries, hsorted⟩ := d
  show entries.lookup k = some v
  induction entries with
  | nil => cases h
  | cons e entries ih =>
    obtain ⟨hfirst, hrest⟩ := List.pairwise_cons.mp hsorted
    rcases List.mem_cons.mp h with rfl | h
    · rw [List.lookup_cons, beq_self_eq_true]
    · have hne : (k == e.1) = false :=
        beq_eq_false_iff_ne.mpr fun hk => List.lt_irrefl k (hk ▸ hfirst (k, v) h)
      rw [List.lookup_cons, hne]
      exact ih hrest h

/-- **A dictionary is known by its values.** -/
theorem ext_get? {d e : Dictionary β} (h : ∀ k, d.get? k = e.get? k) : d = e := by
  have hirrefl : Std.Irrefl fun a b : Text × β => a.1 < b.1 := ⟨fun a => List.lt_irrefl a.1⟩
  have hantisymm : Std.Antisymm fun a b : Text × β => a.1 < b.1 :=
    ⟨fun a b hab hba => absurd hba (List.lt_asymm hab)⟩
  refine ext_entries (List.Pairwise.eq_of_mem_iff d.sorted e.sorted ?_)
  rintro ⟨k, v⟩
  constructor
  · intro hmem
    exact mem_entries_of_get? (h k ▸ get?_of_mem_entries hmem)
  · intro hmem
    exact mem_entries_of_get? (h k ▸ get?_of_mem_entries hmem)

end Dictionary

namespace PresetRegistry

/-! ## The last preset with an identifier -/

/-- The preset is the last one of the history that has the identifier. -/
def IsLast (history : List Preset) (id : Text) (p : Preset) : Prop :=
  ∃ front back, history = front ++ p :: back ∧ p.id = id ∧ ∀ q ∈ back, q.id ≠ id

/-- The identifier is that of a preset of the history. -/
def IsKnown (history : List Preset) (id : Text) : Prop := ∃ p ∈ history, p.id = id

theorem not_isLast_nil {id : Text} {p : Preset} : ¬ IsLast [] id p := by
  rintro ⟨front, back, h, -, -⟩
  exact List.append_ne_nil_of_right_ne_nil front (List.cons_ne_nil p back) h.symm

/-- **The preset that is registered last** counts for its identifier and for no other. -/
theorem isLast_concat {history : List Preset} {p q : Preset} {id : Text} :
    IsLast (history ++ [p]) id q ↔ if id = p.id then p = q else IsLast history id q := by
  constructor
  · rintro ⟨front, back, hhistory, hq, hback⟩
    rcases back.eq_nil_or_concat with rfl | ⟨back, b, rfl⟩
    · obtain rfl : p = q := (List.cons.inj (List.append_inj' hhistory rfl).2).1
      rw [if_pos hq.symm]
    · rw [List.concat_eq_append, ← List.cons_append, ← List.append_assoc] at hhistory
      obtain ⟨rfl, hp⟩ := List.append_inj' hhistory rfl
      obtain rfl : p = b := (List.cons.inj hp).1
      rw [List.concat_eq_append, List.forall_mem_append] at hback
      rw [if_neg fun hid => hback.2 p (List.mem_singleton_self p) hid.symm]
      exact ⟨front, back, rfl, hq, hback.1⟩
  · intro h
    split at h
    · next hid =>
      subst h
      exact ⟨history, [], rfl, hid.symm, nofun⟩
    · next hid =>
      obtain ⟨front, back, rfl, hq, hback⟩ := h
      refine ⟨front, back ++ [p], by simp, hq, ?_⟩
      rw [List.forall_mem_append]
      exact ⟨hback, fun b hb hbid => hid (by rw [← hbid, List.mem_singleton.mp hb])⟩

theorem isKnown_concat {history : List Preset} {p : Preset} {id : Text} :
    IsKnown (history ++ [p]) id ↔ id = p.id ∨ IsKnown history id := by
  simp only [IsKnown, List.mem_append, List.mem_singleton]
  constructor
  · rintro ⟨q, hq | rfl, rfl⟩
    · exact .inr ⟨q, hq, rfl⟩
    · exact .inl rfl
  · rintro (rfl | ⟨q, hq, rfl⟩)
    · exact ⟨p, .inr rfl, rfl⟩
    · exact ⟨q, .inl hq, rfl⟩

/-- An identifier that is known has a last preset. -/
theorem exists_isLast_iff {history : List Preset} {id : Text} :
    (∃ p, IsLast history id p) ↔ IsKnown history id := by
  induction history using List.reverseRecOn with
  | nil => simp [not_isLast_nil, IsKnown]
  | append_singleton history p ih =>
    rw [isKnown_concat, ← ih]
    simp only [isLast_concat]
    by_cases hid : id = p.id
    · simp [hid]
    · simp [hid]

/-- Later presets count before the earlier ones. -/
theorem isLast_append {start ps : List Preset} {id : Text} {p : Preset} :
    IsLast (start ++ ps) id p ↔ IsLast ps id p ∨ ¬ IsKnown ps id ∧ IsLast start id p := by
  induction ps using List.reverseRecOn with
  | nil => simp [not_isLast_nil, IsKnown]
  | append_singleton ps q ih =>
    rw [← List.append_assoc, isLast_concat, isLast_concat, isKnown_concat, ih]
    by_cases hid : id = q.id
    · simp [hid]
    · simp [hid]

/-- Where no identifier comes twice, every preset is the last one with its own. -/
theorem isLast_iff_of_nodup {history : List Preset} (h : (history.map Preset.id).Nodup) {id : Text}
    {p : Preset} : IsLast history id p ↔ p ∈ history ∧ p.id = id := by
  constructor
  · rintro ⟨front, back, rfl, hp, -⟩
    exact ⟨by simp, hp⟩
  · rintro ⟨hp, hid⟩
    obtain ⟨front, back, rfl⟩ := List.append_of_mem hp
    refine ⟨front, back, rfl, hid, ?_⟩
    intro q hq hqid
    rw [List.map_append, List.map_cons, List.nodup_append, List.nodup_cons] at h
    exact h.2.1.1 (List.mem_map.mpr ⟨q, hq, hqid.trans hid.symm⟩)

/-! ## Registering -/

theorem get?_register (r : PresetRegistry) (p : Preset) (id : Text) :
    (r.register p).get? id = if id = p.id then some p else r.get? id :=
  Dictionary.get?_insert r.presets p.id id p

theorem registerAll_append (r : PresetRegistry) (ps qs : List Preset) :
    r.registerAll (ps ++ qs) = (r.registerAll ps).registerAll qs :=
  List.foldl_append

theorem registerAll_concat (r : PresetRegistry) (ps : List Preset) (p : Preset) :
    r.registerAll (ps ++ [p]) = (r.registerAll ps).register p :=
  registerAll_append r ps [p]

/-- **What is found is the last preset of the history.** -/
theorem get?_registerAll (history : List Preset) (id : Text) (p : Preset) :
    (empty.registerAll history).get? id = some p ↔ IsLast history id p := by
  induction history using List.reverseRecOn with
  | nil => exact iff_of_false (Option.some_ne_none p).symm not_isLast_nil
  | append_singleton history q ih =>
    rw [registerAll_concat, get?_register, isLast_concat]
    split
    · exact Option.some_inj
    · exact ih

/-! ## The list of identifiers -/

theorem sorted_mergeSort (keys : List Text) :
    (keys.mergeSort fun a b => ¬ b < a).Pairwise fun a b => ¬ b < a := by
  have htrans (a b c : Text) (hab : ¬ b < a) (hbc : ¬ c < b) : ¬ c < a :=
    List.not_lt.mpr (List.le_trans (List.not_lt.mp hab) (List.not_lt.mp hbc))
  have htotal (a b : Text) : ¬ b < a ∨ ¬ a < b := by
    by_cases h : b < a
    · exact .inr (List.lt_asymm h)
    · exact .inl h
  have hsorted : (keys.mergeSort fun a b => ¬ b < a).Pairwise fun a b => decide (¬ b < a) = true :=
    List.pairwise_mergeSort (by simpa only [decide_eq_true_eq] using htrans)
      (by simpa only [Bool.or_eq_true, decide_eq_true_eq] using htotal) keys
  simpa only [decide_eq_true_eq] using hsorted

/-- Keys are put into the same order, whichever order they come in. -/
theorem ids_of_perm (r : PresetRegistry) {keys : List Text} (h : keys.Perm r.presets.keys) :
    (keys.mergeSort fun a b => ¬ b < a) = r.ids := by
  have hperm : (keys.mergeSort fun a b => ¬ b < a).Perm r.ids :=
    ((List.mergeSort_perm keys _).trans h).trans (List.mergeSort_perm r.presets.keys _).symm
  refine hperm.eq_of_pairwise ?_ (sorted_mergeSort keys) (sorted_mergeSort r.presets.keys)
  intro a b _ _ hab hba
  exact List.le_antisymm (List.not_lt.mp hab) (List.not_lt.mp hba)

/-- No identifier is listed twice, so the order is a strict one. -/
theorem ids_sorted (r : PresetRegistry) : r.ids.Pairwise (· < ·) := by
  have hkeys : r.presets.keys.Nodup := by
    refine (Dictionary.keys_sorted r.presets).imp ?_
    rintro k _ hlt rfl
    exact List.lt_irrefl k hlt
  have hnodup : r.ids.Nodup := (List.mergeSort_perm r.presets.keys _).nodup_iff.mpr hkeys
  refine (sorted_mergeSort r.presets.keys).imp₂ ?_ hnodup
  intro a b hge hne
  by_contra hlt
  exact hne (List.le_antisymm (List.not_lt.mp hge) (List.not_lt.mp hlt))

/-! ## What is answered -/

/-- What a registry answers when these presets have been registered, from the first to the last. -/
structure Answers (r : PresetRegistry) (history : List Preset) : Prop where
  get?_iff : ∀ id p, r.get? id = some p ↔ IsLast history id p
  key_eq : ∀ e ∈ r.presets.entries, e.1 = e.2.id
  contains_iff : ∀ id, r.contains id = true ↔ IsKnown history id
  /-- A name is resolved to the preset that is found under it. -/
  resolve_of_isKnown : ∀ id, IsKnown history id → ∃ p, r.get? id = some p ∧
    ∀ ε, (r.resolve (.byName id) : Except (ExportError ε) _) = .ok (p, [.resolved id p.name])
  resolve_of_not_isKnown : ∀ id, ¬ IsKnown history id → r.get? id = none ∧
    ∀ ε, (r.resolve (.byName id) : Except (ExportError ε) _)
      = .error (.presetNotFound (String.ofList id))
  resolve_literal : ∀ p ε, (r.resolve (.literal p) : Except (ExportError ε) _) = .ok (p, [])
  /-- Identifiers are listed in the order of their bytes, each once. -/
  ids_sorted : r.ids.Pairwise fun a b => utf8Bytes a < utf8Bytes b
  mem_ids_iff : ∀ id, id ∈ r.ids ↔ IsKnown history id
  /-- The list is the same in whatever order the keys are kept. -/
  ids_of_perm : ∀ keys : List Text, keys.Perm r.presets.keys →
    (keys.mergeSort fun a b => ¬ b < a) = r.ids

/-- **A registry answers for its history.** -/
theorem answers_registerAll (history : List Preset) :
    (empty.registerAll history).Answers history := by
  have hget := get?_registerAll history
  generalize empty.registerAll history = r at hget
  have hcontains (id : Text) : r.contains id = true ↔ IsKnown history id := by
    show (r.get? id).isSome = true ↔ _
    rw [← exists_isLast_iff, Option.isSome_iff_exists]
    exact exists_congr fun p => hget id p
  have hnone (id : Text) (h : ¬ IsKnown history id) : r.get? id = none := by
    refine Option.eq_none_iff_forall_ne_some.mpr ?_
    intro p hp
    exact h (exists_isLast_iff.mp ⟨p, (hget id p).mp hp⟩)
  refine ⟨hget, ?_, hcontains, ?_, ?_, fun p ε => rfl, ?_, ?_, fun keys => ids_of_perm r⟩
  · rintro ⟨id, p⟩ he
    obtain ⟨-, -, -, hid, -⟩ := (hget id p).mp (Dictionary.get?_of_mem_entries he)
    exact hid.symm
  · intro id h
    obtain ⟨p, hp⟩ := exists_isLast_iff.mpr h
    have hp := (hget id p).mpr hp
    exact ⟨p, hp, fun ε => by rw [resolve, hp]⟩
  · intro id h
    exact ⟨hnone id h, fun ε => by rw [resolve, hnone id h]⟩
  · exact (ids_sorted r).imp fun h => utf8Bytes_lt_iff.mpr h
  · intro id
    exact List.mem_mergeSort.trans ((Dictionary.mem_keys_iff r.presets id).trans (hcontains id))

/-! ## The order of registrations -/

/-- A registry is known by the presets that are found. -/
theorem ext_get? {r r' : PresetRegistry} (h : ∀ id, r.get? id = r'.get? id) : r = r' := by
  obtain ⟨presets⟩ := r
  obtain ⟨presets'⟩ := r'
  exact congrArg mk (Dictionary.ext_get? h)

theorem register_comm (r : PresetRegistry) {p q : Preset} (h : p.id ≠ q.id) :
    (r.register p).register q = (r.register q).register p := by
  refine ext_get? ?_
  intro id
  simp only [get?_register]
  by_cases hq : id = q.id
  · have hp : id ≠ p.id := fun hp => h (hp.symm.trans hq)
    rw [if_pos hq, if_neg hp, if_pos hq]
  · rw [if_neg hq, if_neg hq]

/-- A preset may be registered before others that do not have its identifier. -/
theorem registerAll_register (r : PresetRegistry) {p : Preset} {ps : List Preset}
    (h : ∀ q ∈ ps, q.id ≠ p.id) :
    (r.registerAll ps).register p = (r.register p).registerAll ps := by
  induction ps generalizing r with
  | nil => rfl
  | cons q ps ih =>
    obtain ⟨hq, hps⟩ := List.forall_mem_cons.mp h
    show ((r.register q).registerAll ps).register p = ((r.register p).register q).registerAll ps
    rw [ih (r.register q) hps, register_comm r hq]

/-- **Presets with different identifiers may change places**, also over others that have neither. -/
theorem registerAll_swap (r : PresetRegistry) {p q : Preset} {middle : List Preset}
    (hpq : p.id ≠ q.id) (hmiddle : ∀ m ∈ middle, m.id ≠ p.id ∧ m.id ≠ q.id) :
    r.registerAll (q :: middle ++ [p]) = r.registerAll (p :: middle ++ [q]) := by
  have hp : ∀ m ∈ middle, m.id ≠ p.id := fun m hm => (hmiddle m hm).1
  have hq : ∀ m ∈ middle, m.id ≠ q.id := fun m hm => (hmiddle m hm).2
  calc r.registerAll (q :: middle ++ [p])
      = ((r.register q).registerAll middle).register p := registerAll_concat r (q :: middle) p
    _ = ((r.register q).register p).registerAll middle := registerAll_register _ hp
    _ = ((r.register p).register q).registerAll middle := by rw [register_comm r hpq]
    _ = ((r.register p).registerAll middle).register q := (registerAll_register _ hq).symm
    _ = r.registerAll (p :: middle ++ [q]) := (registerAll_concat r (p :: middle) q).symm

/-! ## From the empty registry or the built-in one -/

/-- What registrations begin with. -/
inductive Origin where
  | empty
  | builtin

/-- The presets that are there from the start. -/
def Origin.presets : Origin → List Preset
  | .empty => []
  | .builtin => TablePreset.builtin.map TablePreset.toPreset

/-- The registry before any registration. -/
def Origin.registry : Origin → PresetRegistry
  | .empty => PresetRegistry.empty
  | .builtin => PresetRegistry.builtin

theorem Origin.registry_eq (origin : Origin) :
    origin.registry = PresetRegistry.empty.registerAll origin.presets := by
  cases origin with
  | empty => rfl
  | builtin => rfl

theorem Origin.nodup_ids (origin : Origin) : (origin.presets.map Preset.id).Nodup := by
  cases origin with
  | empty => exact List.nodup_nil
  | builtin =>
    show ((TablePreset.builtin.map TablePreset.toPreset).map Preset.id).Nodup
    rw [List.map_map]
    decide +kernel

/-- **The last registration counts.** After registrations a registry answers for all of them, behind
the presets it began with: under an identifier is found the last preset registered with it, else the
one that was there from the start, if any. Registrations with different identifiers may change
places, and those with new identifiers leave what was found from the start.

Two that change places go over those in between, so none of these may have either identifier: with
`p`, `p'` under one identifier and `q` under another, `q` and `p'` of `q, p, p'` would give
`p', p, q`, where `p` is the last one and no longer `p'`. Where one in between has one of the
identifiers, neighbours change places one after the other (`middle = []`). -/
theorem registerAll_exact (origin : Origin) (ps : List Preset) :
    (origin.registry.registerAll ps).Answers (origin.presets ++ ps) ∧
    (∀ id p, (origin.registry.registerAll ps).get? id = some p ↔
      IsLast ps id p ∨ ¬ IsKnown ps id ∧ p ∈ origin.presets ∧ p.id = id) ∧
    (∀ front p middle q back, ps = front ++ p :: middle ++ q :: back → p.id ≠ q.id →
      (∀ m ∈ middle, m.id ≠ p.id ∧ m.id ≠ q.id) →
      origin.registry.registerAll (front ++ q :: middle ++ p :: back)
        = origin.registry.registerAll ps) ∧
    ((∀ p ∈ ps, ∀ b ∈ origin.presets, p.id ≠ b.id) → ∀ b ∈ origin.presets,
      (origin.registry.registerAll ps).get? b.id = some b ∧
        origin.registry.get? b.id = some b) := by
  have hget (qs : List Preset) (id : Text) (p : Preset) :
      (origin.registry.registerAll qs).get? id = some p ↔
        IsLast qs id p ∨ ¬ IsKnown qs id ∧ p ∈ origin.presets ∧ p.id = id := by
    rw [origin.registry_eq, ← registerAll_append, get?_registerAll, isLast_append,
      isLast_iff_of_nodup origin.nodup_ids]
  refine ⟨?_, hget ps, ?_, ?_⟩
  · rw [origin.registry_eq, ← registerAll_append]
    exact answers_registerAll (origin.presets ++ ps)
  · rintro front p middle q back rfl hpq hmiddle
    have hsplit (a b : Preset) : origin.registry.registerAll (front ++ a :: middle ++ b :: back)
        = ((origin.registry.registerAll front).registerAll
          (a :: middle ++ [b])).registerAll back := by
      rw [← registerAll_append, ← registerAll_append]
      simp
    rw [hsplit, hsplit, registerAll_swap _ hpq hmiddle]
  · intro hnew b hb
    have hunknown : ¬ IsKnown ps b.id := by
      rintro ⟨p, hp, hid⟩
      exact hnew p hp b hb hid
    exact ⟨(hget ps b.id b).mpr (.inr ⟨hunknown, hb, rfl⟩),
      (hget [] b.id b).mpr (.inr ⟨by simp [IsKnown], hb, rfl⟩)⟩

/-- Of two presets that take the place of a built-in one the second is found. The first may change
places with another preset; without the two the built-in one is found. -/
theorem registerAll_exact_shadowing :
    let first := (TablePreset.new "mailchimp".toList "First".toList .handlebars).toPreset
    let other := (TablePreset.new "another".toList "Another".toList .handlebars).toPreset
    let second := (TablePreset.new "mailchimp".toList "Second".toList .pipeUpper).toPreset
    let r := builtin.registerAll [first, other, second]
    first.id ≠ other.id ∧ r.get? "mailchimp".toList = some second ∧
      r.get? "brevo".toList = some TablePreset.brevo.toPreset ∧
      (r.resolve (.byName "none".toList) : Except (ExportError Empty) _)
        = .error (.presetNotFound "none") ∧
      builtin.registerAll [other, first, second] = r ∧
      (builtin.registerAll [other]).get? "mailchimp".toList
        = some TablePreset.mailchimp.toPreset := by
  intro first other second r
  have hne : first.id ≠ other.id := by decide
  obtain ⟨hanswers, hget, hswap, -⟩ := registerAll_exact .builtin [first, other, second]
  refine ⟨hne, ?_, ?_, ?_, ?_, ?_⟩
  · exact (hget _ _).mpr (.inl ⟨[first, other], [], rfl, rfl, nofun⟩)
  · have hunknown : ¬ IsKnown [first, other, second] "brevo".toList := by
      unfold IsKnown
      decide +kernel
    exact (hget _ _).mpr (.inr ⟨hunknown, by simp [Origin.presets, TablePreset.builtin], rfl⟩)
  · have hunknown : ¬ IsKnown (Origin.builtin.presets ++ [first, other, second]) "none".toList := by
      unfold IsKnown
      decide +kernel
    exact (hanswers.resolve_of_not_isKnown _ hunknown).2 Empty
  · exact hswap [] first [] other [second] rfl hne nofun
  · obtain ⟨-, -, -, hnew⟩ := registerAll_exact .builtin [other]
    have hbuiltin : TablePreset.mailchimp.toPreset ∈ Origin.builtin.presets := by
      simp [Origin.presets, TablePreset.builtin]
    exact (hnew (by decide +kernel) _ hbuiltin).1

end PresetRegistry

end Mailout
