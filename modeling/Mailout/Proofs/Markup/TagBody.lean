import Mailout.Proofs.Markup.Attribute

/-!
# The grammar of a tag's inside

`TagBody.Spells b s` says that `s` is a tag's inside up to its `>`. A tag is written anew with its
attributes by their own texts, each after one space; they are read back if they stand apart.

## Main statements

* `readTagBody_append`, `exists_spells` — the inside of a tag is read exactly where it is spelled,
  whatever follows its `>`;
* `spells_spaced`, `apart_of_readTagBody` — attributes are read back exactly if they stand apart.
-/

namespace Mailout

open Text

namespace TagBody

open Attribute

/-! ## Steps of reading a tag's inside -/

theorem readTagBody_gt (s : Text) : readTagBody ('>' :: s) = some (⟨[], false, false⟩, s) := by
  rw [readTagBody]

theorem readTagBody_slash_gt (s : Text) :
    readTagBody ('/' :: '>' :: s) = some (⟨[], true, false⟩, s) := by
  rw [readTagBody]

theorem readTagBody_space {c : Char} (hc : isMarkupSpace c = true) (s : Text) :
    readTagBody (c :: s) = readTagBody s := by
  rw [readTagBody]
  · simp [hc]
  · rintro rfl
    cases hc
  · rintro _ rfl
    cases hc

theorem readTagBody_slash {s : Text} (hs : '>' ∉ s.head?) :
    readTagBody ('/' :: s) = readTagBody s := by
  rw [readTagBody]
  · simp
  · simp
  · rintro t - rfl
    simp at hs

/-- An attribute is read, and then what is left. -/
theorem readTagBody_attribute {c : Char} (hc : isNameStart c = true) {s : Text} {r : Reading}
    (h : read c s = some r) :
    readTagBody (c :: s) = (readTagBody r.rest).map fun (body, rest) =>
      (⟨r.attr :: body.attributes, body.selfClosing, r.dangling || body.dangling⟩, rest) := by
  simp only [isNameStart, Bool.not_eq_true', Bool.or_eq_false_iff, beq_eq_false_iff_ne] at hc
  rw [readTagBody]
  · rw [if_neg (by simp [hc.1])]
    split
    · next h' => rw [h] at h'; cases h'
    · next h' => rw [h] at h'; cases h'; rfl
  · exact hc.2
  · intro t ht
    exact absurd ht hc.1.2

theorem readTagBody_none {c : Char} (hc : isNameStart c = true) {s : Text} (h : read c s = none) :
    readTagBody (c :: s) = none := by
  simp only [isNameStart, Bool.not_eq_true', Bool.or_eq_false_iff, beq_eq_false_iff_ne] at hc
  rw [readTagBody]
  · rw [if_neg (by simp [hc.1])]
    split
    · rfl
    · next h' => rw [h] at h'; cases h'
  · exact hc.2
  · intro t ht
    exact absurd ht hc.1.2

/-! ## The grammar -/

/-- The text is the inside of a tag up to its `>`. -/
inductive Spells : TagBody → Text → Prop
  | close : Spells ⟨[], false, false⟩ ['>']
  | selfClose : Spells ⟨[], true, false⟩ ['/', '>']
  | space {b : TagBody} {c : Char} {s : Text} (hc : isMarkupSpace c = true) (h : Spells b s) :
      Spells b (c :: s)
  | slash {b : TagBody} {s : Text} (hs : '>' ∉ s.head?) (h : Spells b s) : Spells b ('/' :: s)
  | attr {b : TagBody} {a : Attribute} {s : Text} (ha : a.StandsBefore s) (h : Spells b s) :
      Spells ⟨a :: b.attributes, b.selfClosing, b.dangling⟩ (a.source ++ s)
  | due {name gap gap' : Text} (h : IsDue name gap gap') :
      Spells ⟨[⟨name, [], name⟩], false, true⟩ (name ++ (gap ++ '=' :: (gap' ++ ['>'])))

theorem Spells.exists_stop {b : TagBody} {s : Text} (h : Spells b s) : ∃ t, s = t ++ ['>'] := by
  induction h with
  | close => exact ⟨[], rfl⟩
  | selfClose => exact ⟨['/'], rfl⟩
  | @space _ c _ _ _ ih =>
    obtain ⟨t, rfl⟩ := ih
    exact ⟨c :: t, rfl⟩
  | slash _ _ ih =>
    obtain ⟨t, rfl⟩ := ih
    exact ⟨'/' :: t, rfl⟩
  | @attr _ a _ _ _ ih =>
    obtain ⟨t, rfl⟩ := ih
    exact ⟨a.source ++ t, by simp⟩
  | @due name gap gap' _ => exact ⟨name ++ (gap ++ '=' :: gap'), by simp⟩

/-- **The inside of a tag is read where it is spelled, whatever follows it.** -/
theorem readTagBody_append {b : TagBody} {s : Text} (h : Spells b s) (rest : Text) :
    readTagBody (s ++ rest) = some (b, rest) := by
  induction h with
  | close => exact readTagBody_gt rest
  | selfClose => exact readTagBody_slash_gt rest
  | space hc _ ih =>
    rw [List.cons_append, readTagBody_space hc]
    exact ih
  | @slash b s hs h ih =>
    rw [List.cons_append, readTagBody_slash]
    · exact ih
    · obtain ⟨t, rfl⟩ := h.exists_stop
      cases t with
      | nil => simp at hs
      | cons c t => simpa using hs
  | @attr b a s ha h ih =>
    obtain ⟨t, rfl⟩ := h.exists_stop
    have ha' : a.StandsBefore (t ++ ['>'] ++ rest) := by
      rw [List.append_assoc]
      exact ha.append_stop rest
    obtain ⟨c, name, u, hc, -, hsource⟩ := ha.exists_first
    have hr : read c (name ++ u ++ (t ++ ['>'] ++ rest)) = some ⟨a, false, t ++ ['>'] ++ rest⟩ :=
      read_of_standsBefore ha' (by simp [hsource])
    rw [hsource, List.append_assoc, List.cons_append, readTagBody_attribute hc hr, ih]
    simp
  | @due name gap gap' h =>
    have hs : name ++ (gap ++ '=' :: (gap' ++ ['>'])) ++ rest
        = name ++ (gap ++ '=' :: (gap' ++ '>' :: rest)) := by simp
    obtain ⟨c, name, rfl⟩ : ∃ c name', name = c :: name' := by
      cases name with
      | nil => exact h.1.elim
      | cons c name => exact ⟨c, name, rfl⟩
    have hr : read c (name ++ (gap ++ '=' :: (gap' ++ '>' :: rest)))
        = some ⟨⟨c :: name, [], c :: name⟩, true, '>' :: rest⟩ := read_of_isDue h rfl
    rw [hs, List.cons_append, readTagBody_attribute h.1.1 hr, readTagBody_gt]
    rfl

/-- **What is read is spelled there.** -/
theorem exists_spells {s rest : Text} {b : TagBody} (h : readTagBody s = some (b, rest)) :
    ∃ t, Spells b t ∧ s = t ++ rest := by
  fun_induction readTagBody s generalizing b with
  | case1 => cases h
  | case2 s =>
    simp only [Option.some.injEq, Prod.mk.injEq] at h
    obtain ⟨rfl, rfl⟩ := h
    exact ⟨['>'], .close, rfl⟩
  | case3 s =>
    simp only [Option.some.injEq, Prod.mk.injEq] at h
    obtain ⟨rfl, rfl⟩ := h
    exact ⟨['/', '>'], .selfClose, rfl⟩
  | case4 c s hgt hslash hc ih =>
    obtain ⟨t, ht, rfl⟩ := ih h
    by_cases hspace : isMarkupSpace c = true
    · exact ⟨c :: t, .space hspace ht, rfl⟩
    · obtain rfl : c = '/' := by simpa [hspace] using hc
      refine ⟨'/' :: t, .slash ?_ ht, rfl⟩
      intro hm
      cases t with
      | nil => simp at hm
      | cons d t =>
        simp only [List.head?_cons, Option.mem_def, Option.some.injEq] at hm
        subst hm
        exact hslash (t ++ rest) rfl (by simp)
  | case5 => cases h
  | case6 c s hgt hslash hc r hr ih =>
    simp only [Option.map_eq_some_iff, Prod.mk.injEq, Prod.exists] at h
    obtain ⟨b', rest', hb, rfl, rfl⟩ := h
    have hstart : isNameStart c = true := by
      simp only [Bool.or_eq_true, not_or, Bool.not_eq_true] at hc
      simp only [isNameStart, hc.1, hc.2, Bool.or_self, Bool.false_or, Bool.not_eq_true',
        beq_eq_false_iff_ne, ne_eq]
      exact hgt
    obtain ⟨t, ht, hrest⟩ := ih hb
    rcases standsBefore_of_read hstart hr with ⟨hd, hs, ha⟩ | ⟨name, gap, gap', u, hdue, rfl, hs⟩
    · obtain ⟨t, rfl⟩ := ht.exists_stop
      rw [hrest, List.append_assoc] at ha
      refine ⟨r.attr.source ++ (t ++ ['>']), ?_, by rw [List.append_assoc, ← hrest, hs]⟩
      rw [hd, Bool.false_or]
      exact .attr (ha.append_stop []) ht
    · rw [readTagBody_gt] at hb
      simp only [Option.some.injEq, Prod.mk.injEq] at hb
      obtain ⟨rfl, rfl⟩ := hb
      exact ⟨name ++ (gap ++ '=' :: (gap' ++ ['>'])), .due hdue, by rw [← hs]; simp⟩

/-- The attributes that are read are written. -/
theorem Spells.isWritten {b : TagBody} {s : Text} (h : Spells b s) :
    ∀ a ∈ b.attributes, a.IsWritten := by
  induction h with
  | close => simp
  | selfClose => simp
  | space _ _ ih => exact ih
  | slash _ _ ih => exact ih
  | @attr b a s ha _ ih =>
    intro a' ha'
    rcases List.mem_cons.mp ha' with rfl | ha'
    · exact ⟨s, ha⟩
    · exact ih a' ha'
  | due h =>
    intro a' ha'
    rw [List.mem_singleton.mp ha']
    exact ⟨[], .bare h.1 (by simp) (by simp)⟩

/-- The attributes' own texts stand in the tag one after the other. -/
theorem Spells.sources_sublist {b : TagBody} {s : Text} (h : Spells b s) :
    (b.attributes.flatMap Attribute.source).Sublist s := by
  induction h with
  | close => simp
  | selfClose => simp
  | space _ _ ih => exact ih.cons _
  | slash _ _ ih => exact ih.cons _
  | @attr b a s _ _ ih => simpa using ih.append_left a.source
  | due _ => simp

/-! ## Writing a tag anew -/

/-- Behind the space in front of an attribute its name begins. -/
theorem head?_dropWhile_spaced {b : Attribute} (hb : b.IsWritten) (bs : List Attribute) (t : Text) :
    ((spaced (b :: bs) ++ t).dropWhile isMarkupSpace).head? = b.name.head? := by
  obtain ⟨rest, hb⟩ := hb
  obtain ⟨c, name, u, hc, hname, hsource⟩ := hb.exists_first
  have hspace : isMarkupSpace c = false := by
    simp only [isNameStart, Bool.not_eq_true', Bool.or_eq_false_iff] at hc
    exact hc.1.1
  have htext : spaced (b :: bs) ++ t = [' '] ++ c :: (name ++ u ++ spaced bs ++ t) := by
    simp [spaced, hsource]
  rw [htext, dropWhile_append_eq (by decide) (by simp [hspace]), hname]
  rfl

/-- Attributes that stand apart, each after one space, are spelled in front of the tag's end. -/
theorem spells_spaced {as : List Attribute} {ending : Text} {selfClosing dangling : Bool}
    (hend : Spells ⟨[], selfClosing, dangling⟩ ending) (hw : ∀ a ∈ as, a.IsWritten)
    (hapart : Apart as)
    (hhead : as ≠ [] → (∀ c ∈ ending.head?, c = ' ' ∨ c = '>') ∧
      '=' ∉ (ending.dropWhile isMarkupSpace).head?) :
    Spells ⟨as, selfClosing, dangling⟩ (spaced as ++ ending) := by
  induction as with
  | nil => exact hend
  | cons a as ih =>
    have htext : spaced (a :: as) ++ ending = ' ' :: (a.source ++ (spaced as ++ ending)) := by
      simp [spaced]
    obtain ⟨hhead1, hhead2⟩ := hhead (by simp)
    have hrest : Spells ⟨as, selfClosing, dangling⟩ (spaced as ++ ending) := by
      refine ih (fun a' ha' => hw a' (List.mem_cons_of_mem _ ha')) ?_ (fun _ => ⟨hhead1, hhead2⟩)
      cases as with
      | nil => trivial
      | cons a' as => exact hapart.2
    have ha : a.StandsBefore (spaced as ++ ending) := by
      refine (hw a List.mem_cons_self).standsBefore ?_ ?_
      · cases as with
        | nil => exact hhead1
        | cons a' as => simp [spaced]
      · intro hbare
        cases as with
        | nil => exact hhead2
        | cons a' as =>
          rw [head?_dropWhile_spaced (hw a' (by simp))]
          exact hapart.1 hbare
    rw [htext]
    exact .space (by decide) (.attr ha hrest)

/-- **Attributes that are read back as they were written stand apart.** -/
theorem apart_of_readTagBody {as : List Attribute} {t rest : Text} {b : TagBody}
    (hw : ∀ a ∈ as, a.IsWritten) (h : readTagBody (spaced as ++ t) = some (b, rest))
    (hb : b.attributes = as) : Apart as := by
  induction as generalizing b with
  | nil => trivial
  | cons a as ih =>
    obtain ⟨_, ha⟩ := hw a List.mem_cons_self
    obtain ⟨c, name, u, hc, -, hsource⟩ := ha.exists_first
    have htext : spaced (a :: as) ++ t = ' ' :: c :: (name ++ u ++ (spaced as ++ t)) := by
      simp [spaced, hsource]
    rw [htext, readTagBody_space (by decide)] at h
    cases hr : read c (name ++ u ++ (spaced as ++ t)) with
    | none => rw [readTagBody_none hc hr] at h; cases h
    | some r =>
      rw [readTagBody_attribute hc hr] at h
      simp only [Option.map_eq_some_iff, Prod.mk.injEq, Prod.exists] at h
      obtain ⟨b', rest', hb', rfl, rfl⟩ := h
      simp only [List.cons.injEq] at hb
      obtain ⟨hattr, has⟩ := hb
      rcases standsBefore_of_read hc hr with ⟨-, hs, hstands⟩ | ⟨_, _, _, _, -, rfl, -⟩
      · rw [hattr] at hs hstands
        have hrest : r.rest = spaced as ++ t := by
          rw [hsource] at hs
          simpa using hs
        rw [hrest] at hb' hstands
        have hapart := ih (fun a' ha' => hw a' (List.mem_cons_of_mem _ ha')) hb' has
        cases as with
        | nil => trivial
        | cons a' as =>
          refine ⟨fun hbare => ?_, hapart⟩
          rw [← head?_dropWhile_spaced (hw a' (by simp)) as t]
          exact hstands.not_due hbare
      · -- a value that is due where the tag ends: this is the last attribute
        rw [readTagBody_gt] at hb'
        cases hb'
        rw [← has]
        trivial

end TagBody

end Mailout
