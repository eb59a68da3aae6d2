import Mailout.MergeTag
import Mailout.Proofs.Text.Letters
import Mailout.Proofs.Text.Search

/-!
# The listed tags are the written ones

`occurrences` lists exactly the places of a text where a merge tag is written, and lists them from
left to right without overlap (`occurrences_exact`).

## Why no tag is missed

After a tag that was read the scan goes on behind it, so a tag that begins inside another one would
be lost. There is none: between its braces a tag holds no brace, and the brace after `{{{` begins no
name (`exists_gap`). The other direction needs that a written tag is read whatever follows it
(`read?_source_append`): neither blanks nor the name can be taken in two ways.
-/

namespace Mailout

open Text

namespace Text

/-! ## The characters of a tag -/

/-- Identifiers are made of ASCII characters below the braces. -/
theorem toNat_of_isIdentifierPart {c : Char} (h : isIdentifierPart c = true) :
    0x2E ≤ c.toNat ∧ c.toNat < 0x7B := by
  simp only [isIdentifierPart, Char.isAlphanum, Bool.or_eq_true, beq_iff_eq, isAlpha_iff,
    isDigit_iff] at h
  rcases h with (((h | h) | h) | rfl) | rfl
  · omega
  · omega
  · omega
  · decide
  · decide

theorem isIdentifierPart_of_start {c : Char} (h : isIdentifierStart c = true) :
    isIdentifierPart c = true := by
  simp only [isIdentifierStart, isIdentifierPart, Char.isAlphanum, Bool.or_eq_true] at h ⊢
  rcases h with h | h
  · exact Or.inl (Or.inl (Or.inl h))
  · exact Or.inl (Or.inr h)

theorem not_isBlank_of_isIdentifierPart {c : Char} (h : isIdentifierPart c = true) :
    isBlank c = false := by
  obtain ⟨h1, h2⟩ := toNat_of_isIdentifierPart h
  simp only [isBlank, Bool.or_eq_false_iff, Bool.and_eq_false_iff, decide_eq_false_iff_not,
    beq_eq_false_iff_ne]
  omega

theorem not_isIdentifierPart_of_isBlank {c : Char} (h : isBlank c = true) :
    isIdentifierPart c = false := by
  cases hp : isIdentifierPart c with
  | false => rfl
  | true => rw [not_isBlank_of_isIdentifierPart hp] at h; cases h

theorem all_part_of_isIdentifier {name : Text} (h : isIdentifier name = true) :
    ∀ c ∈ name, isIdentifierPart c = true := by
  cases name with
  | nil => simp
  | cons c s =>
    simp only [isIdentifier, Bool.and_eq_true, List.all_eq_true] at h
    intro d hd
    rcases List.mem_cons.mp hd with rfl | hd
    · exact isIdentifierPart_of_start h.1
    · exact h.2 d hd

/-! ## Reading what is written -/

/-- An identifier is read whole in front of a text that does not go on with it. -/
theorem readIdentifier_append_of_isIdentifier {name s : Text} (hn : isIdentifier name = true)
    (hs : ∀ c ∈ s.head?, isIdentifierPart c = false) :
    readIdentifier (name ++ s) = some (name, s) := by
  cases name with
  | nil => simp [isIdentifier] at hn
  | cons c name =>
    simp only [isIdentifier, Bool.and_eq_true] at hn
    simp only [readIdentifier, List.cons_append, hn.1, if_true]
    rw [takeWhile_append_eq hn.2 hs, dropWhile_append_eq hn.2 hs]

/-! ## Places in a text -/

/-- `part` stands in `s` from byte `start` up to byte `stop`. -/
def StandsAt (part : Text) (start stop : Nat) (s : Text) : Prop :=
  ∃ before after : Text, s = before ++ part ++ after ∧ utf8Size before = start ∧
    utf8Size (before ++ part) = stop

end Text

namespace MergeTag

/-! ## A written tag is read -/

/-- Between its braces a tag has blanks and characters of identifiers, at least one of them. -/
theorem IsWritten.exists_content {t : MergeTag} (h : t.IsWritten) :
    ∃ content : Text, t.source = ['{', '{'] ++ content ++ ['}', '}'] ∧ content ≠ [] ∧
      ∀ c ∈ content, isBlank c = true ∨ isIdentifierPart c = true := by
  obtain ⟨hname, before, after, hb, ha, hs⟩ := h
  refine ⟨before ++ t.name ++ after, hs, ?_, ?_⟩
  · intro hnil
    rw [(List.append_eq_nil_iff.mp (List.append_eq_nil_iff.mp hnil).1).2] at hname
    cases hname
  · intro c hc
    rcases List.mem_append.mp hc with hc | hc
    · rcases List.mem_append.mp hc with hc | hc
      · exact .inl (List.all_eq_true.mp hb c hc)
      · exact .inr (all_part_of_isIdentifier hname c hc)
    · exact .inl (List.all_eq_true.mp ha c hc)

/-- Blanks and characters of identifiers are no braces. -/
theorem ne_brace_of_content {c : Char} (h : isBlank c = true ∨ isIdentifierPart c = true) :
    c ≠ '{' ∧ c ≠ '}' := by
  constructor
  · rintro rfl
    revert h
    decide
  · rintro rfl
    revert h
    decide

/-- What stands between the braces of a written tag: at least one character, and no brace. -/
theorem IsWritten.exists_inside {t : MergeTag} (h : t.IsWritten) :
    ∃ inside : Text, t.source = '{' :: '{' :: (inside ++ ['}', '}']) ∧ inside ≠ [] ∧
      '{' ∉ inside := by
  obtain ⟨content, hs, hne, hcontent⟩ := h.exists_content
  exact ⟨content, by simp [hs], hne, fun hm => (ne_brace_of_content (hcontent _ hm)).1 rfl⟩

/-- **A written tag is read, whatever follows it.** -/
theorem read?_source_append {t : MergeTag} (h : t.IsWritten) (rest : Text) :
    read? (t.source ++ rest) = some (t, rest) := by
  obtain ⟨hname, before, after, hb, ha, hs⟩ := h
  have hparts := all_part_of_isIdentifier hname
  -- each step of the reader stops where the next part of the tag begins
  have hopen : trimStart (before ++ (t.name ++ (after ++ '}' :: '}' :: rest)))
      = t.name ++ (after ++ '}' :: '}' :: rest) := by
    refine dropWhile_append_eq hb ?_
    intro c hc
    cases hn : t.name with
    | nil => rw [hn] at hname; cases hname
    | cons d name =>
      simp only [hn, List.cons_append, List.head?_cons, Option.mem_def, Option.some.injEq] at hc
      exact not_isBlank_of_isIdentifierPart (hparts c (by simp [hn, hc]))
  have hread : readIdentifier (t.name ++ (after ++ '}' :: '}' :: rest))
      = some (t.name, after ++ '}' :: '}' :: rest) := by
    refine readIdentifier_append_of_isIdentifier hname ?_
    intro c hc
    cases hafter : after with
    | nil =>
      simp only [hafter, List.nil_append, List.head?_cons, Option.mem_def, Option.some.injEq] at hc
      subst hc
      decide
    | cons d after' =>
      simp only [hafter, List.cons_append, List.head?_cons, Option.mem_def, Option.some.injEq] at hc
      exact not_isIdentifierPart_of_isBlank (List.all_eq_true.mp ha c (by simp [hafter, hc]))
  have hclose : trimStart (after ++ '}' :: '}' :: rest) = '}' :: '}' :: rest := by
    refine dropWhile_append_eq ha ?_
    intro c hc
    simp only [List.head?_cons, Option.mem_def, Option.some.injEq] at hc
    subst hc
    decide
  have htext : t.source ++ rest
      = '{' :: '{' :: (before ++ (t.name ++ (after ++ '}' :: '}' :: rest))) := by
    simp [hs]
  have hsource : consumed ('{' :: '{' :: (before ++ (t.name ++ (after ++ '}' :: '}' :: rest)))) rest
      = t.source := by
    rw [← htext]
    exact consumed_of_append _ _
  rw [htext, read?, hopen]
  simp only [hread, hclose, hsource]

/-! ## Tags do not overlap -/

/-- **Two written tags do not overlap.** A tag that begins behind the first character of a text that
another tag starts lies behind that other tag. -/
theorem exists_gap {t u : MergeTag} (ht : t.IsWritten) (hu : u.IsWritten) {c : Char}
    {before rest after : Text} (h : t.source ++ rest = c :: before ++ u.source ++ after) :
    ∃ gap, c :: before = t.source ++ gap ∧ rest = gap ++ u.source ++ after := by
  obtain ⟨inside, hs, hne, hbrace⟩ := ht.exists_inside
  obtain ⟨inside', hs', -, -⟩ := hu.exists_inside
  have hopen : u.source ++ after = '{' :: '{' :: (inside' ++ '}' :: '}' :: after) := by
    simp [hs']
  rw [List.append_assoc, List.cons_append, hs] at h
  rw [hs]
  cases before with
  | nil =>
    -- the second opening brace of `u` would be the first character inside `t`
    rw [List.nil_append, hopen] at h
    cases inside with
    | nil => exact absurd rfl hne
    | cons d inside =>
      simp only [List.cons_append, List.cons.injEq] at h
      exact absurd (h.2.2.1 ▸ List.mem_cons_self) hbrace
  | cons d before =>
    simp only [List.cons_append, List.cons.injEq] at h
    obtain ⟨rfl, rfl, h⟩ := h
    -- `t` ends in front of `u`, or `u` begins between the braces of `t`
    rcases List.append_eq_append_iff.mp h with ⟨gap, hb, hr⟩ | ⟨bs, hb, hr⟩
    · exact ⟨gap, by simp [hb], by rw [hr, List.append_assoc]⟩
    · cases bs with
      | nil => exact ⟨[], by simpa using hb.symm, by simpa using hr.symm⟩
      | cons b bs =>
        rw [hopen, List.cons_append, List.cons.injEq] at hr
        have hm : '{' ∈ inside ++ ['}', '}'] := by rw [hb, hr.1]; simp
        simp only [List.mem_append, List.mem_cons, List.not_mem_nil, or_false] at hm
        rcases hm with hm | hm | hm
        · exact absurd hm hbrace
        · exact absurd hm (by decide)
        · exact absurd hm (by decide)

/-! ## Every occurrence is listed -/

theorem utf8Size_source_pos {t : MergeTag} (h : t.IsWritten) : 0 < utf8Size t.source := by
  obtain ⟨inside, hs, -, -⟩ := h.exists_inside
  rw [hs, utf8Size_cons]
  have : 0 < '{'.utf8Size := by decide
  omega

/-- A listed tag is written where the list says. -/
theorem exists_written_of_mem {s : Text} {offset : Nat} {o : Occurrence}
    (h : o ∈ occurrencesFrom offset (segments s)) :
    ∃ (t : MergeTag) (before after : Text), t.IsWritten ∧ s = before ++ t.source ++ after ∧
      o = ⟨offset + utf8Size before, offset + utf8Size before + utf8Size t.source, t.name⟩ := by
  fun_induction segments s generalizing offset with
  | case1 => cases h
  | case2 c s t rest hr ih =>
    obtain ⟨hsource, hwritten⟩ := read?_append hr
    simp only [occurrencesFrom, List.mem_cons] at h
    rcases h with rfl | h
    · exact ⟨t, [], rest, hwritten, by simpa using hsource.symm, by simp⟩
    · obtain ⟨u, before, after, hu, rfl, rfl⟩ := ih h
      exact ⟨u, t.source ++ before, after, hu, by simp [← hsource], by simp [Nat.add_assoc]⟩
  | case3 c s hr ih =>
    obtain ⟨u, before, after, hu, rfl, rfl⟩ := ih h
    exact ⟨u, c :: before, after, hu, by simp, by simp [Nat.add_assoc]⟩

/-- A written tag is listed where it stands. -/
theorem mem_of_written {s before after : Text} {t : MergeTag} (ht : t.IsWritten)
    (hs : s = before ++ t.source ++ after) (offset : Nat) :
    ⟨offset + utf8Size before, offset + utf8Size before + utf8Size t.source, t.name⟩
      ∈ occurrencesFrom offset (segments s) := by
  fun_induction segments s generalizing offset before with
  | case1 =>
    have := utf8Size_source_pos ht
    simp_all
  | case2 c s u rest hr ih =>
    obtain ⟨hsource, hu⟩ := read?_append hr
    simp only [occurrencesFrom, List.mem_cons]
    cases before with
    | nil =>
      left
      rw [hs, List.nil_append, read?_source_append ht] at hr
      simp only [Option.some.injEq, Prod.mk.injEq] at hr
      simp [hr.1]
    | cons d before =>
      right
      -- the scan goes on behind `u`, and there `t` is still to come
      rw [← hsource] at hs
      obtain ⟨gap, hgap, hrest⟩ := exists_gap hu ht hs
      rw [hgap, utf8Size_append, ← Nat.add_assoc]
      exact ih hrest _
  | case3 c s hr ih =>
    cases before with
    | nil =>
      -- a failed attempt is no written tag
      rw [hs, List.nil_append, read?_source_append ht] at hr
      cases hr
    | cons d before =>
      simp only [List.cons_append, List.cons.injEq] at hs
      obtain ⟨rfl, hs⟩ := hs
      rw [utf8Size_cons, ← Nat.add_assoc]
      exact ih hs _

/-- The list begins at the offset or behind it and goes from left to right without overlap. -/
theorem occurrencesFrom_pairwise (s : Text) (offset : Nat) :
    (∀ o ∈ occurrencesFrom offset (segments s), offset ≤ o.start) ∧
      (occurrencesFrom offset (segments s)).Pairwise fun a b =>
        a.start < a.stop ∧ a.stop ≤ b.start := by
  fun_induction segments s generalizing offset with
  | case1 => exact ⟨by simp [occurrencesFrom], List.Pairwise.nil⟩
  | case2 c s t rest hr ih =>
    obtain ⟨hfrom, hpair⟩ := ih (offset + utf8Size t.source)
    have hpos := utf8Size_source_pos (read?_append hr).2
    simp only [occurrencesFrom, List.mem_cons, List.pairwise_cons]
    refine ⟨?_, ?_, hpair⟩
    · rintro o (rfl | ho)
      · exact Nat.le_refl _
      · exact Nat.le_trans (Nat.le_add_right _ _) (hfrom o ho)
    · intro o ho
      exact ⟨by omega, hfrom o ho⟩
  | case3 c s hr ih =>
    obtain ⟨hfrom, hpair⟩ := ih (offset + c.utf8Size)
    exact ⟨fun o ho => Nat.le_trans (Nat.le_add_right _ _) (hfrom o ho), hpair⟩

/-- **The list is exact.** A place is listed with a name if and only if a tag with this name is
written there, every place is listed once, and the places go from left to right without overlap. -/
theorem occurrences_exact (s : Text) :
    (∀ o : Occurrence, o ∈ occurrences s ↔
      ∃ t : MergeTag, t.IsWritten ∧ t.name = o.name ∧ StandsAt t.source o.start o.stop s) ∧
    (occurrences s).Nodup ∧
    (occurrences s).Pairwise fun a b => a.start < b.start ∧ a.stop ≤ b.start := by
  have hpair := (occurrencesFrom_pairwise s 0).2
  refine ⟨fun o => ⟨fun h => ?_, ?_⟩, ?_, ?_⟩
  · obtain ⟨t, before, after, ht, hs, rfl⟩ := exists_written_of_mem h
    exact ⟨t, ht, rfl, before, after, hs, by simp, by simp⟩
  · rintro ⟨t, ht, hname, before, after, hs, hstart, hstop⟩
    have h := mem_of_written ht hs 0
    rw [Nat.zero_add, ← utf8Size_append, hstart, hstop, hname] at h
    exact h
  · exact hpair.imp fun {a b} h hab => by subst hab; omega
  · exact hpair.imp fun {a b} h => by omega

end MergeTag

end Mailout
