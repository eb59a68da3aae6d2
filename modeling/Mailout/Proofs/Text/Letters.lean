import Mailout.Text.Basic

/-!
# Letters and digits

Names are compared up to the case of ASCII letters. What is said here of a letter holds for both of
its cases.
-/

namespace Mailout.Text

/-! ## Letters -/

theorem toNat_toLower (c : Char) :
    c.toLower.toNat = if 65 ≤ c.toNat ∧ c.toNat ≤ 90 then c.toNat + 32 else c.toNat := by
  unfold Char.toLower
  by_cases h : c.val ≥ 'A'.val ∧ c.val ≤ 'Z'.val
  · have h1 : 65 ≤ c.toNat := h.1
    have h2 : c.val.toNat ≤ 90 := h.2
    rw [dif_pos h, if_pos ⟨h1, h2⟩]
    show (c.val + 32).toNat = c.val.toNat + 32
    have hadd : (c.val + 32).toNat = (c.val.toNat + 32) % 2 ^ 32 := UInt32.toNat_add _ _
    omega
  · have h' : ¬ (65 ≤ c.toNat ∧ c.toNat ≤ 90) := h
    rw [dif_neg h, if_neg h']

theorem isAlpha_iff (c : Char) :
    c.isAlpha = true ↔ (65 ≤ c.toNat ∧ c.toNat ≤ 90) ∨ (97 ≤ c.toNat ∧ c.toNat ≤ 122) := by
  show (decide (c.val ≥ 'A'.val ∧ c.val ≤ 'Z'.val)
    || (decide (c.val ≥ 'a'.val) && decide (c.val ≤ 'z'.val))) = true ↔ _
  rw [Bool.or_eq_true, Bool.and_eq_true, decide_eq_true_eq, decide_eq_true_eq, decide_eq_true_eq]
  exact Iff.rfl

theorem isDigit_iff (c : Char) : c.isDigit = true ↔ 48 ≤ c.toNat ∧ c.toNat ≤ 57 := by
  show (decide (c.val ≥ '0'.val) && decide (c.val ≤ '9'.val)) = true ↔ _
  rw [Bool.and_eq_true, decide_eq_true_eq, decide_eq_true_eq]
  exact Iff.rfl

/-- A character with the small letter of a letter is a letter. -/
theorem isAlpha_of_toLower_eq {c d : Char} (h : c.toLower = d.toLower) (hc : c.isAlpha = true) :
    d.isAlpha = true := by
  have h := congrArg Char.toNat h
  rw [toNat_toLower, toNat_toLower] at h
  rw [isAlpha_iff] at hc ⊢
  split at h <;> split at h <;> omega

theorem toLower_ne_of_isAlpha {c d : Char} (hc : c.isAlpha = true) (hd : d.isAlpha = false) :
    c.toLower ≠ d.toLower := by
  intro h
  rw [isAlpha_of_toLower_eq h hc] at hd
  cases hd

/-- Only letters have two cases. -/
theorem eq_of_toLower_eq {c d : Char} (h : c.toLower = d.toLower) (hd : d.isAlpha = false) :
    c = d := by
  have h := congrArg Char.toNat h
  rw [toNat_toLower, toNat_toLower] at h
  rw [← Bool.not_eq_true, isAlpha_iff] at hd
  refine Char.toNat_inj.mp ?_
  split at h <;> split at h <;> omega

/-! ## Names -/

theorem sameLetters_iff {s t : Text} : sameLetters s t = true ↔ lowerAscii s = lowerAscii t := by
  simp [sameLetters]

/-- A text with the small letters of a name that has letters only is such a name. -/
theorem isAlpha_of_sameLetters {s t : Text} (h : sameLetters s t = true)
    (hs : ∀ c ∈ s, c.isAlpha = true) : ∀ c ∈ t, c.isAlpha = true := by
  intro d hd
  have hm : d.toLower ∈ lowerAscii s := by
    rw [sameLetters_iff.mp h]
    exact List.mem_map_of_mem hd
  obtain ⟨c, hc, hcd⟩ := List.mem_map.mp hm
  exact isAlpha_of_toLower_eq hcd (hs c hc)

/-- A start up to the case of letters is as many characters that differ from it in their case at
most. -/
theorem afterLetters?_eq_some_iff {p s rest : Text} :
    afterLetters? p s = some rest ↔ ∃ front, s = front ++ rest ∧ sameLetters p front = true := by
  simp only [sameLetters_iff]
  induction p generalizing s with
  | nil =>
    simp only [afterLetters?, Option.some.injEq]
    constructor
    · rintro rfl
      exact ⟨[], rfl, rfl⟩
    · rintro ⟨front, rfl, hfront⟩
      rw [List.map_eq_nil_iff.mp hfront.symm, List.nil_append]
  | cons a p ih =>
    cases s with
    | nil =>
      simp only [afterLetters?, reduceCtorEq, false_iff, not_exists, not_and]
      intro front hs hfront
      rw [(List.append_eq_nil_iff.mp hs.symm).1] at hfront
      cases hfront
    | cons c s =>
      by_cases hc : a.toLower = c.toLower
      · rw [afterLetters?, if_pos (beq_iff_eq.mpr hc), ih]
        constructor
        · rintro ⟨front, rfl, hfront⟩
          exact ⟨c :: front, rfl, List.cons_eq_cons.mpr ⟨hc, hfront⟩⟩
        · rintro ⟨front, hs, hfront⟩
          cases front with
          | nil => cases hfront
          | cons d front =>
            exact ⟨front, (List.cons.inj hs).2, (List.cons.inj hfront).2⟩
      · rw [afterLetters?, if_neg (fun h => hc (beq_iff_eq.mp h))]
        simp only [reduceCtorEq, false_iff, not_exists, not_and]
        intro front hs hfront
        cases front with
        | nil => cases hfront
        | cons d front =>
          rw [(List.cons.inj hs).1] at hc
          exact hc (List.cons.inj hfront).1

theorem sameLetters_nil_right {s : Text} : sameLetters s [] = true ↔ s = [] := by
  simp [sameLetters_iff, lowerAscii]

end Mailout.Text
