import Mailout.Proofs.Markup.DirtyRun

/-!
# The normal form of a class list

A class list is cleaned by cutting it at its blanks and joining the authored tokens by single
spaces. Cutting undoes joining, so the tokens of what comes out are exactly the authored ones, and
unless nothing is left it is clean: a class list is never cleaned twice.

## Main statements

* `words_joinWords_authored` — the tokens of what comes out;
* `utf8Size_joinWords_authored_le` — it takes up no more than the class list;
* `clean_normalForm` — when a class list is cleaned, and what comes out.
-/

namespace Mailout.ClassList

open Text

/-! ## Authored tokens joined -/

/-- **Cutting gives the authored tokens back.** -/
theorem words_joinWords_authored (value : Text) :
    words (joinWords (authored value)) = authored value := by
  refine words_joinWords ?_
  intro w hw
  exact mem_authored hw

/-- Tokens that stay and the spaces between them had room in the class list. -/
theorem utf8Size_joinWords_authored_le (value : Text) :
    utf8Size (joinWords (authored value)) ≤ utf8Size value := by
  by_cases hnil : authored value = []
  · rw [hnil]
    exact Nat.zero_le _
  · have hjoin := utf8Size_joinWords hnil
    have hkept : utf8Size (authored value).flatten + (authored value).length
        ≤ utf8Size (words value).flatten + (words value).length :=
      utf8Size_filter_le (!isEditorToken ·) (words value)
    have hwords := utf8Size_words_le value
    omega

/-- Authored tokens that are joined are clean, if there are any. -/
theorem clean?_joinWords_authored {value : Text} (h : authored value ≠ []) :
    clean? (joinWords (authored value)) = none := by
  rw [clean?_eq_none_iff, words_joinWords_authored]
  refine ⟨h, ?_⟩
  intro w hw
  have hkept : (!isEditorToken w) = true := (List.mem_filter.mp hw).2
  simpa using hkept

/-! ## Cleaning -/

/-- **A class list is cleaned once.** It is clean if it has tokens and all of them are authored.
What comes out otherwise has the authored tokens in their order, takes up no more, and is clean
unless it is empty. -/
theorem clean_normalForm (value : Text) :
    (clean? value = none ↔ words value ≠ [] ∧ ∀ w ∈ words value, ¬ "editor-".toList <+: w) ∧
    ∀ kept, clean? value = some kept →
      words kept = (words value).filter (fun w => !"editor-".toList.isPrefixOf w) ∧
      utf8Size kept ≤ utf8Size value ∧ (kept ≠ [] → clean? kept = none) := by
  constructor
  · rw [clean?_eq_none_iff]
    simp only [← ClassRun.isEditorToken_iff, Bool.not_eq_true]
  · intro kept h
    obtain ⟨rfl, hnil⟩ := clean?_eq_some h
    refine ⟨words_joinWords_authored value, utf8Size_joinWords_authored_le value, ?_⟩
    intro hne
    exact clean?_joinWords_authored fun hauthored => hne (hnil.mpr hauthored)

/-- Between blanks of several kinds one token goes, one that is written twice stays so, and so does
one that only looks like those of the tool. -/
theorem clean_normalForm_lookalike :
    let value := "b\u2003 editor-x b\teditors-y\u00A0".toList
    let kept := "b b editors-y".toList
    clean? value = some kept ∧
      words kept = (words value).filter (fun w => !"editor-".toList.isPrefixOf w) ∧
      utf8Size kept ≤ utf8Size value ∧ clean? kept = none := by
  intro value kept
  have hclean : clean? value = some kept := by decide +kernel
  obtain ⟨hwords, hsize, hclean'⟩ := (clean_normalForm value).2 kept hclean
  exact ⟨hclean, hwords, hsize, hclean' (by decide)⟩

end Mailout.ClassList
