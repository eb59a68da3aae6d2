import Mailout.Text.Basic

/-!
# Blank characters

Two classes of blank characters are in use. `isBlank` is the property White_Space of Unicode: it
separates the words of a class list and pads the name inside a merge tag. `isMarkupSpace` is the
smaller ASCII class that separates the parts of a tag.

## Words

`words` cuts text at its blanks. Its result holds no empty word and no blank, and joining words by
single spaces and cutting again changes nothing (`words_joinWords`).
-/

namespace Mailout.Text

/-! ## The two classes -/

/-- The property White_Space. -/
def isBlank (c : Char) : Bool :=
  let n := c.toNat
  (0x09 ≤ n && n ≤ 0x0D) || n == 0x20 || n == 0x85 || n == 0xA0 || n == 0x1680
    || (0x2000 ≤ n && n ≤ 0x200A) || n == 0x2028 || n == 0x2029 || n == 0x202F || n == 0x205F
    || n == 0x3000

/-- Space, tab, line feed, form feed and carriage return. -/
def isMarkupSpace (c : Char) : Bool :=
  c == ' ' || c == '\t' || c == '\n' || c == '\x0C' || c == '\r'

/-! ## Trimming -/

/-- The text without the blanks it begins with. -/
def trimStart (s : Text) : Text := s.dropWhile isBlank

/-- The text without the blanks it begins and ends with. -/
def trim (s : Text) : Text := (trimStart (trimStart s).reverse).reverse

/-! ## Words -/

/-- Characters of the word being read, in front of the words of the rest. -/
private def joinWord (word : Text) (rest : List Text) : List Text :=
  if word.isEmpty then rest else word :: rest

/-- The words of a text whose first word already has the characters `word`. -/
def wordsFrom (word : Text) : Text → List Text
  | [] => joinWord word []
  | c :: s => if isBlank c then joinWord word (wordsFrom [] s) else wordsFrom (word ++ [c]) s

/-- The non-empty pieces between blanks, in order. -/
def words (s : Text) : List Text := wordsFrom [] s

/-- Words put together with one space between neighbours. -/
def joinWords (ws : List Text) : Text := List.intercalate [' '] ws

theorem joinWords_singleton (w : Text) : joinWords [w] = w := List.intercalate_singleton

theorem joinWords_cons_cons (w v : Text) (ws : List Text) :
    joinWords (w :: v :: ws) = w ++ ' ' :: joinWords (v :: ws) := by
  simp [joinWords, List.intercalate, List.intersperse]

private theorem wordsFrom_append_of_unblank {w : Text} (hw : ∀ c ∈ w, isBlank c = false) (v s : Text) :
    wordsFrom v (w ++ s) = wordsFrom (v ++ w) s := by
  induction w generalizing v with
  | nil => simp
  | cons c w ih =>
    have hc : isBlank c = false := hw c (by simp)
    rw [List.cons_append, wordsFrom, hc]
    simp only [Bool.false_eq_true, if_false]
    rw [ih (fun d hd => hw d (by simp [hd])) (v ++ [c])]
    simp

/-- **Cutting undoes joining.** Words without a blank, none of them empty, come back. -/
theorem words_joinWords {ws : List Text} (h : ∀ w ∈ ws, w ≠ [] ∧ ∀ c ∈ w, isBlank c = false) :
    words (joinWords ws) = ws := by
  induction ws with
  | nil => rfl
  | cons w ws ih =>
    have hw := h w (by simp)
    have ih := ih (fun v hv => h v (by simp [hv]))
    cases ws with
    | nil =>
      have := wordsFrom_append_of_unblank hw.2 [] []
      simp only [List.append_nil, List.nil_append] at this
      rw [joinWords_singleton, words, this]
      simp [wordsFrom, joinWord, hw.1]
    | cons v vs =>
      rw [words, joinWords_cons_cons, wordsFrom_append_of_unblank hw.2, List.nil_append, wordsFrom]
      have hs : isBlank ' ' = true := by decide
      rw [hs]
      simp only [if_true]
      rw [show wordsFrom [] (joinWords (v :: vs)) = v :: vs from ih]
      simp [joinWord, hw.1]

private theorem mem_wordsFrom {s : Text} : ∀ {v w : Text}, (∀ c ∈ v, isBlank c = false) →
    w ∈ wordsFrom v s → w ≠ [] ∧ ∀ c ∈ w, isBlank c = false := by
  induction s with
  | nil =>
    intro v w hv hw
    simp only [wordsFrom, joinWord] at hw
    split at hw
    · simp at hw
    · simp only [List.mem_singleton] at hw
      subst hw
      exact ⟨by simp_all, hv⟩
  | cons c s ih =>
    intro v w hv hw
    simp only [wordsFrom] at hw
    split at hw
    · simp only [joinWord] at hw
      split at hw
      · exact ih (by simp) hw
      · rcases List.mem_cons.mp hw with rfl | hw
        · exact ⟨by simp_all, hv⟩
        · exact ih (by simp) hw
    · next hc =>
      refine ih (fun d hd => ?_) hw
      rcases List.mem_append.mp hd with hd | hd
      · exact hv d hd
      · simp only [List.mem_singleton] at hd
        subst hd
        simpa using hc

private theorem infix_of_mem_wordsFrom {s : Text} : ∀ {v w : Text}, w ∈ wordsFrom v s →
    w <:+: v ++ s := by
  have hjoin {v w : Text} {ws : List Text} (h : w ∈ joinWord v ws) : w = v ∨ w ∈ ws := by
    unfold joinWord at h
    split at h
    · exact Or.inr h
    · exact List.mem_cons.mp h
  induction s with
  | nil =>
    intro v w h
    rcases hjoin h with rfl | h
    · simp
    · cases h
  | cons c s ih =>
    intro v w h
    rw [wordsFrom] at h
    split at h
    · rcases hjoin h with rfl | h
      · exact (List.prefix_append _ _).isInfix
      · exact (ih h).trans ((List.suffix_cons c s).trans (List.suffix_append v _)).isInfix
    · simpa using ih h

private theorem flatten_wordsFrom (v s : Text) :
    (wordsFrom v s).flatten = v ++ s.filter (!isBlank ·) := by
  have hjoin (w : Text) (ws : List Text) : (joinWord w ws).flatten = w ++ ws.flatten := by
    unfold joinWord
    split
    · simp_all
    · rfl
  induction s generalizing v with
  | nil => simp [wordsFrom, hjoin]
  | cons c s ih =>
    rw [wordsFrom]
    split
    · next hc => rw [hjoin, ih []]; simp [hc]
    · next hc => rw [ih (v ++ [c])]; simp [hc]

/-- The words hold all of the text but its blanks. -/
theorem flatten_words (s : Text) : (words s).flatten = s.filter (!isBlank ·) :=
  flatten_wordsFrom [] s

private theorem utf8Size_wordsFrom_le (v s : Text) :
    utf8Size (wordsFrom v s).flatten + (wordsFrom v s).length ≤ utf8Size v + utf8Size s + 1 := by
  have hjoin (w : Text) (ws : List Text) :
      utf8Size (joinWord w ws).flatten + (joinWord w ws).length
        ≤ utf8Size w + utf8Size ws.flatten + ws.length + 1 := by
    unfold joinWord
    split
    · omega
    · simp [Nat.add_assoc]
  have hempty (ws : List Text) : joinWord [] ws = ws := rfl
  induction s generalizing v with
  | nil => exact hjoin v []
  | cons c s ih =>
    have hpos := c.utf8Size_pos
    rw [wordsFrom, utf8Size_cons]
    split
    · cases v with
      | nil =>
        have hle := ih []
        rw [hempty]
        omega
      | cons d v =>
        have hle := hjoin (d :: v) (wordsFrom [] s)
        have hrest := ih []
        rw [utf8Size_nil] at hrest
        omega
    · have hle := ih (v ++ [c])
      rw [utf8Size_append, utf8Size_cons, utf8Size_nil] at hle
      omega

/-- The words, and one separator for each but one, take up no more than the text. -/
theorem utf8Size_words_le (s : Text) :
    utf8Size (words s).flatten + (words s).length ≤ utf8Size s + 1 := by
  have hle := utf8Size_wordsFrom_le [] s
  rwa [utf8Size_nil, Nat.zero_add] at hle

private theorem exists_wordsFrom (s : Text) :
    ∃ w ws, ∀ v, wordsFrom v s = joinWord (v ++ w) ws := by
  induction s with
  | nil => exact ⟨[], [], fun v => by rw [List.append_nil, wordsFrom]⟩
  | cons c s ih =>
    obtain ⟨w, ws, hs⟩ := ih
    by_cases hc : isBlank c = true
    · exact ⟨[], wordsFrom [] s, fun v => by rw [wordsFrom, if_pos hc, List.append_nil]⟩
    · exact ⟨c :: w, ws, fun v => by rw [wordsFrom, if_neg hc, hs, List.append_assoc]; rfl⟩

/-- Another character in front of a text comes to its first word, or it is a word of its own. -/
theorem exists_words_cons {c : Char} (hc : isBlank c = false) (s : Text) :
    ∃ w ws, words s = (if w.isEmpty then ws else w :: ws) ∧ words (c :: s) = (c :: w) :: ws := by
  obtain ⟨w, ws, hs⟩ := exists_wordsFrom s
  have hcons : wordsFrom [] (c :: s) = wordsFrom [c] s := by
    rw [wordsFrom, if_neg (by simp [hc]), List.nil_append]
  exact ⟨w, ws, hs [], hcons.trans (hs [c])⟩

/-- A word is not empty and has no blank. -/
theorem mem_words {s w : Text} (h : w ∈ words s) : w ≠ [] ∧ ∀ c ∈ w, isBlank c = false :=
  mem_wordsFrom (by simp) h

/-- A text without words is blank. -/
theorem words_eq_nil_iff {s : Text} : words s = [] ↔ s.all isBlank = true := by
  have hflatten : s.filter (!isBlank ·) = [] ↔ s.all isBlank = true := by
    simp [List.filter_eq_nil_iff]
  rw [← hflatten, ← flatten_words, List.flatten_eq_nil_iff]
  refine ⟨fun h w hw => absurd hw (by simp [h]), fun h => List.eq_nil_iff_forall_not_mem.mpr ?_⟩
  exact fun w hw => (mem_words hw).1 (h w hw)

/-- A word is a part of its text. -/
theorem infix_of_mem_words {s w : Text} (h : w ∈ words s) : w <:+: s := infix_of_mem_wordsFrom h

end Mailout.Text
