import Mailout.Json.Text
import Mailout.Json.Writer

/-!
# Written text is read back

Writing puts an escape for the quote, for the backslash and for the characters below the space, and
leaves all others as they are. What stands for a character is read as this character
(`textBody_escapeChar`), so a written text is read back up to its closing quote, whatever follows.

## Main statements

* `textBody_written` — the characters of a written text and its closing quote are read as the text.
-/

namespace Mailout.Json

open Text

/-! ## Escapes by number -/

theorem hexValue_digitChar : ∀ n < 16, hexValue (Nat.digitChar n) = some n := by
  decide

/-- The number of a character below the space is written with two zeros in front. -/
theorem hexQuad_control {n : Nat} (hn : n < 0x20) (rest : Text) :
    hexQuad ('0' :: '0' :: Nat.digitChar (n / 16) :: Nat.digitChar (n % 16) :: rest)
      = .ok (n, rest) := by
  have hlong : ¬ utf8Size
      (('0' :: '0' :: Nat.digitChar (n / 16) :: Nat.digitChar (n % 16) :: rest).take 4) < 4 := by
    have hhi := Char.utf8Size_pos (Nat.digitChar (n / 16))
    have hlo := Char.utf8Size_pos (Nat.digitChar (n % 16))
    have hzero : Char.utf8Size '0' = 1 := rfl
    simp only [List.take_succ_cons, List.take_zero, utf8Size_cons, utf8Size_nil, hzero]
    omega
  have hvalue : ((0 * 16 + 0) * 16 + n / 16) * 16 + n % 16 = n := by omega
  rw [hexQuad, if_neg hlong, hexValue_digitChar _ (by omega), hexValue_digitChar _ (by omega),
    show hexValue '0' = some 0 from rfl]
  simp only [hvalue]

theorem unicodeEscape_control {c : Char} (hc : c.toNat < 0x20) (rest : Text) :
    unicodeEscape ('0' :: '0' :: Nat.digitChar (c.toNat / 16) :: Nat.digitChar (c.toNat % 16) :: rest)
      = .ok (c, rest) := by
  have hlone : ¬ (0xDC00 ≤ c.toNat && c.toNat ≤ 0xDFFF) = true := by simp; omega
  have hplain : (c.toNat < 0xD800 || 0xDBFF < c.toNat) = true := by simp; omega
  simp only [unicodeEscape, hexQuad_control hc]
  rw [if_neg hlone, if_pos hplain, Char.ofNat_toNat]

/-! ## Characters -/

/-- A character that is read from an escape. -/
theorem textBody_escape {s s' t r : Text} {c : Char} (hescape : escape s = .ok (c, s'))
    (h : textBody s' = .ok (t, r)) : textBody ('\\' :: s) = .ok (c :: t, r) := by
  rw [textBody]
  split
  · next e he => rw [hescape] at he; cases he
  · next c' s'' he =>
    rw [hescape] at he
    cases he
    rw [h]

/-- A character that is read as it is. -/
theorem textBody_plain {s t r : Text} {c : Char} (hquote : c ≠ '"') (hslash : c ≠ '\\')
    (hcontrol : ¬ c.toNat < 0x20) (h : textBody s = .ok (t, r)) :
    textBody (c :: s) = .ok (c :: t, r) := by
  rw [textBody]
  · rw [if_neg hcontrol, h]
  · exact hquote
  · exact hslash

/-- **What stands for a character is read as this character.** -/
theorem textBody_escapeChar (c : Char) {s t r : Text} (h : textBody s = .ok (t, r)) :
    textBody (escapeChar c ++ s) = .ok (c :: t, r) := by
  unfold escapeChar
  split
  case h_8 hquote hslash _ _ _ _ _ =>
    split
    · next hcontrol => exact textBody_escape (unicodeEscape_control hcontrol s) h
    · next hcontrol => exact textBody_plain hquote hslash hcontrol h
  all_goals exact textBody_escape rfl h

/-- **A written text is read back up to its closing quote.** -/
theorem textBody_written (t rest : Text) :
    textBody (t.flatMap escapeChar ++ '"' :: rest) = .ok (t, rest) := by
  induction t with
  | nil => rw [List.flatMap_nil, List.nil_append, textBody]
  | cons c t ih =>
    rw [List.flatMap_cons, List.append_assoc]
    exact textBody_escapeChar c ih

end Mailout.Json
