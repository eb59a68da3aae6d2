import Mailout.Proofs.Text.Bytes

/-!
# The order of texts by their bytes

Texts are ordered by their characters. UTF-8 keeps this order: of two characters the greater one has
the greater byte at the first place where their bytes differ, and there is such a place.

## Main statements

* `utf8EncodeChar_append_lt` — the first different character decides;
* `utf8Bytes_lt_iff` — the order of the bytes is the order of the texts.
-/

namespace Mailout.Text

/-- The bytes of a character, by their number: a first byte that tells how many follow, and a digit
to base 64 in every byte. -/
theorem utf8EncodeChar_cases (c : Char) :
    c.toNat < 128 ∧ String.utf8EncodeChar c = [UInt8.ofNat c.toNat] ∨
    (∃ x y, 2 ≤ x ∧ x < 32 ∧ y < 64 ∧ c.toNat = 64 * x + y ∧
      String.utf8EncodeChar c = [UInt8.ofNat (x + 192), UInt8.ofNat (y + 128)]) ∨
    (∃ x y z, x < 16 ∧ y < 64 ∧ z < 64 ∧ c.toNat = 4096 * x + 64 * y + z ∧ 2048 ≤ c.toNat ∧
      String.utf8EncodeChar c
        = [UInt8.ofNat (x + 224), UInt8.ofNat (y + 128), UInt8.ofNat (z + 128)]) ∨
    ∃ x y z w, x < 8 ∧ y < 64 ∧ z < 64 ∧ w < 64 ∧
      c.toNat = 262144 * x + 4096 * y + 64 * z + w ∧ 65536 ≤ c.toNat ∧
      String.utf8EncodeChar c = [UInt8.ofNat (x + 240), UInt8.ofNat (y + 128),
        UInt8.ofNat (z + 128), UInt8.ofNat (w + 128)] := by
  have hmax : c.toNat < 1114112 := by
    rcases c.valid with hc | hc
    · exact Nat.lt_trans hc (by decide)
    · exact hc.2
  have hval : c.val.toNat = c.toNat := rfl
  simp only [String.utf8EncodeChar, hval]
  split
  · exact .inl ⟨by omega, rfl⟩
  · split
    · exact .inr (.inl ⟨_, _, by omega, by omega, by omega, by omega, rfl⟩)
    · split
      · exact .inr (.inr (.inl ⟨_, _, _, by omega, by omega, by omega, by omega, by omega, rfl⟩))
      · exact .inr (.inr (.inr ⟨_, _, _, _, by omega, by omega, by omega, by omega, by omega,
          by omega, rfl⟩))

/-- **The bytes of the greater character come later**, whatever follows. -/
theorem utf8EncodeChar_append_lt {c d : Char} (h : c < d) (s t : List UInt8) :
    String.utf8EncodeChar c ++ s < String.utf8EncodeChar d ++ t := by
  have hlt : c.toNat < d.toNat := h
  have hbyte (n : Nat) : (UInt8.ofNat n).toNat = n % 256 := UInt8.toNat_ofNat'
  -- a longer encoding has a greater first byte; in one of the same length the digits are compared
  rcases utf8EncodeChar_cases c with ⟨_, ec⟩ | ⟨_, _, _, _, _, _, ec⟩ |
      ⟨_, _, _, _, _, _, _, _, ec⟩ | ⟨_, _, _, _, _, _, _, _, _, _, ec⟩ <;>
    rcases utf8EncodeChar_cases d with ⟨_, ed⟩ | ⟨_, _, _, _, _, _, ed⟩ |
      ⟨_, _, _, _, _, _, _, _, ed⟩ | ⟨_, _, _, _, _, _, _, _, _, _, ed⟩ <;>
    rw [ec, ed] <;>
    simp only [List.cons_append, List.nil_append, List.cons_lt_cons_iff, UInt8.lt_iff_toNat_lt,
      ← UInt8.toNat_inj, hbyte] <;>
    omega

/-- The bytes of a text that comes earlier come earlier. -/
theorem utf8Bytes_lt {s t : Text} (h : s < t) : utf8Bytes s < utf8Bytes t := by
  induction s generalizing t with
  | nil =>
    cases t with
    | nil => exact absurd h (List.not_lt_nil _)
    | cons d t =>
      obtain ⟨b, bytes, hbytes⟩ := List.exists_cons_of_ne_nil (@String.utf8EncodeChar_ne_nil d)
      rw [utf8Bytes_nil, utf8Bytes_cons, hbytes]
      exact List.nil_lt_cons b _
  | cons c s ih =>
    cases t with
    | nil => exact absurd h (List.not_lt_nil _)
    | cons d t =>
      rcases List.cons_lt_cons_iff.mp h with hcd | ⟨rfl, hst⟩
      · exact utf8EncodeChar_append_lt hcd _ _
      · exact List.append_left_lt (ih hst)

/-- **The order of the bytes is the order of the texts.** -/
theorem utf8Bytes_lt_iff {s t : Text} : utf8Bytes s < utf8Bytes t ↔ s < t := by
  refine ⟨fun h => ?_, utf8Bytes_lt⟩
  by_cases hst : s < t
  · exact hst
  · by_cases hts : t < s
    · exact absurd h (List.lt_asymm (utf8Bytes_lt hts))
    · obtain rfl := List.le_antisymm (List.not_lt.mp hts) (List.not_lt.mp hst)
      exact absurd h (List.lt_irrefl _)

end Mailout.Text
