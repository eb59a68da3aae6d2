import Mailout.Proofs.Text.Letters

/-!
# The bytes of a text

Offsets that leave the library count the bytes of UTF-8. A byte below 128 is always a character of
its own there, so what is found among such bytes is found at a character too.

## Main statements

* `utf8Bytes_injective` — different texts have different bytes;
* `utf8Bytes_lowerAscii` — small letters may be taken byte by byte;
* `exists_of_utf8Bytes_eq` — a byte below 128 begins a character;
* `exists_start_of_utf8Bytes_eq` — bytes below 128 that the encoding begins with are the encoding of
  what the text begins with.
-/

namespace Mailout.Text

/-- The bytes of the text in UTF-8. -/
def utf8Bytes (s : Text) : List UInt8 := s.flatMap String.utf8EncodeChar

@[simp] theorem utf8Bytes_nil : utf8Bytes [] = [] := rfl

@[simp] theorem utf8Bytes_cons (c : Char) (s : Text) :
    utf8Bytes (c :: s) = String.utf8EncodeChar c ++ utf8Bytes s := rfl

@[simp] theorem utf8Bytes_append (s t : Text) : utf8Bytes (s ++ t) = utf8Bytes s ++ utf8Bytes t :=
  List.flatMap_append

@[simp] theorem length_utf8Bytes (s : Text) : (utf8Bytes s).length = utf8Size s := by
  induction s with
  | nil => rfl
  | cons c s ih => simp [ih]

theorem utf8Bytes_injective {s t : Text} (h : utf8Bytes s = utf8Bytes t) : s = t := by
  have hencode : s.utf8Encode = t.utf8Encode := congrArg List.toByteArray h
  rw [← String.toByteArray_ofList, ← String.toByteArray_ofList, String.toByteArray_inj] at hencode
  exact String.ofList_injective hencode

/-! ## Bytes below 128 -/

/-- An ASCII character is one byte. -/
theorem utf8EncodeChar_of_lt {c : Char} (h : c.toNat < 128) :
    String.utf8EncodeChar c = [UInt8.ofNat c.toNat] := by
  have hle : c.val.toNat ≤ 0x7f := Nat.le_of_lt_succ h
  simp only [String.utf8EncodeChar, hle, if_true]
  rfl

/-- The bytes of any other character are all above. -/
theorem le_of_mem_utf8EncodeChar {c : Char} (h : 128 ≤ c.toNat) {b : UInt8}
    (hb : b ∈ String.utf8EncodeChar c) : 128 ≤ b.toNat := by
  have hlarge (x m n : Nat) (hn : 128 ≤ n) (hm : 0 < m) (hmn : m + n ≤ 256) :
      128 ≤ (UInt8.ofNat (x % m + n)).toNat := by
    have := Nat.mod_lt x hm
    rw [UInt8.toNat_ofNat', Nat.mod_eq_of_lt (by omega)]
    omega
  have hgt : ¬ c.val.toNat ≤ 0x7f := Nat.not_le.mpr h
  simp only [String.utf8EncodeChar, hgt, if_false] at hb
  split at hb
  · simp only [List.mem_cons, List.not_mem_nil, or_false] at hb
    rcases hb with rfl | rfl <;> exact hlarge _ _ _ (by decide) (by decide) (by decide)
  · split at hb
    · simp only [List.mem_cons, List.not_mem_nil, or_false] at hb
      rcases hb with rfl | rfl | rfl <;> exact hlarge _ _ _ (by decide) (by decide) (by decide)
    · simp only [List.mem_cons, List.not_mem_nil, or_false] at hb
      rcases hb with rfl | rfl | rfl | rfl <;>
        exact hlarge _ _ _ (by decide) (by decide) (by decide)

/-- A byte below 128 is all there is of its character. -/
theorem utf8EncodeChar_of_mem {c : Char} {b : UInt8} (hb : b.toNat < 128)
    (h : b ∈ String.utf8EncodeChar c) : String.utf8EncodeChar c = [b] := by
  have hc : c.toNat < 128 :=
    Nat.lt_of_not_le fun hc => Nat.not_le.mpr hb (le_of_mem_utf8EncodeChar hc h)
  rw [utf8EncodeChar_of_lt hc] at h ⊢
  rw [List.mem_singleton.mp h]

/-- **A byte below 128 begins a character.** -/
theorem exists_of_utf8Bytes_eq {s : Text} {front rest : List UInt8} {b : UInt8} (hb : b.toNat < 128)
    (h : utf8Bytes s = front ++ b :: rest) :
    ∃ before after, s = before ++ after ∧ utf8Bytes before = front ∧
      utf8Bytes after = b :: rest := by
  induction s generalizing front with
  | nil => simp at h
  | cons c s ih =>
    have later {front' : List UInt8} (hfront : front = String.utf8EncodeChar c ++ front')
        (hs : utf8Bytes s = front' ++ b :: rest) :
        ∃ before after, c :: s = before ++ after ∧ utf8Bytes before = front ∧
          utf8Bytes after = b :: rest := by
      obtain ⟨before, after, rfl, rfl, hafter⟩ := ih hs
      exact ⟨c :: before, after, rfl, hfront.symm, hafter⟩
    rw [utf8Bytes_cons] at h
    rcases List.append_eq_append_iff.mp h with ⟨front', hfront, hs⟩ | ⟨back, hc, hback⟩
    · exact later hfront hs
    · cases back with
      | nil =>
        rw [List.append_nil] at hc
        exact later (by rw [hc, List.append_nil]) (show utf8Bytes s = [] ++ b :: rest from hback.symm)
      | cons d back =>
        -- the byte belongs to the first character, which has no other one
        obtain ⟨rfl, hrest⟩ := List.cons.inj hback
        have hsingle := utf8EncodeChar_of_mem hb (c := c) (by rw [hc]; simp)
        rw [hsingle, List.singleton_eq_append_iff] at hc
        obtain ⟨rfl, -⟩ | ⟨-, hnil⟩ := hc
        · exact ⟨[], c :: s, rfl, rfl, h⟩
        · cases hnil

/-- Bytes below 128 at the start of the encoding are the encoding of what the text begins with. -/
theorem exists_start_of_utf8Bytes_eq {s : Text} {start rest : List UInt8}
    (hstart : ∀ b ∈ start, b.toNat < 128) (h : utf8Bytes s = start ++ rest) :
    ∃ before after, s = before ++ after ∧ utf8Bytes before = start ∧ utf8Bytes after = rest := by
  induction start generalizing s with
  | nil => exact ⟨[], s, rfl, rfl, h⟩
  | cons b start ih =>
    rw [List.forall_mem_cons] at hstart
    cases s with
    | nil => simp at h
    | cons c s =>
      obtain ⟨d, enc, henc⟩ := List.exists_cons_of_ne_nil (@String.utf8EncodeChar_ne_nil c)
      rw [utf8Bytes_cons, henc, List.cons_append, List.cons_append] at h
      obtain ⟨rfl, hs⟩ := List.cons.inj h
      have hsingle := utf8EncodeChar_of_mem hstart.1 (c := c) (by rw [henc]; simp)
      obtain rfl : enc = [] := (List.cons.inj (henc.symm.trans hsingle)).2
      obtain ⟨before, after, rfl, rfl, hafter⟩ := ih hstart.2 hs
      exact ⟨c :: before, after, rfl, by rw [utf8Bytes_cons, hsingle]; rfl, hafter⟩

/-! ## Small letters -/

/-- The byte of the small letter for that of an ASCII capital; every other byte is kept. -/
def lowerByte (b : UInt8) : UInt8 := if 65 ≤ b.toNat ∧ b.toNat ≤ 90 then b + 32 else b

/-- **Small letters may be taken byte by byte.** -/
theorem utf8Bytes_lowerAscii (s : Text) :
    utf8Bytes (lowerAscii s) = (utf8Bytes s).map lowerByte := by
  induction s with
  | nil => rfl
  | cons c s ih =>
    have hc : String.utf8EncodeChar c.toLower = (String.utf8EncodeChar c).map lowerByte := by
      by_cases hsmall : c.toNat < 128
      · have hlower := toNat_toLower c
        have hbyte : (UInt8.ofNat c.toNat).toNat = c.toNat := by
          rw [UInt8.toNat_ofNat', Nat.mod_eq_of_lt (by omega)]
        rw [utf8EncodeChar_of_lt hsmall, utf8EncodeChar_of_lt (by split at hlower <;> omega), hlower]
        simp only [List.map_cons, List.map_nil, lowerByte, hbyte]
        split
        · rw [UInt8.ofNat_add]
          rfl
        · rfl
      · have hlower : c.toLower = c := by
          refine Char.toNat_inj.mp ?_
          rw [toNat_toLower, if_neg (by omega)]
        have hkept (b : UInt8) (hb : b ∈ String.utf8EncodeChar c) : lowerByte b = b := by
          have := le_of_mem_utf8EncodeChar (Nat.le_of_not_lt hsmall) hb
          rw [lowerByte, if_neg (by omega)]
        rw [hlower, List.map_congr_left hkept, List.map_id']
    show String.utf8EncodeChar c.toLower ++ utf8Bytes (lowerAscii s) = _
    rw [hc, ih, utf8Bytes_cons, List.map_append]

end Mailout.Text
