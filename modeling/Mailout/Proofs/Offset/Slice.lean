import Mailout.Proofs.MergeTag.Occurrences
import Mailout.Proofs.Text.Bytes
import Mailout.Proofs.Text.Search

/-!
# Parts of a text by byte offset

A text is stored as bytes in UTF-8, and a part of it is taken between two byte offsets. That is a
fault if the offsets are the wrong way round, lie behind the end of the text or inside a character.
What takes parts by offset is therefore written with `Except Fault`, and there is no fault in it
where the result is `.ok`.

## Positions

`LeftAt s pos rest` says that `rest` is what is left of `s` at the offset `pos`. Such offsets are
those between characters, and a reader that goes on by a part of what is left is at such an offset
again (`LeftAt.append`).

## Main statements

* `slice_eq_ok_iff` — a part is taken if it stands between the offsets, and only then;
* `exists_slice_iff` — which is between any two offsets in order that lie between characters;
* `find_eq`, `find_cons`, `find_append_of_not_mem` — searching from an offset on, and moving that
  offset;
* `takeWhile_utf8Bytes` — a leading part of ASCII characters may be told by its bytes.
-/

namespace Mailout.Offset

open Text

/-! ## Faults -/

/-- Why a part of a text cannot be taken, or an offset not be reckoned. -/
inductive Fault where
  /-- The part ends in front of its start. -/
  | reversed
  /-- An offset lies behind the end of the text. -/
  | outside
  /-- An offset lies inside a character. -/
  | inside
  /-- A difference of offsets is below zero. -/
  | negative
  deriving DecidableEq, Repr

/-- The difference of two offsets. -/
def minus (i j : Nat) : Except Fault Nat := if i < j then .error .negative else .ok (i - j)

theorem minus_eq {i j : Nat} (h : j ≤ i) : minus i j = .ok (i - j) := if_neg (Nat.not_lt.mpr h)

/-- A text without bytes has no characters. -/
theorem eq_nil_of_utf8Size_eq_zero {s : Text} (h : utf8Size s = 0) : s = [] := by
  cases s with
  | nil => rfl
  | cons c s =>
    have hpos := c.utf8Size_pos
    rw [utf8Size_cons] at h
    omega

/-! ## Taking a part -/

/-- The text in front of an offset, and the text from it on, if it lies between characters. -/
def split? : Nat → Text → Option (Text × Text)
  | 0, s => some ([], s)
  | _ + 1, [] => none
  | i + 1, c :: s =>
    if c.utf8Size ≤ i + 1 then (split? (i + 1 - c.utf8Size) s).map fun p => (c :: p.1, p.2)
    else none

/-- The same, with the fault if there is one. -/
def split (s : Text) (i : Nat) : Except Fault (Text × Text) :=
  if utf8Size s < i then .error .outside
  else
    match split? i s with
    | some p => .ok p
    | none => .error .inside

/-- The part of a text between two offsets. -/
def slice (s : Text) (start stop : Nat) : Except Fault Text := do
  if stop < start then throw .reversed
  let (front, _) ← split s stop
  let (_, part) ← split front start
  return part

/-- The text from an offset on. -/
def sliceFrom (s : Text) (start : Nat) : Except Fault Text := slice s start (utf8Size s)

/-- The text in front of an offset. -/
def sliceTo (s : Text) (stop : Nat) : Except Fault Text := slice s 0 stop

theorem split?_append (front rest : Text) :
    split? (utf8Size front) (front ++ rest) = some (front, rest) := by
  induction front with
  | nil => cases rest <;> rfl
  | cons c front ih =>
    have hpos := c.utf8Size_pos
    obtain ⟨i, hi⟩ := Nat.exists_eq_succ_of_ne_zero (n := utf8Size (c :: front)) (by
      rw [utf8Size_cons]
      omega)
    have hsize : i + 1 = c.utf8Size + utf8Size front := by rw [← utf8Size_cons, hi]
    rw [hi, List.cons_append, split?, if_pos (by omega),
      show i + 1 - c.utf8Size = utf8Size front by omega, ih]
    rfl

theorem split?_eq_some {i : Nat} {s front rest : Text} (h : split? i s = some (front, rest)) :
    s = front ++ rest ∧ utf8Size front = i := by
  induction s generalizing i front with
  | nil =>
    cases i with
    | zero =>
      obtain ⟨rfl, rfl⟩ := Prod.mk.inj (Option.some.inj h)
      exact ⟨rfl, rfl⟩
    | succ i => cases h
  | cons c s ih =>
    cases i with
    | zero =>
      obtain ⟨rfl, rfl⟩ := Prod.mk.inj (Option.some.inj h)
      exact ⟨rfl, rfl⟩
    | succ i =>
      rw [split?] at h
      split at h
      · next hle =>
        obtain ⟨⟨front', rest'⟩, hsplit, heq⟩ := Option.map_eq_some_iff.mp h
        obtain ⟨rfl, rfl⟩ := Prod.mk.inj heq
        obtain ⟨rfl, hsize⟩ := ih hsplit
        refine ⟨rfl, ?_⟩
        rw [utf8Size_cons, hsize]
        omega
      · cases h

theorem split_append (front rest : Text) :
    split (front ++ rest) (utf8Size front) = .ok (front, rest) := by
  rw [split, if_neg (by simp), split?_append]

theorem split_eq_ok {i : Nat} {s front rest : Text} (h : split s i = .ok (front, rest)) :
    s = front ++ rest ∧ utf8Size front = i := by
  unfold split at h
  split at h
  · cases h
  · split at h
    · next hsplit =>
      obtain rfl := Except.ok.inj h
      exact split?_eq_some hsplit
    · cases h

/-- What a composed computation comes to, it comes to step by step. -/
theorem exists_of_bind_eq_ok {α β : Type} {x : Except Fault α} {f : α → Except Fault β} {b : β}
    (h : x >>= f = .ok b) : ∃ a, x = .ok a ∧ f a = .ok b := by
  cases x with
  | error fault => cases h
  | ok a => exact ⟨a, rfl, h⟩

/-- **A part is taken exactly if it stands between the offsets.** -/
theorem slice_eq_ok_iff {s part : Text} {start stop : Nat} :
    slice s start stop = .ok part ↔ StandsAt part start stop s := by
  constructor
  · intro h
    unfold slice at h
    split at h
    · cases h
    · obtain ⟨⟨front, after⟩, hstop, h⟩ := exists_of_bind_eq_ok h
      obtain ⟨⟨before, part'⟩, hstart, h⟩ := exists_of_bind_eq_ok h
      obtain rfl := Except.ok.inj h
      obtain ⟨rfl, rfl⟩ := split_eq_ok hstop
      obtain ⟨rfl, rfl⟩ := split_eq_ok hstart
      exact ⟨before, after, rfl, rfl, rfl⟩
  · rintro ⟨before, after, rfl, rfl, rfl⟩
    have hle : ¬ utf8Size (before ++ part) < utf8Size before := by simp
    rw [slice, if_neg hle]
    show (split (before ++ part ++ after) _ >>= _) = _
    rw [split_append]
    show (split (before ++ part) _ >>= _) = _
    rw [split_append]
    rfl

/-! ## Positions -/

/-- What is left of a text at an offset. -/
def LeftAt (s : Text) (pos : Nat) (rest : Text) : Prop :=
  ∃ front, s = front ++ rest ∧ utf8Size front = pos

theorem leftAt_zero (s : Text) : LeftAt s 0 s := ⟨[], rfl, rfl⟩

namespace LeftAt

variable {s part rest : Text} {pos : Nat}

theorem append (h : LeftAt s pos (part ++ rest)) : LeftAt s (pos + utf8Size part) rest := by
  obtain ⟨front, rfl, rfl⟩ := h
  exact ⟨front ++ part, (List.append_assoc front part rest).symm, utf8Size_append front part⟩

theorem cons {c : Char} (h : LeftAt s pos (c :: rest)) : LeftAt s (pos + c.utf8Size) rest :=
  @append s [c] rest pos h

theorem add_utf8Size (h : LeftAt s pos rest) : pos + utf8Size rest = utf8Size s := by
  obtain ⟨front, rfl, rfl⟩ := h
  exact (utf8Size_append front rest).symm

/-- The part that comes first can be taken. -/
theorem slice (h : LeftAt s pos (part ++ rest)) :
    slice s pos (pos + utf8Size part) = .ok part := by
  obtain ⟨front, rfl, rfl⟩ := h
  exact slice_eq_ok_iff.mpr
    ⟨front, rest, (List.append_assoc front part rest).symm, rfl, utf8Size_append front part⟩

/-- So can all that is left. -/
theorem sliceFrom (h : LeftAt s pos rest) : sliceFrom s pos = .ok rest := by
  have hall := h
  rw [← List.append_nil rest] at hall
  rw [Offset.sliceFrom, ← h.add_utf8Size, hall.slice]

end LeftAt

/-- And so can the text in front of what is left. -/
theorem sliceTo_append (front rest : Text) :
    sliceTo (front ++ rest) (utf8Size front) = .ok front := by
  have hslice := (leftAt_zero (front ++ rest)).slice
  rwa [Nat.zero_add] at hslice

theorem leftAt_of_sliceFrom_eq_ok {s rest : Text} {pos : Nat} (h : sliceFrom s pos = .ok rest) :
    LeftAt s pos rest := by
  obtain ⟨front, after, rfl, rfl, hsize⟩ := slice_eq_ok_iff.mp h
  have hafter : after = [] := by
    rw [utf8Size_append (front ++ rest) after] at hsize
    exact eq_nil_of_utf8Size_eq_zero (by omega)
  exact ⟨front, by rw [hafter, List.append_nil], rfl⟩

/-! ## Offsets between characters -/

/-- An offset lies between characters: it is the end of the text, or the byte at it begins a
character. -/
def IsBoundary (s : Text) (i : Nat) : Prop :=
  i = utf8Size s ∨ ∃ b, (utf8Bytes s)[i]? = some b ∧ b.IsUTF8FirstByte

/-- After the start of a character there is no such offset up to the next character. -/
theorem isBoundary_cons {c : Char} {s : Text} {i : Nat} :
    IsBoundary (c :: s) i ↔ i = 0 ∨ ∃ j, i = c.utf8Size + j ∧ IsBoundary s j := by
  have hlength : (String.utf8EncodeChar c).length = c.utf8Size := String.length_utf8EncodeChar c
  have hpos := c.utf8Size_pos
  rw [IsBoundary, utf8Size_cons, utf8Bytes_cons]
  by_cases hi : i < (String.utf8EncodeChar c).length
  · have hfirst : (String.utf8EncodeChar c)[i].IsUTF8FirstByte ↔ i = 0 :=
      UInt8.isUTF8FirstByte_getElem_utf8EncodeChar
    rw [List.getElem?_append_left hi, List.getElem?_eq_getElem hi]
    constructor
    · rintro (hend | ⟨b, hb, hbyte⟩)
      · omega
      · obtain rfl := Option.some.inj hb
        exact .inl (hfirst.mp hbyte)
    · rintro (h | ⟨j, hj, -⟩)
      · exact .inr ⟨_, rfl, hfirst.mpr h⟩
      · omega
  · obtain ⟨j, rfl⟩ := Nat.exists_eq_add_of_le (Nat.le_of_not_lt hi)
    rw [List.getElem?_append_right (Nat.le_add_right _ _), Nat.add_sub_cancel_left, hlength,
      Nat.add_left_cancel_iff]
    constructor
    · exact fun h => .inr ⟨j, rfl, h⟩
    · rintro (h | ⟨k, hk, h⟩)
      · omega
      · obtain rfl := Nat.add_left_cancel hk
        exact h

/-- **Something is left at an offset exactly if it lies between characters.** -/
theorem isBoundary_iff {s : Text} {i : Nat} : IsBoundary s i ↔ ∃ rest, LeftAt s i rest := by
  induction s generalizing i with
  | nil =>
    constructor
    · rintro (rfl | ⟨b, hb, -⟩)
      · exact ⟨[], leftAt_zero _⟩
      · cases hb
    · rintro ⟨rest, front, hs, rfl⟩
      rw [(List.append_eq_nil_iff.mp hs.symm).1]
      exact .inl rfl
  | cons c s ih =>
    rw [isBoundary_cons]
    constructor
    · rintro (rfl | ⟨j, rfl, hj⟩)
      · exact ⟨c :: s, leftAt_zero _⟩
      · obtain ⟨rest, front, rfl, rfl⟩ := ih.mp hj
        exact ⟨rest, c :: front, rfl, rfl⟩
    · rintro ⟨rest, front, hs, rfl⟩
      cases front with
      | nil => exact .inl rfl
      | cons d front =>
        obtain ⟨rfl, rfl⟩ := List.cons.inj hs
        exact .inr ⟨utf8Size front, rfl, ih.mpr ⟨rest, front, rfl, rfl⟩⟩

/-- **A part can be taken exactly between two offsets in order** that lie between characters, of
which none lies behind the end. -/
theorem exists_slice_iff {s : Text} {start stop : Nat} :
    (∃ part, slice s start stop = .ok part) ↔
      start ≤ stop ∧ stop ≤ utf8Size s ∧ IsBoundary s start ∧ IsBoundary s stop := by
  constructor
  · rintro ⟨part, h⟩
    obtain ⟨before, after, rfl, rfl, rfl⟩ := slice_eq_ok_iff.mp h
    refine ⟨by simp, by simp, isBoundary_iff.mpr ⟨part ++ after, before, by simp, rfl⟩,
      isBoundary_iff.mpr ⟨after, before ++ part, rfl, rfl⟩⟩
  · rintro ⟨hle, -, hstart, hstop⟩
    obtain ⟨rest, before, rfl, rfl⟩ := isBoundary_iff.mp hstart
    obtain ⟨after, front, hs, rfl⟩ := isBoundary_iff.mp hstop
    rcases List.append_eq_append_iff.mp hs with ⟨part, rfl, rfl⟩ | ⟨part, rfl, rfl⟩
    · exact ⟨part, slice_eq_ok_iff.mpr ⟨before, after, by simp, rfl, rfl⟩⟩
    · have hpart : part = [] := by
        rw [utf8Size_append] at hle
        exact eq_nil_of_utf8Size_eq_zero (by omega)
      subst hpart
      exact ⟨[], slice_eq_ok_iff.mpr ⟨front, rest, by simp, by simp, by simp⟩⟩

/-! ## Searching -/

/-- The first place of a needle from an offset on. -/
def find (s needle : Text) (pos : Nat) : Except Fault (Option Nat) := do
  let rest ← sliceFrom s pos
  return (cut? needle rest).map fun p => pos + utf8Size p.1

section find

variable {s needle rest : Text} {pos : Nat}

theorem find_eq (h : LeftAt s pos rest) (needle : Text) :
    find s needle pos = .ok ((cut? needle rest).map fun p => pos + utf8Size p.1) := by
  rw [find, h.sliceFrom]
  rfl

/-- The needle is found where the search begins. -/
theorem find_self (hn : needle ≠ []) (h : LeftAt s pos (needle ++ rest)) :
    find s needle pos = .ok (some pos) := by
  obtain ⟨n, ns, rfl⟩ := List.exists_cons_of_ne_nil hn
  have hcut : cut? (n :: ns) (n :: ns ++ rest) = some ([], rest) :=
    @cut?_of_not_mem n ns [] List.not_mem_nil rest
  rw [find_eq h, hcut]
  rfl

/-- The search goes on by a character where the needle does not stand. -/
theorem find_cons {c : Char} (h : LeftAt s pos (c :: rest))
    (hnone : after? needle (c :: rest) = none) :
    find s needle pos = find s needle (pos + c.utf8Size) := by
  rw [find_eq h, find_eq h.cons, cut?_cons_of_none hnone, Option.map_map]
  simp only [Function.comp_def, utf8Size_cons, Nat.add_assoc]

/-- It goes on by a text without the needle's first character. -/
theorem find_append_of_not_mem {n : Char} {ns front : Text} (h : LeftAt s pos (front ++ rest))
    (hn : n ∉ front) : find s (n :: ns) pos = find s (n :: ns) (pos + utf8Size front) := by
  induction front generalizing pos with
  | nil => rfl
  | cons c front ih =>
    rw [List.mem_cons, not_or] at hn
    have hnone : after? (n :: ns) (c :: (front ++ rest)) = none := by simp [after?, hn.1]
    rw [find_cons h hnone, ih h.cons hn.2, utf8Size_cons, Nat.add_assoc]

/-- A needle that is found has a place in the text. -/
theorem find_le {i : Nat} (h : find s needle pos = .ok (some i)) :
    pos ≤ i ∧ i + utf8Size needle ≤ utf8Size s := by
  obtain ⟨rest, hrest, h⟩ := exists_of_bind_eq_ok h
  obtain ⟨⟨front, after⟩, hcut, rfl⟩ := Option.map_eq_some_iff.mp (Except.ok.inj h)
  have hsize := (leftAt_of_sliceFrom_eq_ok hrest).add_utf8Size
  rw [cut?_eq_some hcut, utf8Size_append, utf8Size_append] at hsize
  show pos ≤ pos + utf8Size front ∧ pos + utf8Size front + utf8Size needle ≤ utf8Size s
  omega

/-- So do two opening braces, of one byte each. -/
theorem find_braces_le {i : Nat} (h : find s ['{', '{'] pos = .ok (some i)) :
    pos ≤ i ∧ i + 2 ≤ utf8Size s := find_le h

end find

/-! ## Bytes -/

/-- Whether a byte is that of an ASCII character with the property. -/
def byteIs (p : Char → Bool) (b : UInt8) : Bool := p (Char.ofNat b.toNat)

/-- The properties that only ASCII characters have. -/
def IsAscii (p : Char → Bool) : Prop := ∀ c, p c = true → c.toNat < 128

section Bytes

variable {p : Char → Bool}

/-- A character with the property is one byte that has it. -/
theorem utf8EncodeChar_of_isAscii (hp : IsAscii p) {c : Char} (hc : p c = true) :
    ∃ b, String.utf8EncodeChar c = [b] ∧ byteIs p b = true := by
  have hlt := hp c hc
  refine ⟨_, utf8EncodeChar_of_lt hlt, ?_⟩
  have hbyte : (UInt8.ofNat c.toNat).toNat = c.toNat := by
    rw [UInt8.toNat_ofNat', Nat.mod_eq_of_lt (by omega)]
  rw [byteIs, hbyte, Char.ofNat_toNat, hc]

/-- No byte of any other character has it. -/
theorem not_byteIs_of_mem (hp : IsAscii p) {c : Char} (hc : p c = false) {b : UInt8}
    (hb : b ∈ String.utf8EncodeChar c) : byteIs p b = false := by
  by_cases hlt : c.toNat < 128
  · have hbyte : (UInt8.ofNat c.toNat).toNat = c.toNat := by
      rw [UInt8.toNat_ofNat', Nat.mod_eq_of_lt (by omega)]
    rw [utf8EncodeChar_of_lt hlt, List.mem_singleton] at hb
    rw [hb, byteIs, hbyte, Char.ofNat_toNat, hc]
  · have hle := le_of_mem_utf8EncodeChar (Nat.le_of_not_lt hlt) hb
    have hsize := b.toNat_lt
    cases hbyte : byteIs p b with
    | false => rfl
    | true =>
      have hall : ∀ n < 256, (Char.ofNat n).toNat = n := by decide +kernel
      have hchar := hp _ hbyte
      rw [hall b.toNat hsize] at hchar
      omega

/-- **A leading part by bytes is the leading part by characters.** -/
theorem takeWhile_utf8Bytes (hp : IsAscii p) (s : Text) :
    (utf8Bytes s).takeWhile (byteIs p) = utf8Bytes (s.takeWhile p) := by
  induction s with
  | nil => rfl
  | cons c s ih =>
    rw [utf8Bytes_cons]
    cases hc : p c with
    | true =>
      obtain ⟨b, henc, hb⟩ := utf8EncodeChar_of_isAscii hp hc
      rw [List.takeWhile_cons_of_pos hc, utf8Bytes_cons, henc, List.singleton_append,
        List.takeWhile_cons_of_pos hb, ih]
      rfl
    | false =>
      obtain ⟨b, bs, henc⟩ := List.exists_cons_of_ne_nil (@String.utf8EncodeChar_ne_nil c)
      have hb := not_byteIs_of_mem hp hc (b := b) (by rw [henc]; exact List.mem_cons_self)
      rw [List.takeWhile_cons_of_neg (by simp [hc]), henc, List.cons_append,
        List.takeWhile_cons_of_neg (by simp [hb])]
      rfl

/-- The first byte has the property if the first character does. -/
theorem head?_utf8Bytes (hp : IsAscii p) (c : Char) (s : Text) :
    ∃ b, (utf8Bytes (c :: s)).head? = some b ∧ byteIs p b = p c := by
  obtain ⟨b, bs, henc⟩ := List.exists_cons_of_ne_nil (@String.utf8EncodeChar_ne_nil c)
  refine ⟨b, by rw [utf8Bytes_cons, henc]; rfl, ?_⟩
  cases hc : p c with
  | true =>
    obtain ⟨b', henc', hb⟩ := utf8EncodeChar_of_isAscii hp hc
    rw [henc, List.cons.injEq] at henc'
    rw [henc'.1, hb]
  | false => exact not_byteIs_of_mem hp hc (by rw [henc]; exact List.mem_cons_self)

theorem any_head?_utf8Bytes (hp : IsAscii p) (s : Text) :
    (utf8Bytes s).head?.any (byteIs p) = s.head?.any p := by
  cases s with
  | nil => rfl
  | cons c s =>
    obtain ⟨b, hhead, hb⟩ := head?_utf8Bytes hp c s
    rw [hhead]
    exact hb

end Bytes

/-- The byte at an offset is the first one of what is left there. -/
theorem LeftAt.getElem?_utf8Bytes {s rest : Text} {pos : Nat} (h : LeftAt s pos rest) :
    (utf8Bytes s)[pos]? = (utf8Bytes rest).head? := by
  obtain ⟨front, rfl, rfl⟩ := h
  have hle : (utf8Bytes front).length ≤ utf8Size front := Nat.le_of_eq (length_utf8Bytes front)
  rw [utf8Bytes_append, List.getElem?_append_right hle, length_utf8Bytes, Nat.sub_self,
    List.head?_eq_getElem?]

end Mailout.Offset
