import Mailout.Json.Reader

/-!
# Text in JSON

`textBody` reads the text after an opening quote up to its closing quote. A character outside the
sixteen-bit range can be written by two escapes, a leading and a trailing surrogate.
-/

namespace Mailout.Json

open Text

/-- The value of a hexadecimal digit. -/
def hexValue (c : Char) : Option Nat :=
  if '0' ≤ c && c ≤ '9' then some (c.toNat - '0'.toNat)
  else if 'a' ≤ c && c ≤ 'f' then some (c.toNat - 'a'.toNat + 10)
  else if 'A' ≤ c && c ≤ 'F' then some (c.toNat - 'A'.toNat + 10)
  else none

/-- The number that four hexadecimal digits stand for. Four bytes are looked at, whatever they
are. -/
def hexQuad (s : Text) : Outcome Nat :=
  if utf8Size (s.take 4) < 4 then failAt .endInText [] 0
  else
    match s with
    | a :: b :: c :: d :: r =>
      match hexValue a, hexValue b, hexValue c, hexValue d with
      | some a, some b, some c, some d => .ok (((a * 16 + b) * 16 + c) * 16 + d, r)
      | _, _, _, _ => failAt .badEscape s 4
    | _ => failAt .badEscape s 4

theorem hexQuad_length {s r : Text} {n : Nat} (h : hexQuad s = .ok (n, r)) :
    r.length < s.length := by
  unfold hexQuad at h
  split at h
  · simp [failAt] at h
  · split at h
    · split at h
      · simp only [Except.ok.injEq, Prod.mk.injEq] at h
        rw [← h.2]
        simp; omega
      · simp [failAt] at h
    · simp [failAt] at h

/-- The character after `\u`. -/
def unicodeEscape (s : Text) : Outcome Char :=
  match hexQuad s with
  | .error e => .error e
  | .ok (n, r) =>
    if 0xDC00 ≤ n && n ≤ 0xDFFF then failAt .loneSurrogate r 0
    else if n < 0xD800 || 0xDBFF < n then .ok (Char.ofNat n, r)
    else
      match r with
      | '\\' :: 'u' :: t =>
        match hexQuad t with
        | .error e => .error e
        | .ok (m, t) =>
          if m < 0xDC00 || 0xDFFF < m then failAt .loneSurrogate t 0
          else .ok (Char.ofNat (0x10000 + (n - 0xD800) * 0x400 + (m - 0xDC00)), t)
      | '\\' :: t => if t.isEmpty then failAt .endInText t 0 else failAt .unpairedSurrogate t 1
      | [] => failAt .endInText [] 0
      | _ => failAt .unpairedSurrogate r 1

theorem unicodeEscape_length {s r : Text} {c : Char} (h : unicodeEscape s = .ok (c, r)) :
    r.length < s.length := by
  unfold unicodeEscape at h
  split at h
  · simp at h
  · next n r' hn =>
    have h1 := hexQuad_length hn
    split at h
    · simp [failAt] at h
    · split at h
      · simp only [Except.ok.injEq, Prod.mk.injEq] at h
        rw [← h.2]
        exact h1
      · split at h
        · next t =>
          split at h
          · simp at h
          · next m t' hm =>
            have h2 := hexQuad_length hm
            split at h
            · simp [failAt] at h
            · simp only [Except.ok.injEq, Prod.mk.injEq] at h
              rw [← h.2]
              simp only [List.length_cons] at h1
              omega
        · split at h <;> simp [failAt] at h
        · simp [failAt] at h
        · simp [failAt] at h

/-- The character after a backslash. -/
def escape (s : Text) : Outcome Char :=
  match s with
  | [] => failAt .endInText [] 0
  | '"' :: r => .ok ('"', r)
  | '\\' :: r => .ok ('\\', r)
  | '/' :: r => .ok ('/', r)
  | 'b' :: r => .ok ('\x08', r)
  | 'f' :: r => .ok ('\x0C', r)
  | 'n' :: r => .ok ('\n', r)
  | 'r' :: r => .ok ('\r', r)
  | 't' :: r => .ok ('\t', r)
  | 'u' :: r => unicodeEscape r
  | _ => failAt .badEscape s 1

theorem escape_length {s r : Text} {c : Char} (h : escape s = .ok (c, r)) :
    r.length < s.length := by
  unfold escape at h
  split at h
  all_goals first
    | (simp [failAt] at h; done)
    | (simp only [Except.ok.injEq, Prod.mk.injEq] at h; rw [← h.2]; simp)
    | (have h1 := unicodeEscape_length h; simp only [List.length_cons]; omega)

/-- The text up to its closing quote. -/
def textBody (s : Text) : Outcome Text :=
  match s with
  | [] => failAt .endInText [] 0
  | '"' :: r => .ok ([], r)
  | '\\' :: r =>
    match _h : escape r with
    | .error e => .error e
    | .ok (c, r) =>
      match textBody r with
      | .error e => .error e
      | .ok (t, r) => .ok (c :: t, r)
  | c :: r =>
    if c.toNat < 0x20 then failAt .controlCharacter s 1
    else
      match textBody r with
      | .error e => .error e
      | .ok (t, r) => .ok (c :: t, r)
termination_by s.length
decreasing_by
  · have := escape_length _h
    simp only [List.length_cons]
    omega
  · simp

theorem textBody_length {s t r : Text} (h : textBody s = .ok (t, r)) : r.length < s.length := by
  fun_induction textBody s generalizing t r with
  | case1 => simp [failAt] at h
  | case2 r' =>
    simp only [Except.ok.injEq, Prod.mk.injEq] at h
    rw [← h.2]
    simp
  | case3 => simp at h
  | case4 => simp at h
  | case5 s c r' he t' r'' ht ih =>
    simp only [Except.ok.injEq, Prod.mk.injEq] at h
    have h1 := escape_length he
    have h2 := ih ht
    rw [← h.2]
    simp only [List.length_cons]
    omega
  | case6 => simp [failAt] at h
  | case7 => simp at h
  | case8 c s _ _ _ t' r' ht ih =>
    simp only [Except.ok.injEq, Prod.mk.injEq] at h
    have h2 := ih ht
    rw [← h.2]
    simp only [List.length_cons]
    omega

/-- The text up to its closing quote, as a reader. -/
def Reader.textBody : Reader Text := ⟨Json.textBody, fun h => Nat.le_of_lt (textBody_length h)⟩

/-! ## Text that is not kept -/

/-- What is left after the closing quote of a text that is not kept. The numbers of its escapes need
not be characters. -/
def skipTextBody (s : Text) : Outcome Unit :=
  match s with
  | [] => failAt .endInText [] 0
  | '"' :: r => .ok ((), r)
  | '\\' :: 'u' :: r =>
    match _h : hexQuad r with
    | .error e => .error e
    | .ok (_, r) => skipTextBody r
  | '\\' :: r =>
    match _h : escape r with
    | .error e => .error e
    | .ok (_, r) => skipTextBody r
  | c :: r => if c.toNat < 0x20 then failAt .controlCharacter s 0 else skipTextBody r
termination_by s.length
decreasing_by
  · have := hexQuad_length _h
    simp only [List.length_cons]
    omega
  · have := escape_length _h
    simp only [List.length_cons]
    omega
  · simp

theorem skipTextBody_length {s r : Text} {u : Unit} (h : skipTextBody s = .ok (u, r)) :
    r.length < s.length := by
  fun_induction skipTextBody s with
  | case1 => simp [failAt] at h
  | case2 r' =>
    simp only [Except.ok.injEq, Prod.mk.injEq] at h
    rw [← h.2]
    simp
  | case3 => simp at h
  | case4 s n r' hn ih =>
    have h1 := hexQuad_length hn
    have h2 := ih h
    simp only [List.length_cons]
    omega
  | case5 => simp at h
  | case6 s _ c r' he ih =>
    have h1 := escape_length he
    have h2 := ih h
    simp only [List.length_cons]
    omega
  | case7 => simp [failAt] at h
  | case8 c s _ _ _ _ ih =>
    have h2 := ih h
    simp only [List.length_cons]
    omega

end Mailout.Json
