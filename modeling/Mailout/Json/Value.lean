import Mailout.Json.Number
import Mailout.Json.Text

/-!
# Arrays, objects and data in JSON

Arrays and objects are read item by item, each item by a reader of its own, so a value that does not
fit is met before what follows it. Data of any kind are read by `datum`, which takes at most a given
number of brackets inside one another.

## Termination

`elementsFrom` and `membersFrom` end because an item takes at least one character. `datum` recurses
on the number of brackets that may still open.
-/

namespace Mailout.Json

open Text

/-- The brackets that a description may hold inside one another. -/
def nestingLimit : Nat := 127

/-! ## Arrays -/

/-- Whether another element follows; then what is left begins with it, or else with the bracket that
ends the array. -/
def nextElement (first : Bool) (s : Text) : Outcome Bool :=
  match s.dropWhile Reader.isSpace with
  | [] => failAt .endInArray [] 0
  | c :: r =>
    if c == ']' then .ok (false, c :: r)
    else if first then .ok (true, c :: r)
    else if c == ',' then
      match r.dropWhile Reader.isSpace with
      | [] => failAt .endInValue [] 0
      | d :: t => if d == ']' then failAt .trailingComma (d :: t) 1 else .ok (true, d :: t)
    else failAt .expectedArrayComma (c :: r) 1

theorem nextElement_length {first more : Bool} {s r : Text}
    (h : nextElement first s = .ok (more, r)) : r.length ≤ s.length := by
  have hs := (List.dropWhile_suffix (l := s) Reader.isSpace).length_le
  unfold nextElement at h
  split at h
  · simp [failAt] at h
  · next c t ht =>
    rw [ht] at hs
    split at h
    · simp only [Except.ok.injEq, Prod.mk.injEq] at h
      rw [← h.2]
      exact hs
    · split at h
      · simp only [Except.ok.injEq, Prod.mk.injEq] at h
        rw [← h.2]
        exact hs
      · split at h
        · have ht' := (List.dropWhile_suffix (l := t) Reader.isSpace).length_le
          split at h
          · simp [failAt] at h
          · next d u hu =>
            rw [hu] at ht'
            split at h
            · simp [failAt] at h
            · simp only [Except.ok.injEq, Prod.mk.injEq] at h
              rw [← h.2]
              simp only [List.length_cons] at hs ht' ⊢
              omega
        · simp [failAt] at h

/-- The next element, if there is one. -/
def Reader.element? (first : Bool) (item : Reader α) : Reader (Option α) where
  run s :=
    match nextElement first s with
    | .error e => .error e
    | .ok (false, r) => .ok (none, r)
    | .ok (true, r) =>
      match item.run r with
      | .error e => .error e
      | .ok (a, r) => .ok (some a, r)
  keeps := by
    intro s a r h
    split at h
    · simp at h
    · next hn =>
      simp only [Except.ok.injEq, Prod.mk.injEq] at h
      rw [← h.2]
      exact nextElement_length hn
    · next r' hn =>
      split at h
      · simp at h
      · next b r'' hi =>
        simp only [Except.ok.injEq, Prod.mk.injEq] at h
        rw [← h.2]
        exact Nat.le_trans (item.keeps hi) (nextElement_length hn)

/-- All elements that follow. -/
def elementsFrom (item : ValueReader α) (first : Bool) (s : Text) : Outcome (List α) :=
  match _h : nextElement first s with
  | .error e => .error e
  | .ok (false, r) => .ok ([], r)
  | .ok (true, r) =>
    match _h' : item.run r with
    | .error e => .error e
    | .ok (a, r) =>
      match elementsFrom item false r with
      | .error e => .error e
      | .ok (as, r) => .ok (a :: as, r)
termination_by s.length
decreasing_by exact Nat.lt_of_lt_of_le (item.consumes _h') (nextElement_length _h)

theorem elementsFrom_length {item : ValueReader α} {first : Bool} {s r : Text} {as : List α}
    (h : elementsFrom item first s = .ok (as, r)) : r.length ≤ s.length := by
  fun_induction elementsFrom item first s generalizing as r with
  | case1 => simp at h
  | case2 first s r' hn =>
    simp only [Except.ok.injEq, Prod.mk.injEq] at h
    rw [← h.2]
    exact nextElement_length hn
  | case3 => simp at h
  | case4 => simp at h
  | case5 first s r1 hn a r2 hi as' r3 hr ih =>
    simp only [Except.ok.injEq, Prod.mk.injEq] at h
    have h1 := nextElement_length hn
    have h2 := item.consumes hi
    have h3 := ih hr
    rw [← h.2]
    omega

/-- All elements of an array whose bracket is open. -/
def Reader.elements (item : ValueReader α) : Reader (List α) :=
  ⟨elementsFrom item true, elementsFrom_length⟩

/-- All elements of an array of which one is read already. -/
def Reader.moreElements (item : ValueReader α) : Reader (List α) :=
  ⟨elementsFrom item false, elementsFrom_length⟩

/-! ## Objects -/

/-- The text that is the next key; its quote begins the text. -/
def keyAt (s : Text) : Outcome (Option Text) :=
  match s with
  | '"' :: r =>
    match textBody r with
    | .error e => .error e
    | .ok (key, r) => .ok (some key, r)
  | _ => failAt .keyNotText s 1

/-- The key of the next member, or no key if the bracket that ends the object follows. -/
def nextKey (first : Bool) (s : Text) : Outcome (Option Text) :=
  match s.dropWhile Reader.isSpace with
  | [] => failAt .endInObject [] 0
  | c :: r =>
    if c == '}' then .ok (none, c :: r)
    else if first then keyAt (c :: r)
    else if c == ',' then
      match r.dropWhile Reader.isSpace with
      | [] => failAt .endInValue [] 0
      | d :: t => if d == '}' then failAt .trailingComma (d :: t) 1 else keyAt (d :: t)
    else failAt .expectedObjectComma (c :: r) 1

private theorem keyAt_length {s r : Text} {key : Option Text} (h : keyAt s = .ok (key, r)) :
    r.length < s.length := by
  unfold keyAt at h
  split at h
  · split at h
    · simp at h
    · next k r' hk =>
      simp only [Except.ok.injEq, Prod.mk.injEq] at h
      have := textBody_length hk
      rw [← h.2]
      simp only [List.length_cons]
      omega
  · simp [failAt] at h

theorem nextKey_length {first : Bool} {s r : Text} {key : Option Text}
    (h : nextKey first s = .ok (key, r)) :
    r.length ≤ s.length ∧ (key.isSome → r.length < s.length) := by
  have hs := (List.dropWhile_suffix (l := s) Reader.isSpace).length_le
  unfold nextKey at h
  split at h
  · simp [failAt] at h
  · next c t ht =>
    rw [ht] at hs
    split at h
    · simp only [Except.ok.injEq, Prod.mk.injEq] at h
      rw [← h.2, ← h.1]
      exact ⟨hs, by simp⟩
    · split at h
      · have := keyAt_length h
        exact ⟨by omega, fun _ => by omega⟩
      · split at h
        · have ht' := (List.dropWhile_suffix (l := t) Reader.isSpace).length_le
          split at h
          · simp [failAt] at h
          · next d u hu =>
            rw [hu] at ht'
            split at h
            · simp [failAt] at h
            · have := keyAt_length h
              simp only [List.length_cons] at hs ht' this
              exact ⟨by omega, fun _ => by omega⟩
        · simp [failAt] at h

/-- Reads the members that follow, each by a reader that begins after its key and gets what the
members before it came to. -/
def membersFrom (member : σ → Text → Reader σ) (first : Bool) (state : σ) (s : Text) : Outcome σ :=
  match _h : nextKey first s with
  | .error e => .error e
  | .ok (none, r) => .ok (state, r)
  | .ok (some key, r) =>
    match _h' : (member state key).run r with
    | .error e => .error e
    | .ok (state, r) => membersFrom member false state r
termination_by s.length
decreasing_by exact Nat.lt_of_le_of_lt ((member _ _).keeps _h') ((nextKey_length _h).2 rfl)

theorem membersFrom_length {member : σ → Text → Reader σ} {first : Bool} {state result : σ}
    {s r : Text} (h : membersFrom member first state s = .ok (result, r)) :
    r.length ≤ s.length := by
  fun_induction membersFrom member first state s with
  | case1 => simp at h
  | case2 first state s r' hn =>
    simp only [Except.ok.injEq, Prod.mk.injEq] at h
    rw [← h.2]
    exact (nextKey_length hn).1
  | case3 => simp at h
  | case4 first state s key r1 hn state' r2 hm ih =>
    have h1 := (nextKey_length hn).1
    have h2 := (member state key).keeps hm
    have h3 := ih h
    omega

/-- Reads all members of an object whose bracket is open. -/
def Reader.members (member : σ → Text → Reader σ) (state : σ) : Reader σ :=
  ⟨membersFrom member true state, membersFrom_length⟩

/-! ## Words -/

/-- The rest of a word whose first letter is taken already. -/
def Reader.word : List Char → Reader Unit
  | [] => pure ()
  | c :: cs => do
    match ← peekAny with
    | none => failAfter .endInValue 0
    | some d => if c == d then advance; word cs else failNext .expectedWord

/-! ## Data -/

/-- A scalar whose first character is taken already. -/
def Reader.scalar (first : Char) : Reader Datum := do
  match first with
  | 'n' => word ['u', 'l', 'l']; return .null
  | 't' => word ['r', 'u', 'e']; return .bool true
  | 'f' => word ['a', 'l', 's', 'e']; return .bool false
  | '-' => return (← negativeNumber).toDatum
  | '"' => return .text (← textBody)
  | c => return (← numberFrom false c).toDatum

/-- Whether a scalar begins with the character. -/
def startsScalar (c : Char) : Bool :=
  c == 'n' || c == 't' || c == 'f' || c == '-' || c == '"' || c.isDigit

/-- A value of any kind: scalars are read here, the inside of brackets by other readers, if another
bracket may still open. -/
def ValueReader.anyKind (nesting : Nat) (scalar : Datum → Except Mismatch α)
    (array object : Nat → Reader α) : ValueReader α :=
  .byFirst fun here c =>
    .placed <|
      if startsScalar c then Reader.scalar c >>= fun d => .ofExcept (scalar d)
      else if c == '[' || c == '{' then
        match nesting with
        | 0 => ⟨fun s => .error ⟨.tooDeep, s, some ⟨here, 1⟩⟩, by simp⟩
        | n + 1 =>
          if c == '[' then (array n).closedBy .endArray else (object n).closedBy .endObject
      else ⟨fun s => .error ⟨.expectedValue, s, some ⟨here, 1⟩⟩, by simp⟩

/-- A datum inside at most so many brackets. -/
def ValueReader.datum (nesting : Nat) : ValueReader Datum :=
  match nesting with
  | 0 => .anyKind 0 .ok (fun _ => pure .null) (fun _ => pure .null)
  | n + 1 =>
    let item := datum n
    let member (entries : List (Datum × Datum)) (key : Text) : Reader (List (Datum × Datum)) := do
      Reader.colon
      return entries ++ [(.text key, ← item.toReader)]
    .anyKind (n + 1) .ok (fun _ => return .list (← Reader.elements item))
      (fun _ => return .table (← Reader.members member []))

/-- A value of one kind of bracket, or a failure that names what was wanted. -/
def ValueReader.ofKind (wanted : String) (nesting : Nat)
    (text? : Option (Text → Except Mismatch α)) (array? object? : Option (Reader α)) :
    ValueReader α :=
  .byFirst fun here c =>
    let wrong (found : Found) : Reader α := .mismatch (.wrongKind found wanted)
    let wrongHere (found : Found) : Reader α :=
      ⟨fun s => .error ⟨.mismatch (.wrongKind found wanted), s, some ⟨here, 0⟩⟩, by simp⟩
    let bracket (inside? : Option (Reader α)) (close : Reader Unit) (found : Found) : Reader α :=
      match inside?, nesting with
      | none, _ => wrongHere found
      | some _, 0 => ⟨fun s => .error ⟨.tooDeep, s, some ⟨here, 1⟩⟩, by simp⟩
      | some inside, _ + 1 => inside.closedBy close
    .placed <|
      if startsScalar c then
        Reader.scalar c >>= fun d =>
          match text?, d with
          | some accept, .text s => .ofExcept (accept s)
          | _, d => wrong d.found
      else if c == '[' then bracket array? .endArray .list
      else if c == '{' then bracket object? .endObject .table
      else ⟨fun s => .error ⟨.expectedValue, s, some ⟨here, 1⟩⟩, by simp⟩

/-- A text. -/
def ValueReader.text (wanted : String) : ValueReader Text := .ofKind wanted 0 (some .ok) none none

end Mailout.Json
