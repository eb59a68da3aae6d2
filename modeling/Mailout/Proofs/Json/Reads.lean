import Mailout.Json.Value
import Mailout.Proofs.Json.Text

/-!
# Written values are read back

A reader reads a text if it takes exactly this text, whatever follows it (`Reads`). What stands
between brackets is read up to the closing bracket, which is left (`ReadsInside`).

## Steps

1. Readers one after the other read texts one after the other (`Reads.bind`).
2. An array is read if each of its elements is (`readsInside_elements`), an object if reading its
   members one by one leads from the first state to the last (`MembersRead`).
3. Each kind of value is read by the reader for this kind (`reads_ofKind_object` and others) and by
   the reader for values of any kind (`reads_anyKind_object` and others).
-/

namespace Mailout.Json

open Text

variable {α β ι σ : Type}

namespace Reader

/-! ## Reading what was written -/

/-- The reader takes the text, whatever follows it, and makes `a` of it. -/
def Reads (x : Reader α) (w : Text) (a : α) : Prop := ∀ rest, x.run (w ++ rest) = .ok (a, rest)

/-- The reader takes the text in front of the character, and makes `a` of it. -/
def ReadsInside (x : Reader α) (w : Text) (close : Char) (a : α) : Prop :=
  ∀ rest, x.run (w ++ close :: rest) = .ok (a, close :: rest)

section

variable {x : Reader α} {f : α → Reader β} {v w : Text} {close : Char} {a : α} {b : β}

theorem run_bind {s r : Text} (h : x.run s = .ok (a, r)) (f : α → Reader β) :
    (x >>= f).run s = (f a).run r := by
  simp only [bind, h]

theorem reads_pure (a : α) : (pure a : Reader α).Reads [] a := fun _ => rfl

theorem reads_ofExcept {r : Except Mismatch α} (h : r = .ok a) : (ofExcept r).Reads [] a := by
  rw [h]
  exact reads_pure a

/-- **Readers one after the other read texts one after the other.** -/
theorem Reads.bind (hx : x.Reads v a) (hf : (f a).Reads w b) : (x >>= f).Reads (v ++ w) b := by
  intro rest
  rw [List.append_assoc, run_bind (hx (w ++ rest)), hf rest]

theorem Reads.bind_nil (hx : x.Reads v a) (hf : (f a).Reads [] b) : (x >>= f).Reads v b := by
  simpa using hx.bind hf

theorem ReadsInside.bind_nil (hx : x.ReadsInside v close a) (hf : (f a).Reads [] b) :
    (x >>= f).ReadsInside v close b := by
  intro rest
  rw [run_bind (hx rest)]
  exact hf (close :: rest)

theorem Reads.placed (hx : x.Reads v a) : x.placed.Reads v a := by
  intro rest
  simp only [Reader.placed, hx rest]

/-- What is in brackets is read, and then the bracket. -/
theorem ReadsInside.closedBy {c : Reader Unit} (hx : x.ReadsInside v close a)
    (hc : c.Reads [close] ()) : (x.closedBy c).Reads (v ++ [close]) a := by
  intro rest
  have hclose : c.run (close :: rest) = .ok ((), rest) := hc rest
  simp only [Reader.closedBy, List.append_assoc, List.singleton_append, hx rest, hclose]

end

/-! ## Signs -/

theorem reads_colon : colon.Reads [':'] () := fun _ => rfl

theorem reads_endArray : endArray.Reads [']'] () := fun _ => rfl

theorem reads_endObject : endObject.Reads ['}'] () := fun _ => rfl

theorem reads_textBody (t : Text) : Reader.textBody.Reads (t.flatMap escapeChar ++ ['"']) t := by
  intro rest
  rw [List.append_assoc]
  exact textBody_written t rest

/-- A text is a scalar that begins with its quote. -/
theorem reads_scalar_text (t : Text) :
    (scalar '"').Reads (t.flatMap escapeChar ++ ['"']) (.text t) :=
  (reads_textBody t).bind_nil (reads_pure _)

end Reader

open Reader

/-! ## Arrays -/

/-- The text begins as values do. -/
def BeginsValue (w : Text) : Prop := ∃ c s, w = c :: s ∧ isSpace c = false ∧ c ≠ ']'

theorem beginsValue_writeText (t : Text) : BeginsValue (writeText t) :=
  ⟨'"', t.flatMap escapeChar ++ ['"'], rfl, rfl, by decide⟩

theorem beginsValue_writeObject (ms : List (Text × Text)) : BeginsValue (writeObject ms) :=
  ⟨'{', List.intercalate [','] (ms.map writeMember) ++ ['}'], rfl, rfl, by decide⟩

/-- Texts with commas between them are the first one, and each other with a comma in front. -/
theorem intercalate_cons (w : Text) (ws : List Text) :
    List.intercalate [','] (w :: ws) = w ++ ws.flatMap (',' :: ·) := by
  induction ws generalizing w with
  | nil => simp
  | cons w' ws ih => rw [List.intercalate_cons_cons, ih, List.flatMap_cons]; simp

theorem nextElement_true {w : Text} (hw : BeginsValue w) (s : Text) :
    nextElement true (w ++ s) = .ok (true, w ++ s) := by
  obtain ⟨c, t, rfl, hspace, hend⟩ := hw
  simp [nextElement, hspace, hend]

theorem nextElement_false {w : Text} (hw : BeginsValue w) (s : Text) :
    nextElement false (',' :: w ++ s) = .ok (true, w ++ s) := by
  obtain ⟨c, t, rfl, hspace, hend⟩ := hw
  have hcomma : isSpace ',' = false := rfl
  simp [nextElement, hcomma, hspace, hend]

theorem nextElement_end (first : Bool) (rest : Text) :
    nextElement first (']' :: rest) = .ok (false, ']' :: rest) := rfl

section

variable {item : ValueReader α} {a : α} {as : List α} {first : Bool} {s r r' : Text}

theorem elementsFrom_end (item : ValueReader α) (first : Bool) (rest : Text) :
    elementsFrom item first (']' :: rest) = .ok ([], ']' :: rest) := by
  rw [elementsFrom]
  split
  · next h => rw [nextElement_end] at h; cases h
  · next h => rw [nextElement_end] at h; cases h; rfl
  · next h => rw [nextElement_end] at h; cases h

theorem elementsFrom_cons {w : Text} (hnext : nextElement first s = .ok (true, w ++ r))
    (hitem : item.Reads w a) (hrest : elementsFrom item false r = .ok (as, r')) :
    elementsFrom item first s = .ok (a :: as, r') := by
  rw [elementsFrom]
  split
  · next h => rw [hnext] at h; cases h
  · next h => rw [hnext] at h; cases h
  · next h =>
    rw [hnext] at h
    cases h
    split
    · next h' => rw [hitem r] at h'; cases h'
    · next h' =>
      rw [hitem r] at h'
      cases h'
      rw [hrest]

end

/-- The elements of an array from the second on. -/
theorem elementsFrom_written {item : ValueReader α} {write : ι → Text} {value : ι → α} {l : List ι}
    (h : ∀ i ∈ l, BeginsValue (write i) ∧ item.Reads (write i) (value i)) (rest : Text) :
    elementsFrom item false ((l.map write).flatMap (',' :: ·) ++ ']' :: rest)
      = .ok (l.map value, ']' :: rest) := by
  induction l with
  | nil => exact elementsFrom_end item false rest
  | cons i l ih =>
    obtain ⟨hbegins, hreads⟩ := h i List.mem_cons_self
    have ih := ih fun j hj => h j (List.mem_cons_of_mem i hj)
    rw [List.map_cons, List.flatMap_cons, List.append_assoc]
    exact elementsFrom_cons (nextElement_false hbegins _) hreads ih

/-- **An array is read if each of its elements is.** -/
theorem readsInside_elements {item : ValueReader α} {write : ι → Text} {value : ι → α} {l : List ι}
    (h : ∀ i ∈ l, BeginsValue (write i) ∧ item.Reads (write i) (value i)) :
    (Reader.elements item).ReadsInside (List.intercalate [','] (l.map write)) ']' (l.map value) := by
  intro rest
  cases l with
  | nil => exact elementsFrom_end item true rest
  | cons i l =>
    obtain ⟨hbegins, hreads⟩ := h i List.mem_cons_self
    have hrest := elementsFrom_written (fun j hj => h j (List.mem_cons_of_mem i hj)) rest
    rw [List.map_cons, intercalate_cons, List.append_assoc]
    exact elementsFrom_cons (nextElement_true hbegins _) hreads hrest

/-! ## Objects -/

/-- Reading the members one after the other leads from one state to another. -/
inductive MembersRead (member : σ → Text → Reader σ) : σ → List (Text × Text) → σ → Prop where
  | nil (state : σ) : MembersRead member state [] state
  | cons {state next result : σ} {m : Text × Text} {ms : List (Text × Text)}
    (read : (member state m.1).Reads (':' :: m.2) next) (others : MembersRead member next ms result) :
    MembersRead member state (m :: ms) result

/-- Members that are read alike are read one after the other. -/
theorem membersRead_foldl {member : σ → Text → Reader σ} (next : σ → ι → σ)
    (write : ι → Text × Text) {l : List ι} {state result : σ} (hresult : l.foldl next state = result)
    (h : ∀ state, ∀ i ∈ l, (member state (write i).1).Reads (':' :: (write i).2) (next state i)) :
    MembersRead member state (l.map write) result := by
  induction l generalizing state with
  | nil => exact hresult ▸ .nil state
  | cons i l ih =>
    exact .cons (h state i List.mem_cons_self)
      (ih hresult fun s j hj => h s j (List.mem_cons_of_mem i hj))

theorem nextKey_true (key s : Text) : nextKey true (writeText key ++ s) = .ok (some key, s) := by
  have hbody := textBody_written key s
  simp [nextKey, writeText, isSpace, keyAt, hbody]

theorem nextKey_false (key s : Text) :
    nextKey false (',' :: writeText key ++ s) = .ok (some key, s) := by
  have hbody := textBody_written key s
  simp [nextKey, writeText, isSpace, keyAt, hbody]

theorem nextKey_end (first : Bool) (rest : Text) :
    nextKey first ('}' :: rest) = .ok (none, '}' :: rest) := rfl

section

variable {member : σ → Text → Reader σ} {state next result : σ} {first : Bool} {s r r' : Text}

theorem membersFrom_end (member : σ → Text → Reader σ) (first : Bool) (state : σ) (rest : Text) :
    membersFrom member first state ('}' :: rest) = .ok (state, '}' :: rest) := by
  rw [membersFrom]
  split
  · next h => rw [nextKey_end] at h; cases h
  · next h => rw [nextKey_end] at h; cases h; rfl
  · next h => rw [nextKey_end] at h; cases h

theorem membersFrom_cons {key w : Text} (hnext : nextKey first s = .ok (some key, w ++ r))
    (hmember : (member state key).Reads w next)
    (hrest : membersFrom member false next r = .ok (result, r')) :
    membersFrom member first state s = .ok (result, r') := by
  rw [membersFrom]
  split
  · next h => rw [hnext] at h; cases h
  · next h => rw [hnext] at h; cases h
  · next h =>
    rw [hnext] at h
    cases h
    split
    · next h' => rw [hmember r] at h'; cases h'
    · next h' =>
      rw [hmember r] at h'
      cases h'
      exact hrest

/-- The members of an object from the second on. -/
theorem membersFrom_written {ms : List (Text × Text)} (h : MembersRead member state ms result)
    (rest : Text) :
    membersFrom member false state ((ms.map writeMember).flatMap (',' :: ·) ++ '}' :: rest)
      = .ok (result, '}' :: rest) := by
  induction h with
  | nil state => exact membersFrom_end member false state rest
  | @cons state next result m ms read others ih =>
    refine membersFrom_cons ?_ read ih
    rw [List.map_cons, List.flatMap_cons, writeMember, List.append_assoc, List.cons_append,
      List.append_assoc]
    exact nextKey_false m.1 _

/-- **An object is read if reading its members leads to the last state.** -/
theorem readsInside_members {ms : List (Text × Text)} (h : MembersRead member state ms result) :
    (Reader.members member state).ReadsInside (List.intercalate [','] (ms.map writeMember)) '}'
      result := by
  intro rest
  cases h with
  | nil => exact membersFrom_end member true state rest
  | @cons _ next _ m ms read others =>
    refine membersFrom_cons ?_ read (membersFrom_written others rest)
    rw [List.map_cons, intercalate_cons, writeMember, List.append_assoc, List.append_assoc]
    exact nextKey_true m.1 _

end

/-! ## Values by kind -/

namespace ValueReader

variable {wanted : String} {nesting n : Nat} {text? : Option (Text → Except Mismatch α)}
  {array? object? : Option (Reader α)} {inside : Reader α} {w : Text} {a : α}

theorem reads_byFirst {choose : (here : Text) → Char → Reader α} {c : Char}
    (hc : isSpace c = false) (h : ∀ here, (choose here c).Reads w a) :
    (byFirst choose).Reads (c :: w) a := by
  intro rest
  simp only [byFirst, List.cons_append, List.dropWhile_cons, hc, Bool.false_eq_true, if_false]
  exact h (c :: (w ++ rest)) rest

theorem reads_andThen {x : ValueReader α} {f : α → Reader β} {b : β} (hx : x.Reads w a)
    (hf : (f a).Reads [] b) : (x.andThen f).Reads w b := hx.bind_nil hf

theorem reads_ofKind_text {accept : Text → Except Mismatch α} {t : Text} (h : accept t = .ok a) :
    (ofKind wanted nesting (some accept) array? object?).Reads (writeText t) a :=
  reads_byFirst rfl fun _ => ((reads_scalar_text t).bind_nil (reads_ofExcept h)).placed

theorem reads_ofKind_array (h : inside.ReadsInside w ']' a) :
    (ofKind wanted (n + 1) text? (some inside) object?).Reads ('[' :: w ++ [']']) a :=
  reads_byFirst rfl fun _ => (h.closedBy reads_endArray).placed

theorem reads_ofKind_object (h : inside.ReadsInside w '}' a) :
    (ofKind wanted (n + 1) text? array? (some inside)).Reads ('{' :: w ++ ['}']) a :=
  reads_byFirst rfl fun _ => (h.closedBy reads_endObject).placed

variable {scalar : Datum → Except Mismatch α} {array object : Nat → Reader α}

theorem reads_anyKind_text {t : Text} (h : scalar (.text t) = .ok a) :
    (anyKind nesting scalar array object).Reads (writeText t) a :=
  reads_byFirst rfl fun _ => ((reads_scalar_text t).bind_nil (reads_ofExcept h)).placed

theorem reads_anyKind_array (h : (array n).ReadsInside w ']' a) :
    (anyKind (n + 1) scalar array object).Reads ('[' :: w ++ [']']) a :=
  reads_byFirst rfl fun _ => (h.closedBy reads_endArray).placed

theorem reads_anyKind_object (h : (object n).ReadsInside w '}' a) :
    (anyKind (n + 1) scalar array object).Reads ('{' :: w ++ ['}']) a :=
  reads_byFirst rfl fun _ => (h.closedBy reads_endObject).placed

/-! ## Data -/

theorem reads_text (t : Text) : (text wanted).Reads (writeText t) t := reads_ofKind_text rfl

theorem reads_datum_text (nesting : Nat) (t : Text) :
    (datum nesting).Reads (writeText t) (.text t) := by
  cases nesting with
  | zero => exact reads_anyKind_text rfl
  | succ n => exact reads_anyKind_text rfl

/-- A list of texts is read if one more bracket may open. -/
theorem reads_datum_texts (n : Nat) (ts : List Text) :
    (datum (n + 1)).Reads (writeArray (ts.map writeText)) (.list (ts.map .text)) := by
  refine reads_anyKind_array (n := n) ?_
  refine ReadsInside.bind_nil (readsInside_elements fun t _ => ?_) (reads_pure _)
  exact ⟨beginsValue_writeText t, reads_datum_text n t⟩

end ValueReader

end Mailout.Json
