import Mailout.Text.Basic

/-!
# Dictionaries

A dictionary holds at most one value for each key and lists its keys in increasing order of their
code points, which is the order of their UTF-8 bytes. The order is part of the type, so two
dictionaries with the same entries are equal.

## Main statements

* `get?_insert` — what is read after a write;
* `mem_keys_iff` — the keys are those that have a value;
* `ofList_entries` — a dictionary is made of its own entries.
-/

namespace Mailout

/-- Entries with the key `k` set to `v`, for entries in increasing order of keys. -/
def insertEntry (k : Text) (v : β) : List (Text × β) → List (Text × β)
  | [] => [(k, v)]
  | e :: es =>
    if k < e.1 then (k, v) :: e :: es
    else if k = e.1 then (k, v) :: es
    else e :: insertEntry k v es

theorem mem_insertEntry {k : Text} {v : β} {es : List (Text × β)} {e : Text × β}
    (h : e ∈ insertEntry k v es) : e = (k, v) ∨ e ∈ es := by
  induction es with
  | nil => simpa [insertEntry] using h
  | cons d es ih =>
    simp only [insertEntry] at h
    split at h
    · simpa using h
    · split at h
      · rcases List.mem_cons.mp h with h | h
        · exact .inl h
        · exact .inr (List.mem_cons_of_mem _ h)
      · rcases List.mem_cons.mp h with h | h
        · exact .inr (h ▸ List.mem_cons_self)
        · exact (ih h).imp id (List.mem_cons_of_mem _)

theorem insertEntry_sorted {k : Text} {v : β} {es : List (Text × β)}
    (h : es.Pairwise (·.1 < ·.1)) : (insertEntry k v es).Pairwise (·.1 < ·.1) := by
  induction es with
  | nil => simp [insertEntry]
  | cons e es ih =>
    have ⟨he, hes⟩ := List.pairwise_cons.mp h
    simp only [insertEntry]
    split
    · next hk =>
      refine List.pairwise_cons.mpr ⟨fun d hd => ?_, h⟩
      rcases List.mem_cons.mp hd with rfl | hd
      · exact hk
      · exact List.lt_trans hk (he d hd)
    · split
      · next hk =>
        refine List.pairwise_cons.mpr ⟨fun d hd => ?_, hes⟩
        have := he d hd
        simpa [hk] using this
      · next hlt hne =>
        refine List.pairwise_cons.mpr ⟨fun d hd => ?_, ih hes⟩
        rcases mem_insertEntry hd with rfl | hd
        · by_cases hgt : e.1 < k
          · exact hgt
          · exact absurd (List.le_antisymm (List.not_lt.mp hgt) (List.not_lt.mp hlt)) hne
        · exact he d hd

/-- A key that is greater than all others goes to the end. -/
theorem insertEntry_of_lt {k : Text} {v : β} {es : List (Text × β)} (h : ∀ e ∈ es, e.1 < k) :
    insertEntry k v es = es ++ [(k, v)] := by
  induction es with
  | nil => rfl
  | cons e es ih =>
    have he : e.1 < k := h e List.mem_cons_self
    have hnlt : ¬ k < e.1 := fun hk => List.lt_irrefl k (List.lt_trans hk he)
    have hne : k ≠ e.1 := fun hk => List.lt_irrefl k (hk ▸ he)
    rw [insertEntry, if_neg hnlt, if_neg hne, ih fun d hd => h d (List.mem_cons_of_mem _ hd)]
    rfl

/-- A map from text with its entries in increasing order of keys. -/
structure Dictionary (β : Type) where
  entries : List (Text × β) := []
  sorted : entries.Pairwise (·.1 < ·.1) := by simp

namespace Dictionary

theorem ext_entries {d e : Dictionary β} (h : d.entries = e.entries) : d = e := by
  cases d; cases e; simp_all

instance [DecidableEq β] : DecidableEq (Dictionary β) := fun d e =>
  if h : d.entries = e.entries then isTrue (ext_entries h)
  else isFalse fun he => h (congrArg entries he)

/-- The dictionary without entries. -/
def empty : Dictionary β := {}

/-- The value of a key. -/
def get? (d : Dictionary β) (k : Text) : Option β := d.entries.lookup k

/-- Whether a key has a value. -/
def contains (d : Dictionary β) (k : Text) : Bool := (d.get? k).isSome

/-- The keys in increasing order. -/
def keys (d : Dictionary β) : List Text := d.entries.map (·.1)

/-- The number of keys. -/
def size (d : Dictionary β) : Nat := d.entries.length

/-- The dictionary with a key set to a value. -/
def insert (d : Dictionary β) (k : Text) (v : β) : Dictionary β :=
  ⟨insertEntry k v d.entries, insertEntry_sorted d.sorted⟩

/-- The dictionary with several keys set one after the other. -/
def insertAll (d : Dictionary β) (es : List (Text × β)) : Dictionary β :=
  es.foldl (fun d e => d.insert e.1 e.2) d

/-- The dictionary of a list of entries; of two values for one key the later counts. -/
def ofList (es : List (Text × β)) : Dictionary β := empty.insertAll es

/-! ## Entries in order -/

/-- Entries in order that come after those of a dictionary are put behind them. -/
theorem entries_insertAll (d : Dictionary β) {es : List (Text × β)}
    (h : (d.entries ++ es).Pairwise (·.1 < ·.1)) : (d.insertAll es).entries = d.entries ++ es := by
  induction es generalizing d with
  | nil => simp [insertAll]
  | cons e es ih =>
    have hlast : ∀ e' ∈ d.entries, e'.1 < e.1 := fun e' he' =>
      (List.pairwise_append.mp h).2.2 e' he' e List.mem_cons_self
    have hinsert : (d.insert e.1 e.2).entries = d.entries ++ [e] := insertEntry_of_lt hlast
    have hpairwise : ((d.insert e.1 e.2).entries ++ es).Pairwise (·.1 < ·.1) := by
      rw [hinsert, List.append_assoc]
      exact h
    have hentries := ih (d.insert e.1 e.2) hpairwise
    rw [hinsert, List.append_assoc] at hentries
    exact hentries

/-- **A dictionary is made of its own entries.** -/
theorem ofList_entries (d : Dictionary β) : ofList d.entries = d :=
  ext_entries (entries_insertAll empty d.sorted)

/-! ## Reading and writing -/

private theorem lookup_cons_eq (k : Text) (e : Text × β) (es : List (Text × β)) :
    (e :: es).lookup k = if k = e.1 then some e.2 else es.lookup k := by
  rw [List.lookup_cons]
  by_cases h : k = e.1
  · simp [h]
  · have hb : (k == e.1) = false := beq_eq_false_iff_ne.mpr h
    rw [hb]
    simp [h]

private theorem lookup_insertEntry {k k' : Text} {v : β} {es : List (Text × β)}
    (h : es.Pairwise (·.1 < ·.1)) :
    (insertEntry k v es).lookup k' = if k' = k then some v else es.lookup k' := by
  induction es with
  | nil => simp [insertEntry, lookup_cons_eq]
  | cons e es ih =>
    have ih := ih (List.pairwise_cons.mp h).2
    simp only [insertEntry]
    split
    · simp only [lookup_cons_eq]
    · split
      · next hk =>
        simp only [lookup_cons_eq, ← hk]
        split <;> rfl
      · next hk =>
        simp only [lookup_cons_eq, ih]
        by_cases he : k' = e.1
        · have hne : ¬ k' = k := fun h => hk (h ▸ he)
          rw [if_pos he, if_neg hne, if_pos he]
        · rw [if_neg he, if_neg he]

/-- A key that was written has its value; the others keep theirs. -/
theorem get?_insert (d : Dictionary β) (k k' : Text) (v : β) :
    (d.insert k v).get? k' = if k' = k then some v else d.get? k' :=
  lookup_insertEntry d.sorted

@[simp] theorem get?_empty (k : Text) : (empty : Dictionary β).get? k = none := rfl

/-- The keys are those that have a value. -/
theorem mem_keys_iff (d : Dictionary β) (k : Text) : k ∈ d.keys ↔ d.contains k = true := by
  simp only [keys, contains, get?]
  induction d.entries with
  | nil => simp
  | cons e es ih =>
    simp only [List.map_cons, List.mem_cons, lookup_cons_eq]
    by_cases h : k = e.1
    · simp [h]
    · simp only [h, false_or, if_false]
      exact ih

/-- What is read is an entry. -/
theorem mem_entries_of_get? {d : Dictionary β} {k : Text} {v : β} (h : d.get? k = some v) :
    (k, v) ∈ d.entries := by
  obtain ⟨front, rest, he, -⟩ := List.lookup_eq_some_iff.mp h
  simp [he]

/-- The keys are strictly increasing. -/
theorem keys_sorted (d : Dictionary β) : d.keys.Pairwise (· < ·) :=
  List.pairwise_map.mpr d.sorted

end Dictionary

end Mailout
