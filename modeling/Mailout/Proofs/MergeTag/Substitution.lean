import Mailout.MergeTag
import Mailout.Preset.Basic

/-!
# What replacing tags makes of a text

A text is a gap, a tag, a gap, and so on up to a last gap: its `pieces`. Replacing asks for each tag
once, from left to right, and gives the gaps with the answers in place of the tags; a tag without an
answer keeps its own text (`replace_exact`).

## The loop

The loop writes nothing for a tag that stays: the text from `last` on, this tag in it, is written
with the next tag that is replaced. What it will have written is the text from `last` up to where it
reads, followed by the pieces of what it has still to read (`replaceFromM_eq`).
-/

namespace Mailout.MergeTag

open Text

/-! ## Pieces of a text -/

/-- A text cut at its tags. -/
structure Pieces where
  /-- The gap in front of the first tag. -/
  first : Text
  /-- The tags, each with the gap behind it. -/
  tagged : List (MergeTag × Text)

namespace Pieces

/-- The pieces of a text that is read as segments. -/
def ofSegments : List Segment → Pieces
  | [] => ⟨[], []⟩
  | .literal c :: segs => ⟨c :: (ofSegments segs).first, (ofSegments segs).tagged⟩
  | .tag t :: segs => ⟨[], (t, (ofSegments segs).first) :: (ofSegments segs).tagged⟩

/-- The text that the pieces make up. -/
def source (p : Pieces) : Text := p.first ++ p.tagged.flatMap fun (t, gap) => t.source ++ gap

/-- The text with an answer in place of each tag; a tag that has none keeps its own text. -/
def fill (p : Pieces) (answers : List (Option Text)) : Text :=
  p.first ++
    (List.zipWith (fun (t, gap) answer => answer.getD t.source ++ gap) p.tagged answers).flatten

/-- The places of tags with gaps behind them, of which the first begins at byte `offset`. -/
def placesFrom (offset : Nat) : List (MergeTag × Text) → List Occurrence
  | [] => []
  | (t, gap) :: tagged =>
    let stop := offset + utf8Size t.source
    ⟨offset, stop, t.name⟩ :: placesFrom (stop + utf8Size gap) tagged

/-- The places of the tags. -/
def places (p : Pieces) : List Occurrence := placesFrom (utf8Size p.first) p.tagged

theorem source_ofSegments (segs : List Segment) :
    (ofSegments segs).source = segs.flatMap Segment.source := by
  induction segs with
  | nil => rfl
  | cons seg segs ih =>
    rw [List.flatMap_cons, ← ih]
    cases seg with
    | literal c => rfl
    | tag t => simp [ofSegments, source, Segment.source]

theorem placesFrom_ofSegments (segs : List Segment) (offset : Nat) :
    placesFrom (offset + utf8Size (ofSegments segs).first) (ofSegments segs).tagged
      = occurrencesFrom offset segs := by
  induction segs generalizing offset with
  | nil => rfl
  | cons seg segs ih =>
    cases seg with
    | literal c =>
      rw [occurrencesFrom, ← ih]
      simp [ofSegments, Nat.add_assoc]
    | tag t =>
      rw [occurrencesFrom, ← ih]
      simp [ofSegments, placesFrom]

end Pieces

/-- The pieces of a text. -/
def pieces (s : Text) : Pieces := .ofSegments (segments s)

/-- **The pieces make up the text.** -/
theorem source_pieces (s : Text) : (pieces s).source = s :=
  (Pieces.source_ofSegments _).trans (segments_source s)

/-- **The places of the pieces are those that are listed.** -/
theorem places_pieces (s : Text) : (pieces s).places = occurrences s := by
  have h := Pieces.placesFrom_ofSegments (segments s) 0
  rwa [Nat.zero_add] at h

/-- The tags of the pieces are written tags. -/
theorem isWritten_of_mem_pieces {s : Text} {t : MergeTag} {gap : Text}
    (h : (t, gap) ∈ (pieces s).tagged) : t.IsWritten := by
  unfold pieces at h
  fun_induction segments s with
  | case1 => cases h
  | case2 c s u rest hr ih =>
    rcases List.mem_cons.mp h with h | h
    · obtain ⟨rfl, -⟩ := Prod.mk.inj h
      exact (read?_append hr).2
    · exact ih h
  | case3 c s hr ih => exact ih h

/-! ## The loop -/

section Loop

variable {m : Type → Type} [Monad m] (resolve : Occurrence → m (Option Text))

theorem replaceFromM_literal {last : Text} {offset : Nat} {c : Char} {s : Text}
    (h : read? (c :: s) = none) :
    replaceFromM resolve last offset (c :: s)
      = replaceFromM resolve last (offset + c.utf8Size) s := by
  rw [replaceFromM]
  split
  · rfl
  · next h' => rw [h] at h'; cases h'

theorem replaceFromM_tag {last : Text} {offset : Nat} {c : Char} {s rest : Text} {t : MergeTag}
    (h : read? (c :: s) = some (t, rest)) :
    replaceFromM resolve last offset (c :: s) = (do
      match ← resolve ⟨offset, offset + utf8Size t.source, t.name⟩ with
      | none => replaceFromM resolve last (offset + utf8Size t.source) rest
      | some text =>
        return consumed last (c :: s) ++ text
          ++ (← replaceFromM resolve rest (offset + utf8Size t.source) rest)) := by
  rw [replaceFromM]
  split
  · next h' => rw [h] at h'; cases h'
  · next h' =>
    rw [h] at h'
    obtain ⟨rfl, rfl⟩ := Prod.mk.inj (Option.some.inj h')
    rfl

variable [LawfulMonad m]

/-- **What is written is the text in front of `s` that has not been written, and the pieces of `s`**
with the answers for its tags. -/
theorem replaceFromM_eq (front : Text) (offset : Nat) (s : Text) :
    replaceFromM resolve (front ++ s) offset s = (do
      let answers ← (occurrencesFrom offset (segments s)).mapM resolve
      return front ++ (pieces s).fill answers) := by
  unfold pieces
  fun_induction segments s generalizing front offset with
  | case1 => simp [replaceFromM, occurrencesFrom, Pieces.fill, Pieces.ofSegments]
  | case2 c s t rest h ih =>
    have hsource : front ++ c :: s = front ++ t.source ++ rest := by
      rw [List.append_assoc, (read?_append h).1]
    rw [replaceFromM_tag resolve h, occurrencesFrom, List.mapM_cons, bind_assoc]
    refine bind_congr fun answer => ?_
    cases answer with
    | none =>
      -- the tag joins what is still to be written
      rw [hsource, ih]
      simp [Pieces.fill, Pieces.ofSegments]
    | some text =>
      have hrest := ih [] (offset + utf8Size t.source)
      rw [List.nil_append] at hrest
      rw [hrest, consumed_of_append]
      simp [Pieces.fill, Pieces.ofSegments]
  | case3 c s h ih =>
    rw [replaceFromM_literal resolve h, occurrencesFrom, List.append_cons, ih]
    simp [Pieces.fill, Pieces.ofSegments]

/-- **Each tag is asked for once, from left to right**, and nothing else is. -/
theorem replaceM_eq (s : Text) :
    replaceM resolve s = (do
      let answers ← (occurrences s).mapM resolve
      return (pieces s).fill answers) :=
  replaceFromM_eq resolve [] 0 s

end Loop

/-! ## Answers that depend on the name -/

theorem Pieces.fill_map (p : Pieces) (answer : Text → Option Text) :
    p.fill (p.places.map fun o => answer o.name)
      = p.first ++ p.tagged.flatMap fun (t, gap) => (answer t.name).getD t.source ++ gap := by
  obtain ⟨first, tagged⟩ := p
  unfold fill places
  dsimp only
  generalize utf8Size first = offset
  rw [List.append_right_inj]
  induction tagged generalizing offset with
  | nil => rfl
  | cons piece tagged ih =>
    obtain ⟨t, gap⟩ := piece
    rw [placesFrom, List.map_cons, List.zipWith_cons_cons, List.flatten_cons, ih, List.flatMap_cons]

/-- A text whose tags are answered by name. -/
theorem replace_eq (answer : Text → Option Text) (s : Text) :
    replace (fun o => answer o.name) s = (pieces s).first ++
      (pieces s).tagged.flatMap fun (t, gap) => (answer t.name).getD t.source ++ gap := by
  rw [← Pieces.fill_map, places_pieces, replace, replaceM_eq, List.mapM_pure]
  rfl

/-- **Markup with every tag in a provider's form** is the gaps with the substitutions between
them. -/
theorem transform_eq (p : Preset) (overrides : Dictionary Text) (markup : Text) :
    p.transform overrides markup = (pieces markup).first ++
      (pieces markup).tagged.flatMap fun (t, gap) => p.substitution overrides t.name ++ gap :=
  replace_eq (fun name => some (p.substitution overrides name)) markup

/-! ## Replacing is exact -/

/-- **Replacing is exact.** A text is made up of its pieces, whose tags are those that are listed.
With a preset each tag becomes the override of its name, or what the preset writes if there is none;
and in general `resolve` is asked for each listed tag once, from left to right, and the text has its
answers in place of the tags, where a tag without an answer keeps its own text. Answers stand in the
text as they are. -/
theorem replace_exact {m : Type → Type} [Monad m] [LawfulMonad m]
    (resolve : Occurrence → m (Option Text)) (p : Preset) (overrides : Dictionary Text) (s : Text) :
    (pieces s).source = s ∧ (pieces s).places = occurrences s ∧
      (p.transform overrides s = (pieces s).first ++ (pieces s).tagged.flatMap fun (t, gap) =>
        (overrides.get? t.name).getD (p.transformTag t.name) ++ gap) ∧
      replaceM resolve s = (do
        let answers ← (occurrences s).mapM resolve
        return (pieces s).first ++ (List.zipWith
          (fun (t, gap) answer => answer.getD t.source ++ gap) (pieces s).tagged answers).flatten) :=
  ⟨source_pieces s, places_pieces s, transform_eq p overrides s, replaceM_eq resolve s⟩

/-- Of three tags, two of them side by side, a resolver that notes what it is asked answers for the
second one only, and with a text that is a tag itself. -/
theorem replace_exact_noted :
    LawfulMonad (StateM (List Occurrence)) ∧
      Id.run ((replaceM (m := StateM (List Occurrence)) (fun o seen =>
          (if seen.length = 1 then some "\x7b\x7ba\x7d\x7d".toList else none, seen ++ [o]))
        "\x7b\x7ba\x7d\x7d-\x7b\x7b b \x7d\x7d\x7b\x7bc\x7d\x7d".toList).run [])
      = ("\x7b\x7ba\x7d\x7d-\x7b\x7ba\x7d\x7d\x7b\x7bc\x7d\x7d".toList,
          [⟨0, 5, ['a']⟩, ⟨6, 13, ['b']⟩, ⟨13, 18, ['c']⟩]) := by
  refine ⟨inferInstance, ?_⟩
  rw [(replace_exact _ ⟨[], [], id, fun html => (html, [])⟩ {} _).2.2.2]
  decide +kernel

end Mailout.MergeTag
