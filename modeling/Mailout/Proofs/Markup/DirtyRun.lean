import Mailout.Proofs.Markup.QuotedRun
import Mathlib.Data.List.TakeWhile

/-!
# What cleaning a comment leaves alone

Cleaning the text of a comment changes it at some of its class runs. All else is kept, character by
character and in its place: the text is what stands between these runs and the runs themselves, and
what comes out is the same with the runs edited (`weave`). A run that is edited is *dirty*: its
value is blank, or it has an editor token.

## Main statements

* `IsRun.isDirty_iff` — what a dirty run is;
* `exists_weave_parts` — the parts of a text as a weave of its dirty runs;
* `exists_run_of_front` — the first run is found, whatever stands in front of it;
* `clean_exact` — what cleaning makes of a text.
-/

namespace Mailout

open Text

/-! ## Sizes -/

namespace Text

/-- Joined words take up their own size, and one space between neighbours. -/
theorem utf8Size_joinWords {ws : List Text} (h : ws ≠ []) :
    utf8Size (joinWords ws) + 1 = utf8Size ws.flatten + ws.length := by
  induction ws with
  | nil => exact absurd rfl h
  | cons w ws ih =>
    cases ws with
    | nil => simp [joinWords_singleton]
    | cons v ws =>
      have hspace : ' '.utf8Size = 1 := by decide
      have hrest := ih (List.cons_ne_nil v ws)
      rw [joinWords_cons_cons, utf8Size_append, utf8Size_cons, hspace, List.flatten_cons,
        utf8Size_append, List.length_cons]
      omega

theorem utf8Size_filter_le (p : Text → Bool) (ws : List Text) :
    utf8Size (ws.filter p).flatten + (ws.filter p).length
      ≤ utf8Size ws.flatten + ws.length := by
  induction ws with
  | nil => exact Nat.le_refl _
  | cons w ws ih =>
    rw [List.filter_cons, List.flatten_cons, utf8Size_append, List.length_cons]
    split
    · rw [List.flatten_cons, utf8Size_append, List.length_cons]
      omega
    · omega

end Text

/-- What is left of a class list with an editor token is shorter. -/
theorem ClassList.utf8Size_authored_lt {value w : Text} (hw : w ∈ words value)
    (heditor : isEditorToken w = true) (hne : authored value ≠ []) :
    utf8Size (joinWords (authored value)) < utf8Size value := by
  have hwords := utf8Size_words_le value
  have hjoin := utf8Size_joinWords hne
  obtain ⟨front, back, hsplit⟩ := List.append_of_mem hw
  have hauthored : authored value
      = front.filter (!isEditorToken ·) ++ back.filter (!isEditorToken ·) := by
    rw [authored, hsplit, List.filter_append, List.filter_cons, heditor]
    rfl
  have hfront := utf8Size_filter_le (!isEditorToken ·) front
  have hback := utf8Size_filter_le (!isEditorToken ·) back
  rw [hsplit] at hwords
  rw [hauthored] at hjoin ⊢
  simp only [List.flatten_append, List.flatten_cons, List.length_append, List.length_cons,
    utf8Size_append] at hwords hjoin
  omega

namespace ClassRun

/-! ## Dirty runs -/

/-- A run with a value that is blank or has a word that begins with `editor-`. -/
def IsDirtyRun (r : ClassRun) : Prop :=
  r.IsRun ∧ (r.value.all isBlank = true ∨ ∃ w ∈ words r.value, "editor-".toList <+: w)

/-- The run with its authored tokens, joined by single spaces; nothing if it has none. -/
def edited (r : ClassRun) : Text :=
  if ClassList.authored r.value = [] then []
  else r.withValue (joinWords (ClassList.authored r.value))

theorem isEditorToken_iff {w : Text} :
    ClassList.isEditorToken w = true ↔ "editor-".toList <+: w :=
  List.isPrefixOf_iff_prefix

theorem isDirty_iff {r : ClassRun} :
    r.isDirty = true ↔ r.value.all isBlank = true ∨ ∃ w ∈ words r.value, "editor-".toList <+: w := by
  rw [isDirty, ← Option.ne_none_iff_isSome, Ne, ClassList.clean?_eq_none_iff, not_and_or, not_not,
    words_eq_nil_iff]
  simp only [not_forall, Bool.not_eq_false, isEditorToken_iff, exists_prop]

theorem IsRun.isDirty_iff {r : ClassRun} (h : r.IsRun) : r.isDirty = true ↔ r.IsDirtyRun := by
  rw [ClassRun.isDirty_iff, IsDirtyRun, and_iff_right h]

/-- A dirty run is edited. -/
theorem cleaned_of_isDirty {r : ClassRun} (h : r.isDirty = true) : r.cleaned = r.edited := by
  obtain ⟨kept, hclean⟩ := Option.isSome_iff_exists.mp h
  obtain ⟨rfl, hnil⟩ := ClassList.clean?_eq_some hclean
  unfold cleaned edited
  rw [hclean]
  split
  · next he => cases he
  · next he => rw [if_pos (hnil.mp (Option.some.inj he))]
  · next hne he =>
    have hkept := Option.some.inj he
    rw [if_neg fun hauthored => hne (hkept.symm.trans (hnil.mpr hauthored)), hkept]

/-- Nothing is left of a dirty run, or it is shorter. -/
theorem IsDirtyRun.utf8Size_edited_lt {r : ClassRun} (h : r.IsDirtyRun) :
    utf8Size r.edited < utf8Size r.source := by
  obtain ⟨hrun, hdirty⟩ := h
  have hquote := r.quote.utf8Size_pos
  unfold edited
  split
  · simp only [source, withValue, utf8Size_append, utf8Size_cons, utf8Size_nil]
    omega
  · next hne =>
    rcases hdirty with hblank | ⟨w, hw, heditor⟩
    · refine absurd ?_ hne
      rw [ClassList.authored, words_eq_nil_iff.mpr hblank]
      rfl
    · have hlt := ClassList.utf8Size_authored_lt hw (isEditorToken_iff.mpr heditor) hne
      simp only [source, withValue, utf8Size_append, utf8Size_cons, utf8Size_nil]
      omega

/-! ## Runs in a text -/

/-- The text `first`, and then runs, each with the text behind it. Every run is written by
`write`. -/
def weave (write : ClassRun → Text) (first : Text) (pieces : List (ClassRun × Text)) : Text :=
  first ++ pieces.flatMap fun p => write p.1 ++ p.2

/-- The parts of a text are a weave of the dirty runs among them. -/
theorem exists_weave_parts (ps : List Part) :
    ∃ first pieces, (∀ p ∈ pieces, .run p.1 ∈ ps ∧ p.1.isDirty = true) ∧
      (ps.any Part.isDirty = true → pieces ≠ []) ∧
      ps.flatMap Part.source = weave source first pieces ∧
      ps.flatMap Part.cleaned = weave edited first pieces := by
  induction ps with
  | nil => exact ⟨[], [], nofun, nofun, rfl, rfl⟩
  | cons p ps ih =>
    obtain ⟨first, pieces, hmem, hne, hsource, hcleaned⟩ := ih
    by_cases hp : p.isDirty = true
    · cases p with
      | literal c => cases hp
      | run r =>
        refine ⟨[], (r, first) :: pieces, List.forall_mem_cons.mpr ⟨⟨List.mem_cons_self, hp⟩,
          fun q hq => ⟨List.mem_cons_of_mem _ (hmem q hq).1, (hmem q hq).2⟩⟩,
          fun _ => List.cons_ne_nil _ _, ?_, ?_⟩
        · rw [List.flatMap_cons, hsource]
          simp [weave, Part.source]
        · rw [List.flatMap_cons, hcleaned, Part.cleaned, cleaned_of_isDirty hp]
          simp [weave]
    · have hkept : p.cleaned = p.source := by
        cases p with
        | literal c => rfl
        | run r =>
          have hclean : ClassList.clean? r.value = none := Option.not_isSome_iff_eq_none.mp hp
          rw [Part.cleaned, cleaned, hclean]
          rfl
      refine ⟨p.source ++ first, pieces,
        fun q hq => ⟨List.mem_cons_of_mem _ (hmem q hq).1, (hmem q hq).2⟩, ?_, ?_, ?_⟩
      · rw [List.any_cons, Bool.eq_false_iff.mpr hp, Bool.false_or]
        exact hne
      · rw [List.flatMap_cons, hsource, weave, weave, List.append_assoc]
      · rw [List.flatMap_cons, hcleaned, hkept, weave, weave, List.append_assoc]

theorem utf8Size_weave_edited {pieces : List (ClassRun × Text)}
    (h : ∀ p ∈ pieces, p.1.IsDirtyRun) (first : Text) :
    utf8Size (weave edited first pieces) + pieces.length ≤ utf8Size (weave source first pieces) := by
  simp only [weave, utf8Size_append]
  induction pieces with
  | nil => exact Nat.le_refl _
  | cons p pieces ih =>
    rw [List.forall_mem_cons] at h
    have hlt := h.1.utf8Size_edited_lt
    have hle := ih h.2
    simp only [List.flatMap_cons, utf8Size_append, List.length_cons]
    omega

/-! ## Finding a run -/

/-- The first run of a text is read, with all spaces in front of it. -/
theorem exists_run_of_front {r : ClassRun} (hr : r.IsRun) (rest : Text) {front : Text}
    (h : ¬ "class=".toList <:+: front) :
    ∃ space, .run { r with space := space } ∈ parts (front ++ r.source ++ rest) := by
  induction front with
  | nil =>
    rw [List.nil_append, hr.parts_source_append]
    exact ⟨r.space, List.mem_cons_self⟩
  | cons c front ih =>
    by_cases hspace : (c :: front).all isMarkupSpace = true
    · have hrun : IsRun { r with space := c :: front ++ r.space } :=
        ⟨List.cons_ne_nil _ _, by rw [List.all_append, hspace, hr.space]; rfl, hr.name, hr.quote,
          hr.value⟩
      have hsource : (c :: front) ++ r.source ++ rest
          = source { r with space := c :: front ++ r.space } ++ rest := by
        simp [source, withValue]
      rw [hsource, hrun.parts_source_append]
      exact ⟨_, List.mem_cons_self⟩
    · -- no name begins in front of the run's spaces
      have hother : isMarkupSpace c = true → read (c :: (front ++ r.source ++ rest)) = .other := by
        intro _
        obtain ⟨d, u, hd, hsource⟩ := hr.exists_source
        have hleft : ((c :: front).dropWhile isMarkupSpace).isEmpty = false := by
          rw [Bool.eq_false_iff, Ne, List.isEmpty_iff, List.dropWhile_eq_nil_iff,
            ← List.all_eq_true]
          exact hspace
        refine read_eq_other ?_
        rw [hsource, List.append_assoc, ← List.cons_append, List.dropWhile_append, hleft]
        refine readName_append_eq_none (fun hm => ?_) fun hin =>
          h (hin.trans (List.dropWhile_suffix _).isInfix)
        rw [not_isMarkupSpace_of_mem_name hm] at hd
        cases hd
      obtain ⟨space, hmem⟩ := ih fun hin => h (hin.trans (List.suffix_cons c front).isInfix)
      rw [List.cons_append, List.cons_append, parts_cons_of_literal hother]
      exact ⟨space, List.mem_cons_of_mem _ hmem⟩

/-! ## The text afterwards -/

/-- **Cleaning edits dirty runs and nothing else.** What comes out is the text with at least one of
its dirty runs edited, and it is shorter. A text without dirty runs is clean, and one with a dirty
run that no other `class=` stands in front of is not. -/
theorem clean_exact (text : Text) :
    (∀ out, clean? text = some out → ∃ first pieces, pieces ≠ [] ∧ (∀ p ∈ pieces, IsDirtyRun p.1) ∧
      text = weave source first pieces ∧ out = weave edited first pieces ∧
      utf8Size out < utf8Size text) ∧
    ((∀ r, IsDirtyRun r → ¬ r.source <:+: text) → clean? text = none) ∧
    (∀ front r rest, IsDirtyRun r → text = front ++ r.source ++ rest →
      ¬ "class=".toList <:+: front → (clean? text).isSome = true) := by
  refine ⟨fun out h => ?_, fun h => ?_, fun front r rest hr htext hfront => ?_⟩
  · unfold clean? at h
    split at h
    · next hany =>
      obtain ⟨first, pieces, hmem, hne, hsource, hcleaned⟩ := exists_weave_parts (parts text)
      have hdirty : ∀ p ∈ pieces, IsDirtyRun p.1 := fun p hp =>
        (isRun_of_mem_parts (hmem p hp).1).isDirty_iff.mp (hmem p hp).2
      rw [parts_source] at hsource
      have hsize := utf8Size_weave_edited hdirty first
      have hpos := List.length_pos_iff.mpr (hne hany)
      refine ⟨first, pieces, hne hany, hdirty, hsource, (Option.some.inj h).symm.trans hcleaned, ?_⟩
      rw [← Option.some.inj h, hcleaned, hsource]
      omega
    · cases h
  · refine if_neg fun hany => ?_
    obtain ⟨p, hp, hdirty⟩ := List.any_eq_true.mp hany
    cases p with
    | literal c => cases hdirty
    | run r =>
      exact h r ((isRun_of_mem_parts hp).isDirty_iff.mp hdirty) (source_infix_of_mem_parts hp)
  · obtain ⟨space, hmem⟩ := exists_run_of_front hr.1 rest hfront
    have hany : (parts text).any Part.isDirty = true := by
      rw [htext]
      exact List.any_eq_true.mpr ⟨_, hmem, hr.1.isDirty_iff.mpr hr⟩
    rw [clean?, if_pos hany]
    rfl

/-- Of two runs next to each other one goes, and the other keeps two tokens. -/
theorem clean_exact_neighbours :
    let text := "<td class=\"editor-x\"\tcss-class='a editor-y  b'>".toList
    let out := "<td\tcss-class='a b'>".toList
    clean? text = some out ∧
      (∃ first pieces, pieces ≠ [] ∧ (∀ p ∈ pieces, IsDirtyRun p.1) ∧
        text = weave source first pieces ∧ out = weave edited first pieces ∧
        utf8Size out < utf8Size text) ∧
      (clean? "<td>".toList = none ∧ (clean? text).isSome = true) := by
  intro text out
  have hclean : clean? text = some out := by decide +kernel
  have hnone : ∀ r, IsDirtyRun r → ¬ r.source <:+: "<td>".toList := by
    rintro r ⟨hr, -⟩ hin
    have hequals : '=' ∈ r.source := by
      rcases hr.name with hn | hn <;> simp [source, withValue, hn]
    exact absurd (hin.subset hequals) (by decide)
  let r : ClassRun := ⟨[' '], "class=".toList, '"', "editor-x".toList⟩
  have hrun : IsDirtyRun r := by
    refine ⟨⟨by decide, by decide, .inl rfl, .inl rfl, by decide⟩, .inr ⟨"editor-x".toList, ?_, ?_⟩⟩
    · decide
    · decide
  refine ⟨hclean, (clean_exact text).1 out hclean, (clean_exact _).2.1 hnone, ?_⟩
  exact (clean_exact text).2.2 "<td".toList r "\tcss-class='a editor-y  b'>".toList hrun rfl
    (by rw [← contains_iff]; decide)

end ClassRun

end Mailout
