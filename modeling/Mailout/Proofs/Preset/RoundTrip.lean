import Mailout.Preset.Json
import Mailout.Proofs.Json.Reads

/-!
# Written descriptions are read back

A table goes through its description and through JSON without loss: what is written of it is read as
its description (`ofJson_toJson`), and the table that is made of this is the table itself
(`build_ofTable`). Whether it is of use is asked on the way back only.

## Steps

1. The members of a variant are its name and its content; the content gives the variant back
   (`ofContent_ensureUnsubscribe`).
2. Rules, steps and spellings are read back (`reads_fallback`, `reads_step`, `reads_knownTags`).
3. Reading the five members one by one fills in the draft (`membersRead_draft`).
-/

namespace Mailout

open Text Json Reader

/-! ## Content of a variant -/

theorem Datum.asTexts_texts (ts : List Text) : Datum.asTexts (.list (ts.map .text)) = .ok ts := by
  show (ts.map Datum.text).mapM Datum.asText = .ok ts
  induction ts with
  | nil => rfl
  | cons t ts ih =>
    rw [List.map_cons, List.mapM_cons, ih]
    rfl

theorem FallbackStyle.ofName_name (style : FallbackStyle) : ofName style.name.toList = .ok style := by
  have hfind : all.find? (·.name.toList == style.name.toList) = some style := by
    cases style <;> decide
  rw [ofName, hfind]

theorem StepKind.ofName_name (kind : StepKind) : ofName kind.name.toList = .ok kind := by
  have hfind : all.find? (·.name.toList == kind.name.toList) = some kind := by
    cases kind <;> decide
  rw [ofName, hfind]

theorem PostProcessStep.ofContent_ensureUnsubscribe (footer : UnsubscribeFooter) :
    PostProcessStep.ofContent .ensureUnsubscribe
        (.table [(.text "tokens".toList, .list (footer.tokens.map .text)),
          (.text "label".toList, .text footer.label)])
      = .ok (.ensureUnsubscribe footer) := by
  have hcontent : UnsubscribeFooter.ofContent
      (.table [(.text "tokens".toList, .list (footer.tokens.map .text)),
        (.text "label".toList, .text footer.label)]) = .ok footer := by
    rw [UnsubscribeFooter.ofContent, UnsubscribeFooter.ofEntries]
    simp only [Datum.asTexts_texts]
    rfl
  rw [PostProcessStep.ofContent, hcontent]
  rfl

/-! ## Variants -/

namespace Json

variable {ι α β : Type}

theorem foldl_append_snd (g : ι → α) (l : List ι) (b : β) (as : List α) :
    l.foldl (fun s i => (s.1, s.2 ++ [g i])) (b, as) = (b, as ++ l.map g) := by
  induction l generalizing as with
  | nil => simp
  | cons i l ih => simp [ih]

namespace ValueReader

/-- A field of the content: its name, its text, and the datum that is read. -/
structure ContentField where
  key : Text
  written : Text
  datum : Datum

/-- **A variant is read by its name**, which comes first, and its content is the rest. -/
theorem reads_variant {tag wanted : String} {ofName : Text → Except Mismatch α} {name : Text} {a : α}
    (hname : ofName name = .ok a) (n : Nat) (fields : List ContentField)
    (hfields : ∀ f ∈ fields, f.key ≠ tag.toList ∧ (datum n).Reads f.written f.datum) :
    (variant tag wanted ofName (n + 1)).Reads
      (writeObject ((tag.toList, writeText name) :: fields.map fun f => (f.key, f.written)))
      (a, .table (fields.map fun f => (.text f.key, f.datum))) := by
  refine reads_anyKind_object (n := n) ?_
  refine ReadsInside.bind_nil (readsInside_members (.cons ?_
    (membersRead_foldl (fun s f => (s.1, s.2 ++ [(.text f.key, f.datum)])) _
      (foldl_append_snd _ fields (some a) []) ?_))) (reads_pure _)
  · dsimp only
    rw [if_pos (beq_self_eq_true _)]
    exact reads_colon.bind ((reads_ofKind_text hname).bind_nil (reads_pure _))
  · intro state f hf
    obtain ⟨hkey, hread⟩ := hfields f hf
    dsimp only
    rw [if_neg (by simpa using hkey)]
    exact reads_colon.bind (hread.bind_nil (reads_pure _))

end ValueReader

end Json

/-! ## Rules and steps -/

namespace Json.ValueReader

theorem reads_fallback (n : Nat) (f : Fallback) : (fallback (n + 1)).Reads f.toJson f := by
  have hname := FallbackStyle.ofName_name f.style
  cases f with
  | template pattern =>
    have hpattern : "pattern".toList ≠ "style".toList := by decide
    refine reads_andThen (reads_variant hname n
      [⟨"pattern".toList, writeText pattern, .text pattern⟩] ?_) (reads_pure _)
    exact List.forall_mem_singleton.mpr ⟨hpattern, reads_datum_text n pattern⟩
  | pipeUpper | handlebars | contactAttribute =>
    exact reads_andThen (reads_variant hname n [] (List.forall_mem_nil _)) (reads_pure _)

theorem reads_step (n : Nat) (step : PostProcessStep) :
    (ValueReader.step (n + 2)).Reads step.toJson step := by
  have hname := StepKind.ofName_name step.kind
  cases step with
  | ensureUnsubscribe footer =>
    have htokens : "tokens".toList ≠ "kind".toList := by decide
    have hlabel : "label".toList ≠ "kind".toList := by decide
    refine reads_andThen (reads_variant hname (n + 1)
      [⟨"tokens".toList, writeArray (footer.tokens.map writeText), .list (footer.tokens.map .text)⟩,
        ⟨"label".toList, writeText footer.label, .text footer.label⟩] ?_)
      (reads_ofExcept (PostProcessStep.ofContent_ensureUnsubscribe footer))
    refine List.forall_mem_cons.mpr ⟨⟨htokens, reads_datum_texts n footer.tokens⟩, ?_⟩
    exact List.forall_mem_singleton.mpr ⟨hlabel, reads_datum_text (n + 1) footer.label⟩
  | tripleBraceUrls =>
    exact reads_andThen (reads_variant hname (n + 1) [] (List.forall_mem_nil _)) (reads_pure _)

theorem beginsValue_toJson (step : PostProcessStep) : BeginsValue step.toJson := by
  cases step <;> exact beginsValue_writeObject _

/-- A list of steps is read, if one more bracket may open than for a step. -/
theorem reads_steps (n : Nat) (l : List PostProcessStep) :
    (steps (n + 3)).Reads (writeArray (l.map PostProcessStep.toJson)) l := by
  have hinside : (Reader.elements (ValueReader.step (n + 2))).ReadsInside
      (List.intercalate [','] (l.map PostProcessStep.toJson)) ']' (l.map id) :=
    readsInside_elements fun step _ => ⟨beginsValue_toJson step, reads_step n step⟩
  rw [List.map_id] at hinside
  exact reads_ofKind_array (n := n + 2) hinside

theorem reads_knownTags (n : Nat) (d : Dictionary Text) :
    (knownTags (n + 1)).Reads (writeObject (d.entries.map fun e => (e.1, writeText e.2))) d := by
  refine reads_ofKind_object (n := n) (readsInside_members ?_)
  have hentries : d.entries.foldl (fun d e => d.insert e.1 e.2) .empty = d := d.ofList_entries
  refine membersRead_foldl _ _ hentries fun d' e _ => ?_
  exact reads_colon.bind ((reads_text e.2).bind_nil (reads_pure (d'.insert e.1 e.2)))

/-! ## Descriptions -/

/-- The members of a description fill in a draft one after the other. -/
theorem membersRead_draft (n : Nat) (d : PresetDescription) :
    MembersRead (draftMember (n + 3)) {}
      [("id".toList, writeText d.id), ("name".toList, writeText d.name),
        ("knownTags".toList, writeObject (d.knownTags.entries.map fun e => (e.1, writeText e.2))),
        ("fallback".toList, d.fallback.toJson),
        ("postProcess".toList, writeArray (d.steps.map PostProcessStep.toJson))]
      ⟨some d.id, some d.name, some d.knownTags, some d.fallback, some d.steps⟩ := by
  -- no field is given yet when its own member is read
  let d₁ : TableDraft := { id? := some d.id }
  let d₂ : TableDraft := { d₁ with name? := some d.name }
  let d₃ : TableDraft := { d₂ with knownTags? := some d.knownTags }
  let d₄ : TableDraft := { d₃ with fallback? := some d.fallback }
  let d₅ : TableDraft := { d₄ with steps? := some d.steps }
  have hid : (draftMember (n + 3) {} "id".toList).Reads (':' :: writeText d.id) d₁ :=
    reads_colon.bind ((reads_text d.id).bind_nil (reads_pure _))
  have hname : (draftMember (n + 3) d₁ "name".toList).Reads (':' :: writeText d.name) d₂ :=
    reads_colon.bind ((reads_text d.name).bind_nil (reads_pure _))
  have htags : (draftMember (n + 3) d₂ "knownTags".toList).Reads
      (':' :: writeObject (d.knownTags.entries.map fun e => (e.1, writeText e.2))) d₃ :=
    reads_colon.bind ((reads_knownTags (n + 2) d.knownTags).bind_nil (reads_pure _))
  have hfallback : (draftMember (n + 3) d₃ "fallback".toList).Reads (':' :: d.fallback.toJson) d₄ :=
    reads_colon.bind ((reads_fallback (n + 2) d.fallback).bind_nil (reads_pure _))
  have hsteps : (draftMember (n + 3) d₄ "postProcess".toList).Reads
      (':' :: writeArray (d.steps.map PostProcessStep.toJson)) d₅ :=
    reads_colon.bind ((reads_steps n d.steps).bind_nil (reads_pure _))
  exact .cons hid (.cons hname (.cons htags (.cons hfallback (.cons hsteps (.nil d₅)))))

theorem reads_description (d : PresetDescription) : description.Reads d.toJson d := by
  refine reads_ofKind_object (n := 126) ?_
  exact (readsInside_members (membersRead_draft 123 d)).bind_nil (reads_ofExcept rfl)

end Json.ValueReader

namespace PresetDescription

/-- **A written description is read back.** -/
theorem ofJson_toJson (d : PresetDescription) : ofJson d.toJson = .ok d := by
  have hread : ValueReader.description.run d.toJson = .ok (d, []) := by
    simpa using ValueReader.reads_description d []
  rw [ofJson, run_bind hread]
  rfl

/-! ## Tables -/

theorem foldl_withTag (es : List (Text × Text)) (t : TablePreset) :
    es.foldl (fun t e => t.withTag e.1 e.2) t = { t with knownTags := t.knownTags.insertAll es } := by
  induction es generalizing t with
  | nil => rfl
  | cons e es ih => exact ih (t.withTag e.1 e.2)

theorem foldl_withStep (steps : List PostProcessStep) (t : TablePreset) :
    steps.foldl TablePreset.withStep t = { t with steps := t.steps ++ steps } := by
  induction steps generalizing t with
  | nil => simp
  | cons step steps ih =>
    rw [List.foldl_cons, ih, TablePreset.withStep, List.append_assoc]
    rfl

/-- **The description of a table describes this table.** -/
theorem build_ofTable (t : TablePreset) : (ofTable t).build = t := by
  have htags : Dictionary.empty.insertAll t.knownTags.entries = t.knownTags :=
    t.knownTags.ofList_entries
  rw [build, ofTable]
  dsimp only
  rw [foldl_withTag, foldl_withStep]
  simp only [TablePreset.new, htags, List.nil_append]

/-- **Descriptions keep tables**: written and read again, the description of a table is the same,
and what is made of it is the table, or the error is the one that the table's own check gives. -/
theorem toTable_ofJson_toJson (t : TablePreset) :
    ofJson (ofTable t).toJson = .ok (ofTable t) ∧
      (ofTable t).toTable = match t.validate? with
        | none => .ok t
        | some problem => .error (.ofTable problem) := by
  refine ⟨ofJson_toJson (ofTable t), ?_⟩
  rw [toTable, build_ofTable, TablePreset.checked]
  cases t.validate? with
  | none => rfl
  | some problem => rfl

end PresetDescription

end Mailout
