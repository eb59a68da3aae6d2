import Mailout.Preset.Builtin
import Mailout.Proofs.MergeTag.Occurrences
import Mailout.Proofs.MergeTag.Substitution
import Mailout.Proofs.PostProcess.UrlSpan
import Mathlib.Data.List.Basic

/-!
# What SendGrid receives

SendGrid escapes what `{{…}}` inserts, so a variable that is a URL has to arrive between three pairs
of braces and every other one between two. Two scanners see to that one after the other: tags are
replaced by what the table says, and the finished page has its URL spans rewritten.

## No span crosses a tag

What a tag is replaced by begins with a brace and ends in one. If no tag stands against a brace of
the text around it, the gap in front does not end in `{` and the gap behind does not begin with `}`,
so that each gap and each tag is rewritten by itself (`tripleBraceFrom_append`).
-/

namespace Mailout

open Text

/-! ## Tags that stand apart -/

namespace MergeTag

/-- No tag of the text stands right behind a `{` or right in front of a `}`. -/
def StandApart (s : Text) : Prop :=
  ∀ (t : MergeTag) (before after : Text), t.IsWritten → s = before ++ t.source ++ after →
    before.getLast? ≠ some '{' ∧ after.head? ≠ some '}'

/-- Tags stand apart where no three braces stand side by side. -/
theorem standApart_of_no_triple {s : Text} (hopen : ¬ ['{', '{', '{'] <:+: s)
    (hclose : ¬ ['}', '}', '}'] <:+: s) : StandApart s := by
  intro t before after ht hs
  obtain ⟨inside, hsource, -, -⟩ := ht.exists_inside
  rw [hsource] at hs
  refine ⟨fun h => hopen ?_, fun h => hclose ?_⟩
  · obtain ⟨front, rfl⟩ := List.getLast?_eq_some_iff.mp h
    exact ⟨front, inside ++ ['}', '}'] ++ after, by simp [hs]⟩
  · obtain ⟨rest, rfl⟩ := List.head?_eq_some_iff.mp h
    exact ⟨before ++ '{' :: '{' :: inside, rest, by simp [hs]⟩

end MergeTag

/-- An identifier holds no brace and no line end. -/
theorem UrlSpan.not_isNested_of_isIdentifier {name : Text} (h : isIdentifier name = true) :
    isNested name = false := by
  refine List.any_eq_false.mpr fun c hc => ?_
  obtain ⟨hlow, hhigh⟩ := toNat_of_isIdentifierPart (all_part_of_isIdentifier h c hc)
  simp only [Bool.or_eq_true, beq_iff_eq, not_or]
  refine ⟨⟨?_, ?_⟩, ?_⟩ <;> rintro rfl <;> revert hlow hhigh <;> decide

/-! ## The table -/

namespace TablePreset

open MergeTag UrlSpan

/-- The name that stands between the braces of an expression. -/
def nameInBraces (expression : Text) : Text :=
  (expression.dropWhile (· == '{')).takeWhile (· != '}')

/-- The name by which SendGrid knows a variable: the one in the table, or the variable's own. -/
def sendgridName (variableName : Text) : Text :=
  ((sendgrid.knownTags.get? variableName).map nameInBraces).getD variableName

/-- A variable as SendGrid has to receive it. -/
def sendgridForm (variableName : Text) : Text :=
  if isUrl variableName then ['{', '{', '{'] ++ sendgridName variableName ++ ['}', '}', '}']
  else ['{', '{'] ++ sendgridName variableName ++ ['}', '}']

/-- The table writes URLs between three pairs of braces, and all else between two under a name that
is not a URL either. -/
theorem sendgrid_entries : ∀ e ∈ sendgrid.knownTags.entries,
    isNested (nameInBraces e.2) = false ∧
      if isUrl e.1 then e.2 = ['{', '{', '{'] ++ nameInBraces e.2 ++ ['}', '}', '}']
      else e.2 = ['{', '{'] ++ nameInBraces e.2 ++ ['}', '}'] ∧ isUrl (nameInBraces e.2) = false := by
  decide +kernel

/-- A known variable is written in the form that SendGrid has to receive. -/
theorem sendgrid_known {v expression : Text} (h : sendgrid.knownTags.get? v = some expression) :
    isNested (sendgridName v) = false ∧
      if isUrl v then expression = ['{', '{', '{'] ++ sendgridName v ++ ['}', '}', '}']
      else expression = ['{', '{'] ++ sendgridName v ++ ['}', '}'] ∧
        isUrl (sendgridName v) = false := by
  rw [sendgridName, h]
  exact sendgrid_entries _ (Dictionary.mem_entries_of_get? h)

theorem head?_sendgrid_transformTag (v : Text) :
    (sendgrid.transformTag v).head? = some '{' := by
  rw [transformTag]
  cases h : sendgrid.knownTags.get? v with
  | none => rfl
  | some expression =>
    have hform := (sendgrid_known h).2
    rw [Option.getD_some]
    split at hform
    · rw [hform]; rfl
    · rw [hform.1]; rfl

/-- **A variable is rewritten to the form that SendGrid has to receive**, if no brace closes behind
it. -/
theorem tripleBraceFrom_sendgrid {v rest : Text} (hv : isIdentifier v = true)
    (hrest : ∀ c ∈ rest.head?, c ≠ '}') :
    tripleBraceFrom false (sendgrid.transformTag v ++ rest)
      = sendgridForm v ++ tripleBraceFrom false rest := by
  rw [transformTag, sendgridForm]
  cases h : sendgrid.knownTags.get? v with
  | none =>
    rw [sendgridName, h]
    exact tripleBraceFrom_double (not_isNested_of_isIdentifier hv) hrest
  | some expression =>
    obtain ⟨hflat, hform⟩ := sendgrid_known h
    rw [Option.getD_some]
    by_cases hv : isUrl v = true
    · rw [if_pos hv] at hform ⊢
      rw [hform, tripleBraceFrom_triple fun hc => (not_mem_of_isNested hflat hc).1 rfl]
    · rw [if_neg hv] at hform ⊢
      rw [hform.1, tripleBraceFrom_double hflat hrest, if_neg (by simp [hform.2])]

/-! ## The page -/

theorem head?_substituted (tagged : List (MergeTag × Text)) :
    ∀ c ∈ (tagged.flatMap fun (t, gap) => sendgrid.transformTag t.name ++ gap).head?, c = '{' := by
  cases tagged with
  | nil => simp
  | cons piece tagged =>
    intro c hc
    rw [List.flatMap_cons, List.append_assoc, List.head?_append, head?_sendgrid_transformTag] at hc
    exact (Option.some.inj hc).symm

/-- Gaps and variables are rewritten one by one. `front` is the text in front of the first gap. -/
theorem tripleBraceFrom_pieces (front first : Text) {tagged : List (MergeTag × Text)}
    (hwritten : ∀ piece ∈ tagged, piece.1.IsWritten)
    (hapart : StandApart
      (front ++ first ++ tagged.flatMap fun (t, gap) => t.source ++ gap)) :
    tripleBraceFrom false
        (first ++ tagged.flatMap fun (t, gap) => sendgrid.transformTag t.name ++ gap)
      = tripleBrace first ++ tagged.flatMap fun (t, gap) =>
          sendgridForm t.name ++ tripleBrace gap := by
  induction tagged generalizing front first with
  | nil => simp [tripleBrace]
  | cons piece tagged ih =>
    obtain ⟨t, gap⟩ := piece
    have ht : t.IsWritten := hwritten _ List.mem_cons_self
    obtain ⟨hbefore, hafter⟩ := hapart t (front ++ first)
      (gap ++ tagged.flatMap fun (t, gap) => t.source ++ gap) ht (by simp)
    have hfirst : braceAfter false first = false :=
      braceAfter_of_getLast?_ne fun h => hbefore (by rw [List.getLast?_append, h]; rfl)
    have hgap : ∀ c ∈ (gap ++ tagged.flatMap fun (t, gap) =>
        sendgrid.transformTag t.name ++ gap).head?, c ≠ '}' := by
      intro c hc
      cases gap with
      | nil => rw [head?_substituted tagged c hc]; decide
      | cons d gap => exact fun h => hafter (h ▸ hc)
    rw [tripleBraceFrom_append hfirst (head?_substituted _), List.flatMap_cons, List.append_assoc,
      tripleBraceFrom_sendgrid ht.1 hgap, ih (front ++ first ++ t.source)]
    · simp [tripleBrace]
    · exact fun piece h => hwritten piece (List.mem_cons_of_mem _ h)
    · simpa using hapart

/-- **SendGrid receives URLs as they are and nothing else.** If every tag stands apart from the
braces around it, the finished page is the gaps of the markup, each with its own URL spans
rewritten, and between them the variables: between three pairs of braces if the variable is a URL
and between two otherwise, under the name that the table has for it. -/
theorem sendgrid_postProcess_transform {markup : Text} (h : StandApart markup) :
    (sendgrid.toPreset.postProcess (sendgrid.toPreset.transform {} markup)).1
      = tripleBrace (pieces markup).first ++ (pieces markup).tagged.flatMap fun (t, gap) =>
          (if isUrl t.name then ['{', '{', '{'] ++ sendgridName t.name ++ ['}', '}', '}']
            else ['{', '{'] ++ sendgridName t.name ++ ['}', '}']) ++ tripleBrace gap := by
  have hpieces : StandApart ([] ++ (pieces markup).first ++
      (pieces markup).tagged.flatMap fun (t, gap) => t.source ++ gap) := by
    change StandApart (pieces markup).source
    rw [source_pieces]
    exact h
  rw [transform_eq]
  exact tripleBraceFrom_pieces [] _ (fun _ => isWritten_of_mem_pieces) hpieces

/-- A known variable, a known URL, a URL that is not known, and an address in the text. -/
theorem sendgrid_postProcess_transform_mixed :
    StandApart (double " phone " ++ double "unsubscribe_url" ++ ", ".toList ++ double "a.url"
        ++ double "https://a") ∧
      (sendgrid.toPreset.postProcess (sendgrid.toPreset.transform {} (double " phone "
        ++ double "unsubscribe_url" ++ ", ".toList ++ double "a.url" ++ double "https://a"))).1
      = double "phone_number" ++ triple "unsubscribe" ++ ", ".toList ++ triple "a.url"
        ++ triple "https://a" := by
  have h : StandApart (double " phone " ++ double "unsubscribe_url" ++ ", ".toList
      ++ double "a.url" ++ double "https://a") :=
    standApart_of_no_triple (cut?_eq_none_iff.mp (by decide +kernel))
      (cut?_eq_none_iff.mp (by decide +kernel))
  refine ⟨h, ?_⟩
  rw [sendgrid_postProcess_transform h]
  decide +kernel

end TablePreset

end Mailout
