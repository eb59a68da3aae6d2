import Mailout.Proofs.Offset.ClassRun
import Mailout.Proofs.Offset.MergeTag
import Mailout.Proofs.Offset.PostProcess

/-!
# No offset is wrong

Whatever a text holds, what is done to it by byte offset comes to a result: no part is taken the
wrong way round, behind the end or from inside a character, and no difference of offsets is below
zero.
-/

namespace Mailout.Offset

open Text MergeTag

/-- **Nothing that takes parts of a text by offset is at fault**, and each comes to what is said of
the text without offsets. A part can be taken between two offsets in order that lie between
characters, and only there. -/
theorem faultless (s : Text) :
    (∀ start stop, (∃ part, slice s start stop = .ok part) ↔
      start ≤ stop ∧ stop ≤ utf8Size s ∧ IsBoundary s start ∧ IsBoundary s stop) ∧
    (∀ start t, LeftAt s start ('{' :: '{' :: t) →
      parseTag s start = .ok ((read? ('{' :: '{' :: t)).map fun (tag, _) =>
        ⟨start, start + utf8Size tag.source, tag.name⟩)) ∧
    (∀ pos t, LeftAt s pos t → ∃ stop rest, LeftAt s stop rest ∧
      next s pos = .ok ((occurrencesFrom pos (segments t)).head?, stop)) ∧
    scan s = .ok (occurrences s) ∧
    (∀ (m : Type → Type) [Monad m] [LawfulMonad m] (resolve : Occurrence → m (Option Text)),
      (replaceTags resolve s).run = Except.ok <$> replaceM resolve s) ∧
    cleanRuns s = .ok (ClassRun.clean? s) ∧
    rewriteSpans s = .ok (UrlSpan.tripleBrace s) ∧
    findBodyEnd s = .ok ((cutAtBodyEnd s).map fun p => utf8Size p.1) ∧
    ∀ f, ensureFooter f s = .ok (f.ensure s) := by
  refine ⟨fun start stop => exists_slice_iff, fun start t h => parseTag_eq h, ?_, scan_eq s,
    fun m _ _ resolve => run_replaceTags resolve s, cleanRuns_eq s, rewriteSpans_eq s,
    findBodyEnd_eq s, fun f => ensureFooter_eq f s⟩
  intro pos t h
  obtain ⟨stop, rest, hnext, hstop⟩ := next_eq h
  exact ⟨stop, rest, hstop, hnext⟩

/-- Three braces behind a letter of two bytes, and blanks of two and three bytes around the name. -/
theorem faultless_wide :
    let s := "é\x7b\x7b\x7b\u00a0name\u2003\x7d\x7d".toList
    LeftAt s 3 (s.drop 2) ∧ parseTag s 3 = .ok (some ⟨3, 16, "name".toList⟩) ∧
      (∃ stop rest, LeftAt s stop rest ∧ next s 2 = .ok (some ⟨3, 16, "name".toList⟩, stop)) ∧
      LawfulMonad Id ∧
      (replaceTags (m := Id) (fun o => pure (some o.name)) s).run = .ok "é\x7bname".toList := by
  intro s
  obtain ⟨-, hparse, hnext, -, hreplace, -⟩ := faultless s
  have hleft : LeftAt s 3 (s.drop 2) := ⟨"é\x7b".toList, rfl, rfl⟩
  refine ⟨hleft, ?_, ?_, inferInstance, ?_⟩
  · rw [hparse 3 (s.drop 4) hleft]
    exact congrArg Except.ok (by decide +kernel)
  · obtain ⟨stop, rest, hstop, hfound⟩ := hnext 2 (s.drop 1) ⟨['é'], rfl, rfl⟩
    have hfirst :
        (occurrencesFrom 2 (segments (s.drop 1))).head? = some ⟨3, 16, "name".toList⟩ := by
      decide +kernel
    exact ⟨stop, rest, hstop, hfirst ▸ hfound⟩
  · have hreplaced : Id.run (replaceM (m := Id) (fun o => pure (some o.name)) s)
        = "é\x7bname".toList := by
      decide +kernel
    rw [hreplace]
    exact congrArg Except.ok hreplaced

end Mailout.Offset
