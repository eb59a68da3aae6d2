import Mailout.Proofs.PostProcess.Footer
import Mailout.Proofs.Text.Bytes
import Mathlib.Order.Bounds.Defs

/-!
# Where the footer goes

The footer goes in front of the last body end. Which one that is can be said of the bytes of the
page alone (`BodyEndAt`): a body end is read from bytes below 128, so wherever they stand is the
place of a character, and the page is never cut inside one.

## Main statements

* `cutAtBodyEnd_eq_some_iff` — the cut is made in front of the last body end;
* `bodyEndAt_iff` — the bytes read a body end exactly where the text does;
* `ensure_at_greatest` — what the page is afterwards, and that it is settled then.
-/

namespace Mailout

open Text

/-! ## The last body end -/

theorem cutAtBodyEnd_eq_none_iff {s : Text} :
    cutAtBodyEnd s = none ↔ ∀ front rest, s = front ++ rest → ¬ IsBodyEnd rest := by
  rw [← Option.not_isSome_iff_eq_none, cutAtBodyEnd_isSome_iff]
  simp only [startsBodyEnd_iff, not_exists, not_and]

/-- No body end begins behind the cut. -/
theorem length_le_of_cutAtBodyEnd {s front rest front' rest' : Text}
    (h : cutAtBodyEnd s = some (front, rest)) (hs : s = front' ++ rest') (hend : IsBodyEnd rest') :
    front'.length ≤ front.length := by
  induction s generalizing front front' with
  | nil => cases h
  | cons c s ih =>
    cases front' with
    | nil => exact Nat.zero_le _
    | cons d front' =>
      obtain ⟨rfl, htail⟩ := List.cons.inj hs
      obtain ⟨⟨f, r⟩, hcut⟩ := Option.isSome_iff_exists.mp
        (cutAtBodyEnd_isSome_iff.mpr ⟨front', rest', htail, startsBodyEnd_iff.mpr hend⟩)
      rw [cutAtBodyEnd, hcut] at h
      obtain ⟨rfl, rfl⟩ := Prod.mk.inj (Option.some.inj h)
      exact Nat.succ_le_succ (ih hcut htail)

/-- **The cut is made in front of the last body end.** -/
theorem cutAtBodyEnd_eq_some_iff {s front rest : Text} :
    cutAtBodyEnd s = some (front, rest) ↔ s = front ++ rest ∧ IsBodyEnd rest ∧
      ∀ front' rest', s = front' ++ rest' → IsBodyEnd rest' → front'.length ≤ front.length := by
  constructor
  · intro h
    exact ⟨(cutAtBodyEnd_append h).symm, startsBodyEnd_iff.mp (startsBodyEnd_of_cutAtBodyEnd h),
      fun front' rest' => length_le_of_cutAtBodyEnd h⟩
  · rintro ⟨rfl, hend, hlast⟩
    obtain ⟨⟨front', rest'⟩, hcut⟩ := Option.isSome_iff_exists.mp
      (cutAtBodyEnd_isSome_iff.mpr ⟨front, rest, rfl, startsBodyEnd_iff.mpr hend⟩)
    have happend := cutAtBodyEnd_append hcut
    have hle := hlast front' rest' happend.symm
      (startsBodyEnd_iff.mp (startsBodyEnd_of_cutAtBodyEnd hcut))
    have hge := length_le_of_cutAtBodyEnd hcut rfl hend
    obtain ⟨rfl, rfl⟩ := List.append_inj happend (Nat.le_antisymm hle hge)
    exact hcut

/-! ## Body ends by bytes -/

/-- At the offset `p` the bytes read `</body` in any case of letters, and then `>`, a space, a tab,
a line feed or a carriage return. -/
def BodyEndAt (bytes : List UInt8) (p : Nat) : Prop :=
  ∃ front tag b rest, bytes = front ++ tag ++ b :: rest ∧ front.length = p ∧
    tag.map lowerByte = utf8Bytes "</body".toList ∧ b ∈ utf8Bytes ['>', ' ', '\t', '\n', '\r']

theorem lt_of_lowerByte_mem {b : UInt8} (h : lowerByte b ∈ utf8Bytes "</body".toList) :
    b.toNat < 128 := by
  have hsmall : ∀ d ∈ utf8Bytes "</body".toList, d.toNat < 128 := by simp [utf8EncodeChar_of_lt]
  have hlower := hsmall _ h
  unfold lowerByte at hlower
  split at hlower <;> omega

/-- **The bytes read a body end exactly where the text does**, so that is never inside a
character. -/
theorem bodyEndAt_iff {html : Text} {p : Nat} :
    BodyEndAt (utf8Bytes html) p ↔
      ∃ front rest, html = front ++ rest ∧ utf8Size front = p ∧ IsBodyEnd rest := by
  constructor
  · rintro ⟨front, tag, b, rest, hbytes, rfl, htag, hb⟩
    have hsmall : ∀ d ∈ tag, d.toNat < 128 := fun d hd =>
      lt_of_lowerByte_mem (htag ▸ List.mem_map_of_mem hd)
    have hstops : ∀ d ∈ utf8Bytes ['>', ' ', '\t', '\n', '\r'], d.toNat < 128 := by
      simp [utf8EncodeChar_of_lt]
    obtain ⟨d, tag, rfl⟩ := List.exists_cons_of_ne_nil (l := tag) (by rintro rfl; cases htag)
    obtain ⟨before, after, rfl, rfl, hafter⟩ :=
      exists_of_utf8Bytes_eq (hsmall d List.mem_cons_self) (hbytes.trans (List.append_assoc _ _ _))
    obtain ⟨start, after, rfl, hstart, hafter⟩ := exists_start_of_utf8Bytes_eq hsmall hafter
    have hstopSmall : ∀ d ∈ [b], d.toNat < 128 := by simpa using hstops b hb
    obtain ⟨stop, after, rfl, hstop, -⟩ := exists_start_of_utf8Bytes_eq hstopSmall hafter
    obtain ⟨c, hc, hbc⟩ := List.mem_flatMap.mp hb
    obtain rfl : stop = [c] := utf8Bytes_injective (by
      rw [hstop, utf8Bytes_cons, utf8EncodeChar_of_mem (hstops b hb) hbc]
      rfl)
    refine ⟨before, start ++ ([c] ++ after), rfl, (length_utf8Bytes before).symm, start, c, after,
      rfl, utf8Bytes_injective ?_, hc⟩
    rw [utf8Bytes_lowerAscii, hstart, htag]
  · rintro ⟨front, _, rfl, rfl, tag, c, rest, rfl, htag, hc⟩
    have hstops : ∀ d ∈ ['>', ' ', '\t', '\n', '\r'], d.toNat < 128 := by simp
    have hencode := utf8EncodeChar_of_lt (hstops c hc)
    refine ⟨utf8Bytes front, utf8Bytes tag, UInt8.ofNat c.toNat, utf8Bytes rest, ?_,
      length_utf8Bytes front, by rw [← utf8Bytes_lowerAscii, htag], ?_⟩
    · simp [hencode]
    · exact List.mem_flatMap.mpr ⟨c, hc, by simp [hencode]⟩

/-! ## The page afterwards -/

/-- Escaping changes only four characters. -/
theorem escapeQuotedValue_eq_self {s : Text}
    (h : ∀ c ∈ s, c ≠ '&' ∧ c ≠ '<' ∧ c ≠ '>' ∧ c ≠ '"') : escapeQuotedValue s = s := by
  induction s with
  | nil => rfl
  | cons c s ih =>
    rw [List.forall_mem_cons] at h
    obtain ⟨⟨hamp, hlt, hgt, hquote⟩, h⟩ := h
    rw [escapeQuotedValue, List.flatMap_cons]
    rw [escapeQuotedValue] at ih
    rw [ih h]
    split <;> simp_all

namespace UnsubscribeFooter

variable {f : UnsubscribeFooter} {html : Text}

theorem isPresentIn_eq_true_iff : f.isPresentIn html = true ↔ ∃ w ∈ f.tokens, w <:+: html := by
  simp only [isPresentIn, List.any_eq_true, contains_iff]

theorem isPresentIn_ne_true_iff : ¬ f.isPresentIn html = true ↔ ∀ w ∈ f.tokens, ¬ w <:+: html := by
  rw [isPresentIn_eq_true_iff, not_exists]
  exact forall_congr' fun w => not_and

/-- The first token stands in the page in which the footer has been put, if escaping keeps it. -/
theorem isPresentIn_of_href {w : Text} {ws : List Text} (htokens : f.tokens = w :: ws)
    (hw : escapeQuotedValue w = w) (front rest : Text) :
    f.isPresentIn (front ++ f.toHtml ++ rest) = true := by
  refine isPresentIn_eq_true_iff.mpr ⟨w, by rw [htokens]; exact List.mem_cons_self, ?_⟩
  have hhref : f.href = w := by rw [href, htokens]; rfl
  refine ⟨front ++ frameOpen, frameMiddle ++ escapeContent f.label ++ frameClose ++ rest, ?_⟩
  rw [toHtml, hhref, hw]
  simp

/-- **The footer goes to the greatest offset of a body end.** The page stays as it is if a token
stands in it or no body end does. If escaping keeps the first token, a second footer is never put
in. -/
theorem ensure_at_greatest (f : UnsubscribeFooter) (html : Text) :
    ((∃ w ∈ f.tokens, w <:+: html) → f.ensure html = (html, [])) ∧
    ((∀ w ∈ f.tokens, ¬ w <:+: html) → (∀ p, ¬ BodyEndAt (utf8Bytes html) p) →
      f.ensure html = (html, [.footerSkipped])) ∧
    ((∀ w ∈ f.tokens, ¬ w <:+: html) → (∃ p, BodyEndAt (utf8Bytes html) p) →
      ∃ p front rest, IsGreatest {p | BodyEndAt (utf8Bytes html) p} p ∧
        html = front ++ rest ∧ utf8Size front = p ∧
        f.ensure html = (front ++ f.toHtml ++ rest, [.footerInserted p])) ∧
    (∀ w ws, f.tokens = w :: ws → (∀ c ∈ w, c ≠ '&' ∧ c ≠ '<' ∧ c ≠ '>' ∧ c ≠ '"') →
      (f.ensure (f.ensure html).1).1 = (f.ensure html).1) := by
  refine ⟨fun h => ?_, fun h hnone => ?_, fun h ⟨q, hq⟩ => ?_, fun w ws htokens hw => ?_⟩
  · rw [ensure, if_pos (isPresentIn_eq_true_iff.mpr h)]
  · have hcut : cutAtBodyEnd html = none := cutAtBodyEnd_eq_none_iff.mpr
      fun front rest hs hend => hnone _ (bodyEndAt_iff.mpr ⟨front, rest, hs, rfl, hend⟩)
    rw [ensure, if_neg (isPresentIn_ne_true_iff.mpr h), hcut]
  · obtain ⟨front', rest', hs', -, hend'⟩ := bodyEndAt_iff.mp hq
    obtain ⟨⟨front, rest⟩, hcut⟩ := Option.isSome_iff_exists.mp
      (cutAtBodyEnd_isSome_iff.mpr ⟨front', rest', hs', startsBodyEnd_iff.mpr hend'⟩)
    obtain ⟨hs, hend, hlast⟩ := cutAtBodyEnd_eq_some_iff.mp hcut
    refine ⟨utf8Size front, front, rest, ⟨bodyEndAt_iff.mpr ⟨front, rest, hs, rfl, hend⟩, ?_⟩, hs, rfl,
      by rw [ensure, if_neg (isPresentIn_ne_true_iff.mpr h), hcut]⟩
    intro p hp
    obtain ⟨front', rest', hs', rfl, hend'⟩ := bodyEndAt_iff.mp hp
    -- of two fronts of the page the longer one has the other at its start
    obtain ⟨t, rfl⟩ := List.prefix_of_prefix_length_le ⟨rest', hs'.symm⟩ ⟨rest, hs.symm⟩
      (hlast front' rest' hs' hend')
    rw [utf8Size_append]
    exact Nat.le_add_right _ _
  · rcases ensure_cases f html with he | ⟨-, front, rest, -, -, he⟩
    · rw [he, he]
    · have hpresent := isPresentIn_of_href htokens (escapeQuotedValue_eq_self hw) front rest
      rw [he, ensure, if_pos hpresent]

/-- In capitals, behind a letter of two bytes and in front of a longer name. -/
theorem ensure_at_greatest_capitals :
    let f : UnsubscribeFooter := { tokens := ["*|UNSUB|*".toList], label := "Stop".toList }
    let html := "<p>é</p></BODY\n></bodyguard>".toList
    (∀ w ∈ f.tokens, ¬ w <:+: html) ∧ BodyEndAt (utf8Bytes html) 9 ∧
      (∃ p front rest, IsGreatest {p | BodyEndAt (utf8Bytes html) p} p ∧ html = front ++ rest ∧
        utf8Size front = p ∧ f.ensure html = (front ++ f.toHtml ++ rest, [.footerInserted p])) ∧
      (f.ensure (f.ensure html).1).1 = (f.ensure html).1 := by
  intro f html
  have habsent : ∀ w ∈ f.tokens, ¬ w <:+: html := by
    rintro w hw
    rw [← contains_iff]
    revert w
    decide +kernel
  have hend : BodyEndAt (utf8Bytes html) 9 := bodyEndAt_iff.mpr
    ⟨"<p>é</p>".toList, "</BODY\n></bodyguard>".toList, rfl, rfl, startsBodyEnd_iff.mp (by decide)⟩
  obtain ⟨-, -, hinserted, hsettled⟩ := ensure_at_greatest f html
  exact ⟨habsent, hend, hinserted habsent ⟨9, hend⟩, hsettled _ [] rfl (by simp)⟩

end UnsubscribeFooter

end Mailout
