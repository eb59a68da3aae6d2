import Mailout.Proofs.Markup.Rewritten
import Mailout.Proofs.PostProcess.Place
import Mathlib.Order.Bounds.Basic

/-!
# The footer and the end tags of a page

The footer goes in front of the last body end of the text. A reader of markup comes to the end tags
of the body, and the two need not be the same places: a body end in a comment, in a text-only
element or in the value of an attribute is no end tag, and an end tag whose name ends at a form feed
or at a slash is no body end.

## Main statements

* `exists_of_mem_endTag` — how an end tag is spelled;
* `unseenAt_iff` — an end tag is a body end unless its name ends at one of the two characters;
* `landsAtEndTag_iff` — when the footer goes in front of the last end tag of the body.
-/

namespace Mailout

open Text

namespace Markup

/-! ## How an end tag is spelled -/

theorem exists_of_readTag_endTag {s rest source name : Text}
    (h : readTag makeEndTag ('<' :: '/' :: s) s = (.endTag source name, rest)) :
    ∃ c u, source = '<' :: '/' :: (name ++ c :: u) ∧ isTagNamePart c = false := by
  unfold readTag at h
  split at h
  · next body r hbody =>
    obtain ⟨htoken, rfl⟩ := Prod.mk.inj h
    obtain ⟨rfl, rfl⟩ := Token.endTag.inj htoken
    obtain ⟨hsuffix, hlength⟩ := readTagBody_suffix hbody
    obtain ⟨c, w, hdrop⟩ := List.exists_cons_of_length_pos (Nat.zero_lt_of_lt hlength)
    rw [hdrop] at hsuffix hlength
    rcases List.suffix_cons_iff.mp hsuffix with rfl | ⟨u, rfl⟩
    · exact absurd hlength (Nat.lt_irrefl _)
    · refine ⟨c, u, ?_, not_of_mem_head?_dropWhile (s := s) (by rw [hdrop]; rfl)⟩
      have hs : '<' :: '/' :: s
          = ('<' :: '/' :: (s.takeWhile isTagNamePart ++ c :: u)) ++ r := by
        conv => lhs; rw [← List.takeWhile_append_dropWhile (p := isTagNamePart) (l := s), hdrop]
        simp
      rw [hs, consumed_of_append]
  · cases h

theorem exists_of_readOwnEnd_endTag {own s rest source name : Text}
    (h : readOwnEnd own s = (.endTag source name, rest)) :
    ∃ c u, source = '<' :: '/' :: (name ++ c :: u) ∧ isTagNamePart c = false := by
  unfold readOwnEnd at h
  split at h
  · split at h
    · exact exists_of_readTag_endTag h
    · cases h
  · cases h

theorem exists_of_readMarkup_endTag {foreign : Bool} {s rest source name : Text}
    (h : readMarkup foreign s = (.endTag source name, rest)) :
    ∃ c u, source = '<' :: '/' :: (name ++ c :: u) ∧ isTagNamePart c = false := by
  unfold readMarkup at h
  split at h
  · exact absurd (congrArg Prod.fst h) (readDeclaration_ne (by simp) _ _)
  · cases h
  · cases h
  · split at h
    · exact exists_of_readTag_endTag h
    · cases h
  · split at h
    · refine absurd (congrArg Prod.fst h) (readTag_ne (fun _ _ _ => ?_) fun _ => ?_)
      · exact Token.noConfusion
      · exact Token.noConfusion
    · cases h
  · cases h

/-- **An end tag is `</`, its name and a character that no name has**, and whatever follows. -/
theorem exists_of_mem_endTag {ctx : Context} {s source name : Text}
    (h : .endTag source name ∈ tokensFrom ctx s) :
    ∃ c u, source = '<' :: '/' :: (name ++ c :: u) ∧ isTagNamePart c = false := by
  fun_induction tokensFrom ctx s with
  | case1 => cases h
  | case2 ctx c s t rest hread ih =>
    rcases List.mem_cons.mp h with rfl | h
    · unfold readToken at hread
      split at hread
      · split at hread
        · exact exists_of_readMarkup_endTag hread
        · exact exists_of_readOwnEnd_endTag hread
        · split at hread
          · cases hread
          · exact exists_of_readOwnEnd_endTag hread
        · cases hread
      · cases hread
    · exact ih h

end Markup

open Markup

/-! ## The two kinds of places -/

/-- Whether a token is an end tag of the body. -/
def Token.isBodyEndTag : Token → Bool
  | .endTag _ name => sameLetters name "body".toList
  | _ => false

/-- Behind `n` characters of the page an end tag of the body is read. -/
def EndTagAt (html : Text) (n : Nat) : Prop :=
  ∃ before tag behind, tokens html = before ++ tag :: behind ∧ tag.isBodyEndTag = true ∧
    (before.flatMap Token.source).length = n

/-- Behind `n` characters of the page its text has a body end. -/
def TextEndAt (html : Text) (n : Nat) : Prop :=
  ∃ front rest, html = front ++ rest ∧ IsBodyEnd rest ∧ front.length = n

/-- A body end that is no end tag. -/
def LookalikeAt (html : Text) (n : Nat) : Prop := TextEndAt html n ∧ ¬ EndTagAt html n

/-- An end tag of the body whose name ends at a form feed or at a slash. -/
def UnseenAt (html : Text) (n : Nat) : Prop :=
  ∃ before name c u behind,
    tokens html = before ++ .endTag ('<' :: '/' :: (name ++ c :: u)) name :: behind ∧
      sameLetters name "body".toList = true ∧ (c = '\x0C' ∨ c = '/') ∧
      (before.flatMap Token.source).length = n

section

variable {html : Text} {before behind : List Token} {tag : Token}

theorem source_of_tokens_eq (h : tokens html = before ++ tag :: behind) :
    html = before.flatMap Token.source ++ (tag :: behind).flatMap Token.source := by
  rw [← List.flatMap_append, ← h, tokens_source]

theorem IsBodyEnd.exists_eq {s : Text} (h : IsBodyEnd s) : ∃ t, s = '<' :: '/' :: t := by
  obtain ⟨tag, c, rest, rfl, htag, -⟩ := h
  rw [show "</body".toList = ['<', '/', 'b', 'o', 'd', 'y'] from rfl, lowerAscii] at htag
  rcases tag with _ | ⟨a, _ | ⟨b, tag⟩⟩
  · cases htag
  · simp at htag
  · rw [List.map_cons, List.map_cons, List.cons.injEq, List.cons.injEq] at htag
    obtain rfl : a = '<' := eq_of_toLower_eq htag.1 (by decide)
    obtain rfl : b = '/' := eq_of_toLower_eq htag.2.1 (by decide)
    exact ⟨_, rfl⟩

/-- An end tag of the body is spelled with `</body` and a character behind it. -/
theorem exists_spelling (h : tokens html = before ++ tag :: behind)
    (htag : tag.isBodyEndTag = true) :
    ∃ name c u, tag = .endTag ('<' :: '/' :: (name ++ c :: u)) name ∧
      sameLetters name "body".toList = true ∧
      (c ∈ ['>', ' ', '\t', '\n', '\r'] ∨ c = '\x0C' ∨ c = '/') := by
  cases tag with
  | endTag source name =>
    have hmem : .endTag source name ∈ tokensFrom {} html := by
      show _ ∈ tokens html
      rw [h]
      exact List.mem_append_right _ List.mem_cons_self
    obtain ⟨c, u, rfl, hc⟩ := exists_of_mem_endTag hmem
    refine ⟨name, c, u, rfl, htag, ?_⟩
    simp only [isTagNamePart, isMarkupSpace, Bool.not_eq_false', Bool.or_eq_true, beq_iff_eq] at hc
    simp only [List.mem_cons, List.not_mem_nil, or_false]
    grind
  | _ => cases htag

theorem lowerAscii_endTag {name : Text} (h : sameLetters name "body".toList = true) :
    lowerAscii ('<' :: '/' :: name) = "</body".toList := by
  have hname : lowerAscii name = lowerAscii "body".toList := sameLetters_iff.mp h
  show '<'.toLower :: '/'.toLower :: lowerAscii name = _
  rw [hname]
  rfl

/-- **An end tag of the body is a body end**, or its name ends where a body end's does not. -/
theorem unseenAt_iff {n : Nat} : UnseenAt html n ↔ EndTagAt html n ∧ ¬ TextEndAt html n := by
  constructor
  · rintro ⟨before, name, c, u, behind, htokens, hname, hc, rfl⟩
    refine ⟨⟨before, _, behind, htokens, hname, rfl⟩, ?_⟩
    rintro ⟨front, rest, hs, ⟨tag, d, t, rfl, htag, hd⟩, hn⟩
    obtain ⟨-, hrest⟩ := List.append_inj ((source_of_tokens_eq htokens).symm.trans hs) hn.symm
    -- both texts have `</body` in front of the character in question
    have hlength : ('<' :: '/' :: name).length = tag.length := by
      rw [← lowerAscii_length, lowerAscii_endTag hname, ← htag, lowerAscii_length]
    have hrest : ('<' :: '/' :: name) ++ c :: (u ++ behind.flatMap Token.source)
        = tag ++ d :: t := by
      rw [← hrest]
      simp [Token.source]
    obtain ⟨rfl, -⟩ := List.cons.inj (List.append_inj hrest hlength).2
    rcases hc with rfl | rfl
    · revert hd; decide
    · revert hd; decide
  · rintro ⟨⟨before, tag, behind, htokens, htag, rfl⟩, hnot⟩
    obtain ⟨name, c, u, rfl, hname, hc⟩ := exists_spelling htokens htag
    rcases hc with hc | hc
    · refine absurd ⟨_, _, source_of_tokens_eq htokens, ⟨'<' :: '/' :: name, c,
        u ++ behind.flatMap Token.source, ?_, lowerAscii_endTag hname, hc⟩, rfl⟩ hnot
      simp [Token.source]
    · exact ⟨before, name, c, u, behind, htokens, hname, hc, rfl⟩

/-! ## The last places -/

/-- The last end tag of the body is the one behind which none is read. -/
theorem isGreatest_endTagAt_iff {n : Nat} :
    IsGreatest {m | EndTagAt html m} n ↔
      ∃ before tag behind, tokens html = before ++ tag :: behind ∧ tag.isBodyEndTag = true ∧
        (∀ t ∈ behind, t.isBodyEndTag = false) ∧ (before.flatMap Token.source).length = n := by
  constructor
  · rintro ⟨⟨before, tag, behind, htokens, htag, rfl⟩, hlast⟩
    refine ⟨before, tag, behind, htokens, htag, fun t ht => Bool.eq_false_iff.mpr fun htrue => ?_, rfl⟩
    obtain ⟨between, behind, rfl⟩ := List.append_of_mem ht
    have hle := hlast ⟨before ++ tag :: between, t, behind, by rw [htokens]; simp, htrue, rfl⟩
    -- no token is empty
    have htagSource : tag.source ≠ [] := by
      obtain ⟨name, c, u, rfl, -, -⟩ := exists_spelling htokens htag
      exact List.cons_ne_nil _ _
    have hpos := List.length_pos_iff.mpr htagSource
    simp only [List.flatMap_append, List.flatMap_cons, List.length_append] at hle
    omega
  · rintro ⟨before, tag, behind, htokens, htag, hlast, rfl⟩
    refine ⟨⟨before, tag, behind, htokens, htag, rfl⟩, ?_⟩
    rintro m ⟨before', tag', behind', htokens', htag', rfl⟩
    rcases List.append_eq_append_iff.mp (htokens'.symm.trans htokens) with
      ⟨more, rfl, -⟩ | ⟨more, hbefore, hmore⟩
    · simp
    · cases more with
      | nil => simp [hbefore]
      | cons t more =>
        have hmem : tag' ∈ behind := by
          rw [(List.cons.inj hmore).2]
          simp
        rw [hlast tag' hmem] at htag'
        cases htag'

/-- If there is an end tag of the body, there is a last one. -/
theorem exists_isGreatest_endTagAt {t : Token} (ht : t ∈ tokens html)
    (htag : t.isBodyEndTag = true) : ∃ n, IsGreatest {m | EndTagAt html m} n := by
  have hsome : ((tokens html).reverse.find? Token.isBodyEndTag).isSome = true :=
    List.find?_isSome.mpr ⟨t, List.mem_reverse.mpr ht, htag⟩
  obtain ⟨tag, hfind⟩ := Option.isSome_iff_exists.mp hsome
  obtain ⟨htag, behind, before, hreverse, hbehind⟩ := List.find?_eq_some_iff_append.mp hfind
  refine ⟨_, isGreatest_endTagAt_iff.mpr ⟨before.reverse, tag, behind.reverse, ?_, htag,
    fun t ht => ?_, rfl⟩⟩
  · rw [← List.reverse_reverse (tokens html), hreverse]
    simp
  · simpa using hbehind t (List.mem_reverse.mp ht)

/-- The last body end is the one in front of which the text is cut. -/
theorem isGreatest_textEndAt_iff {n : Nat} :
    IsGreatest {m | TextEndAt html m} n ↔
      ∃ front rest, cutAtBodyEnd html = some (front, rest) ∧ front.length = n := by
  simp only [cutAtBodyEnd_eq_some_iff]
  constructor
  · rintro ⟨⟨front, rest, hs, hend, rfl⟩, hlast⟩
    exact ⟨front, rest, ⟨hs, hend, fun front' rest' hs' hend' =>
      hlast ⟨front', rest', hs', hend', rfl⟩⟩, rfl⟩
  · rintro ⟨front, rest, ⟨hs, hend, hlast⟩, rfl⟩
    refine ⟨⟨front, rest, hs, hend, rfl⟩, ?_⟩
    rintro m ⟨front', rest', hs', hend', rfl⟩
    exact hlast front' rest' hs' hend'

theorem exists_isGreatest_textEndAt {n : Nat} (h : TextEndAt html n) :
    ∃ g, IsGreatest {m | TextEndAt html m} g := by
  obtain ⟨front, rest, hs, hend, -⟩ := h
  obtain ⟨⟨front', rest'⟩, hcut⟩ := Option.isSome_iff_exists.mp
    (cutAtBodyEnd_isSome_iff.mpr ⟨front, rest, hs, startsBodyEnd_iff.mpr hend⟩)
  exact ⟨_, isGreatest_textEndAt_iff.mpr ⟨front', rest', hcut, rfl⟩⟩

/-- Where each of two sets goes beyond every place that the other one has alone, the last place of
the one is the last place of the other. -/
theorem isGreatest_of_beyond {A B : Set Nat} (hgreatest : ∀ b ∈ B, ∃ g, IsGreatest B g)
    (hA : ∀ a ∈ A, a ∉ B → ∃ b ∈ B, a < b) (hB : ∀ b ∈ B, b ∉ A → ∃ a ∈ A, b < a) {n : Nat}
    (h : IsGreatest A n) : IsGreatest B n := by
  have hle (b : Nat) (hb : b ∈ B) : b ≤ n := by
    obtain ⟨g, hg⟩ := hgreatest b hb
    by_cases hgA : g ∈ A
    · exact Nat.le_trans (hg.2 hb) (h.2 hgA)
    · obtain ⟨a, ha, hlt⟩ := hB g hg.1 hgA
      exact Nat.le_trans (hg.2 hb) (Nat.le_trans (Nat.le_of_lt hlt) (h.2 ha))
  refine ⟨Classical.byContradiction fun hn => ?_, hle⟩
  obtain ⟨b, hb, hlt⟩ := hA n h.1 hn
  exact Nat.not_lt.mpr (hle b hb) hlt

end

/-! ## Where the footer is -/

namespace UnsubscribeFooter

variable {f : UnsubscribeFooter} {html : Text}

theorem exists_toHtml_eq (f : UnsubscribeFooter) : ∃ t, f.toHtml = '<' :: 't' :: t := by
  have hopen : frameOpen = '<' :: 't' :: frameOpen.drop 2 := by decide +kernel
  rw [toHtml, hopen]
  exact ⟨_, rfl⟩

/-- A page with a footer in it is another one. -/
theorem inserted_ne (f : UnsubscribeFooter) (front rest : Text) :
    front ++ f.toHtml ++ rest ≠ front ++ rest := by
  obtain ⟨footer, hfooter⟩ := f.exists_toHtml_eq
  intro h
  have hlength := congrArg List.length h
  simp only [hfooter, List.length_append, List.length_cons] at hlength
  omega

/-- Of the places in front of `</` a footer makes the same page at one only. -/
theorem eq_of_inserted {front front' s s' : Text}
    (h : front ++ '<' :: '/' :: s = front' ++ '<' :: '/' :: s')
    (hinserted : front ++ f.toHtml ++ '<' :: '/' :: s = front' ++ f.toHtml ++ '<' :: '/' :: s') :
    front = front' := by
  obtain ⟨footer, hfooter⟩ := f.exists_toHtml_eq
  have between {x s s' : Text} (h : '<' :: '/' :: s = x ++ '<' :: '/' :: s')
      (hinserted : f.toHtml ++ '<' :: '/' :: s = x ++ (f.toHtml ++ '<' :: '/' :: s')) : x = [] := by
    rw [hfooter] at hinserted
    match x with
    | [] => rfl
    | [a] => simp at h
    | a :: b :: x =>
      simp only [List.cons_append, List.cons.injEq] at h hinserted
      exact absurd (h.2.1.trans hinserted.2.1.symm) (by decide)
  rcases List.append_eq_append_iff.mp h with ⟨x, rfl, hx⟩ | ⟨x, rfl, hx⟩
  · obtain rfl := between hx (by simpa using hinserted)
    simp
  · obtain rfl := between hx (by simpa using hinserted.symm)
    simp

theorem ensure_eq_of_cut {front rest : Text} (habsent : ∀ w ∈ f.tokens, ¬ w <:+: html)
    (hcut : cutAtBodyEnd html = some (front, rest)) :
    (f.ensure html).1 = front ++ f.toHtml ++ rest := by
  rw [ensure, if_neg (isPresentIn_ne_true_iff.mpr habsent), hcut]

theorem ensure_eq_of_cut_none (hcut : cutAtBodyEnd html = none) : (f.ensure html).1 = html := by
  rw [ensure, hcut]
  split <;> rfl

/-- The footer is in front of the last end tag of the body that is read, and there is none if no end
tag of the body is. In front of an end tag it is not inside any other token. -/
def LandsAtEndTag (f : UnsubscribeFooter) (html : Text) : Prop :=
  (∀ before tag behind, Markup.tokens html = before ++ tag :: behind → tag.isBodyEndTag = true →
    (∀ t ∈ behind, t.isBodyEndTag = false) →
    (f.ensure html).1
      = before.flatMap Token.source ++ f.toHtml ++ (tag :: behind).flatMap Token.source) ∧
  ((∀ t ∈ Markup.tokens html, t.isBodyEndTag = false) → (f.ensure html).1 = html)

/-- The footer lands at an end tag if the last end tag and the last body end are the same place. -/
theorem landsAtEndTag_iff_isGreatest (habsent : ∀ w ∈ f.tokens, ¬ w <:+: html) :
    f.LandsAtEndTag html ↔
      ∀ n, IsGreatest {m | EndTagAt html m} n ↔ IsGreatest {m | TextEndAt html m} n := by
  constructor
  · rintro ⟨hlast, hnone⟩ n
    -- the footer is put in at the cut, and it is in front of the last end tag
    have hplace {front rest : Text} {before behind : List Token} {tag : Token}
        (hcut : cutAtBodyEnd html = some (front, rest))
        (htokens : Markup.tokens html = before ++ tag :: behind) (htag : tag.isBodyEndTag = true)
        (hbehind : ∀ t ∈ behind, t.isBodyEndTag = false) : front = before.flatMap Token.source := by
      obtain ⟨hs, hend, -⟩ := cutAtBodyEnd_eq_some_iff.mp hcut
      have hinserted := (ensure_eq_of_cut habsent hcut).symm.trans
        (hlast before tag behind htokens htag hbehind)
      have hsource := hs.symm.trans (source_of_tokens_eq htokens)
      obtain ⟨s, rfl⟩ := hend.exists_eq
      obtain ⟨name, c, u, rfl, -, -⟩ := exists_spelling htokens htag
      exact eq_of_inserted hsource hinserted
    constructor
    · intro hn
      obtain ⟨before, tag, behind, htokens, htag, hbehind, rfl⟩ := isGreatest_endTagAt_iff.mp hn
      cases hcut : cutAtBodyEnd html with
      | none =>
        have hensure := hlast before tag behind htokens htag hbehind
        rw [ensure_eq_of_cut_none hcut] at hensure
        exact absurd (hensure.symm.trans (source_of_tokens_eq htokens)) (f.inserted_ne _ _)
      | some sides =>
        exact isGreatest_textEndAt_iff.mpr ⟨sides.1, sides.2, hcut,
          congrArg List.length (hplace hcut htokens htag hbehind)⟩
    · intro hn
      obtain ⟨front, rest, hcut, rfl⟩ := isGreatest_textEndAt_iff.mp hn
      by_cases htag : ∃ t ∈ Markup.tokens html, t.isBodyEndTag = true
      · obtain ⟨t, ht, htag⟩ := htag
        obtain ⟨m, hm⟩ := exists_isGreatest_endTagAt ht htag
        obtain ⟨before, tag, behind, htokens, htag, hbehind, rfl⟩ := isGreatest_endTagAt_iff.mp hm
        rw [hplace hcut htokens htag hbehind]
        exact hm
      · have hensure := hnone fun t ht => Bool.eq_false_iff.mpr fun htrue => htag ⟨t, ht, htrue⟩
        rw [ensure_eq_of_cut habsent hcut] at hensure
        exact absurd (hensure.trans (cutAtBodyEnd_append hcut).symm) (f.inserted_ne _ _)
  · intro hsame
    refine ⟨fun before tag behind htokens htag hbehind => ?_, fun hnone => ?_⟩
    · obtain ⟨front, rest, hcut, hlength⟩ := isGreatest_textEndAt_iff.mp
        ((hsame _).mp (isGreatest_endTagAt_iff.mpr ⟨before, tag, behind, htokens, htag, hbehind, rfl⟩))
      obtain ⟨rfl, rfl⟩ := List.append_inj
        ((cutAtBodyEnd_append hcut).trans (source_of_tokens_eq htokens)) hlength
      exact ensure_eq_of_cut habsent hcut
    · cases hcut : cutAtBodyEnd html with
      | none => exact ensure_eq_of_cut_none hcut
      | some sides =>
        obtain ⟨⟨_, tag, _, htokens, htag, -⟩, -⟩ := (hsame _).mpr
          (isGreatest_textEndAt_iff.mpr ⟨sides.1, sides.2, hcut, rfl⟩)
        have hmem : tag ∈ Markup.tokens html := by rw [htokens]; simp
        rw [hnone tag hmem] at htag
        cases htag

/-- **The footer goes in front of the last end tag of the body exactly if the text does not
deceive**: behind every body end that is no end tag there is an end tag, and behind every end tag
whose name ends at a form feed or at a slash there is a body end. -/
theorem landsAtEndTag_iff (habsent : ∀ w ∈ f.tokens, ¬ w <:+: html) :
    f.LandsAtEndTag html ↔ (∀ n, LookalikeAt html n → ∃ m, n < m ∧ EndTagAt html m) ∧
      ∀ n, UnseenAt html n → ∃ m, n < m ∧ TextEndAt html m := by
  have htags (n : Nat) (hn : EndTagAt html n) : ∃ g, IsGreatest {m | EndTagAt html m} g := by
    obtain ⟨before, tag, behind, htokens, htag, -⟩ := hn
    exact exists_isGreatest_endTagAt (by rw [htokens]; simp) htag
  rw [landsAtEndTag_iff_isGreatest habsent]
  constructor
  · intro hsame
    refine ⟨fun n ⟨htext, hnot⟩ => ?_, fun n hunseen => ?_⟩
    · obtain ⟨g, hg⟩ := exists_isGreatest_textEndAt htext
      have hgTag := ((hsame g).mpr hg).1
      exact ⟨g, Nat.lt_of_le_of_ne (hg.2 htext) fun he => hnot (he ▸ hgTag), hgTag⟩
    · obtain ⟨htag, hnot⟩ := unseenAt_iff.mp hunseen
      obtain ⟨g, hg⟩ := htags n htag
      have hgText := ((hsame g).mp hg).1
      exact ⟨g, Nat.lt_of_le_of_ne (hg.2 htag) fun he => hnot (he ▸ hgText), hgText⟩
  · rintro ⟨hlookalike, hunseen⟩ n
    have hA (m : Nat) (hm : EndTagAt html m) (hnot : ¬ TextEndAt html m) :
        ∃ k, TextEndAt html k ∧ m < k :=
      (hunseen m (unseenAt_iff.mpr ⟨hm, hnot⟩)).imp fun _ h => h.symm
    have hB (m : Nat) (hm : TextEndAt html m) (hnot : ¬ EndTagAt html m) :
        ∃ k, EndTagAt html k ∧ m < k :=
      (hlookalike m ⟨hm, hnot⟩).imp fun _ h => h.symm
    exact ⟨isGreatest_of_beyond (fun _ => exists_isGreatest_textEndAt) hA hB,
      isGreatest_of_beyond htags hB hA⟩

/-- A body end in a comment does not matter where an end tag is behind it. -/
theorem landsAtEndTag_iff_comment_in_front :
    let f : UnsubscribeFooter := { tokens := ["*|UNSUB|*".toList] }
    let html := "<!--</body>--></BODY >".toList
    (∀ w ∈ f.tokens, ¬ w <:+: html) ∧ f.LandsAtEndTag html ∧
      (∀ n, LookalikeAt html n → ∃ m, n < m ∧ EndTagAt html m) ∧
      ∀ n, UnseenAt html n → ∃ m, n < m ∧ TextEndAt html m := by
  intro f html
  have habsent : ∀ w ∈ f.tokens, ¬ w <:+: html := by
    intro w
    rw [← contains_iff]
    revert w
    decide +kernel
  have htext : IsGreatest {m | TextEndAt html m} 14 := isGreatest_textEndAt_iff.mpr
    ⟨"<!--</body>-->".toList, "</BODY >".toList, by decide +kernel, rfl⟩
  have htag : IsGreatest {m | EndTagAt html m} 14 := isGreatest_endTagAt_iff.mpr
    ⟨[.comment "<!--</body>-->".toList "</body>".toList], .endTag "</BODY >".toList "BODY".toList,
      [], by decide +kernel⟩
  have hlands : f.LandsAtEndTag html := by
    refine (landsAtEndTag_iff_isGreatest habsent).mpr fun n => ⟨fun hn => ?_, fun hn => ?_⟩
    · rwa [hn.unique htag]
    · rwa [hn.unique htext]
  exact ⟨habsent, hlands, (landsAtEndTag_iff habsent).mp hlands⟩

/-- A body end in a comment behind the end tag gets the footer, which no reader sees then. -/
theorem not_landsAtEndTag_comment :
    let f : UnsubscribeFooter := { tokens := ["*|UNSUB|*".toList] }
    let html := "<body><p>Hi</p></body><!-- </body> -->".toList
    (∀ w ∈ f.tokens, ¬ w <:+: html) ∧ ¬ f.LandsAtEndTag html := by
  intro f html
  refine ⟨?_, fun h => ?_⟩
  · intro w
    rw [← contains_iff]
    revert w
    decide +kernel
  · have hensure := h.1 (Markup.tokens "<body><p>Hi</p>".toList)
      (.endTag "</body>".toList "body".toList) [.comment "<!-- </body> -->".toList " </body> ".toList]
      (by decide +kernel) (by decide) (by decide)
    revert hensure
    decide +kernel

end UnsubscribeFooter

end Mailout
