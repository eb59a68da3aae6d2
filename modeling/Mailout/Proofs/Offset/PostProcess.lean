import Mailout.Proofs.Offset.Slice
import Mailout.Proofs.PostProcess.Place
import Mailout.Proofs.PostProcess.UrlSpan

/-!
# Post-processing by byte offset

Both steps take the page apart by offset. URL spans are found going on from one place of braces to
the next, with a second offset up to which the page has been written. The last body end is found in
a copy in small letters, going back from one place of the tag's name to the place before; that copy
has the offsets of the page, since a letter and its small letter take up as many bytes.

## Main statements

* `rewriteSpansFrom_open` — one round of the loop over spans;
* `rewriteSpans_eq` — what the loop comes to;
* `findBodyEnd_eq` — the last body end is found where the page is cut;
* `ensureFooter_eq` — so the footer is put in there.
-/

namespace Mailout.Offset

open Text UrlSpan

/-! ## URL spans -/

/-- The content between the braces that open at an offset and the next ones that close, the offset
of these, and whether that is a span to be rewritten. -/
def readSpan (html : Text) (start : Nat) : Except Fault (Option (Text × Nat × Bool)) := do
  match ← find html ['}', '}'] (start + 2) with
  | none => return none
  | some close =>
    let content ← slice html (start + 2) close
    let tripleOpen := (← sliceTo html start).getLast? == some '{' || content.head? == some '{'
    let tripleClose := (← sliceFrom html (close + 2)).head? == some '}'
    return some (content, close,
      !tripleOpen && !tripleClose && !isNested content && isUrl content)

theorem le_of_readSpan {html content : Text} {start close : Nat} {b : Bool}
    (h : readSpan html start = .ok (some (content, close, b))) : start + 2 ≤ close := by
  obtain ⟨found, hclose, h⟩ := exists_of_bind_eq_ok h
  cases found with
  | none => cases h
  | some close' =>
    obtain ⟨content', -, h⟩ := exists_of_bind_eq_ok h
    obtain ⟨front, -, h⟩ := exists_of_bind_eq_ok h
    obtain ⟨rest, -, h⟩ := exists_of_bind_eq_ok h
    obtain ⟨-, hrest⟩ := Prod.mk.inj (Option.some.inj (Except.ok.inj h))
    obtain ⟨rfl, -⟩ := Prod.mk.inj hrest
    exact (find_le hclose).1

/-- The page with its URL spans rewritten, of which `output` has been written, and that up to the
offset `last`. -/
def rewriteSpansFrom (html : Text) (last pos : Nat) (output : Text) : Except Fault Text :=
  match _hopen : find html ['{', '{'] pos with
  | .error fault => .error fault
  | .ok none => do return output ++ (← sliceFrom html last)
  | .ok (some start) =>
    match _hspan : readSpan html start with
    | .error fault => .error fault
    | .ok none => do return output ++ (← sliceFrom html last)
    | .ok (some (content, close, true)) => do
      let gap ← slice html last start
      rewriteSpansFrom html (close + 2) (close + 2)
        (output ++ gap ++ (['{', '{', '{'] ++ content ++ ['}', '}', '}']))
    | .ok (some (_, _, false)) => rewriteSpansFrom html last (start + 2) output
termination_by utf8Size html - pos
decreasing_by
  · have hopen := find_braces_le _hopen
    have hclose := le_of_readSpan _hspan
    omega
  · have hopen := find_braces_le _hopen
    omega

/-- The page with its URL spans rewritten. -/
def rewriteSpans (html : Text) : Except Fault Text := rewriteSpansFrom html 0 0 []

theorem rewriteSpansFrom_eq_bind (html : Text) (last pos : Nat) (output : Text) :
    rewriteSpansFrom html last pos output = (do
      match ← find html ['{', '{'] pos with
      | none => return output ++ (← sliceFrom html last)
      | some start =>
        match ← readSpan html start with
        | none => return output ++ (← sliceFrom html last)
        | some (content, close, true) =>
          let gap ← slice html last start
          rewriteSpansFrom html (close + 2) (close + 2)
            (output ++ gap ++ (['{', '{', '{'] ++ content ++ ['}', '}', '}']))
        | some (_, _, false) => rewriteSpansFrom html last (start + 2) output) := by
  rw [rewriteSpansFrom]
  split
  · next hopen => rw [hopen]; rfl
  · next hopen => rw [hopen]; rfl
  · next start hopen =>
    rw [hopen]
    show _ = (readSpan html start >>= _)
    split
    · next hclose => rw [hclose]; rfl
    · next hclose => rw [hclose]; rfl
    · next hclose => rw [hclose]; rfl
    · next hclose => rw [hclose]; rfl

/-- A content that begins with a brace is nested, so the brace behind the opening ones need not be
looked at by itself. -/
theorem not_triple_and_not_nested (b c : Bool) (content : Text) :
    (!(b || content.head? == some '{') && !c && !isNested content && isUrl content)
      = (!b && !c && !isNested content && isUrl content) := by
  cases content with
  | nil => cases b <;> rfl
  | cons d content =>
    by_cases hd : d = '{'
    · subst hd
      have hnested : isNested ('{' :: content) = true := rfl
      rw [hnested]
      simp
    · have hhead : ((d :: content).head? == some '{') = false := by simpa using hd
      rw [hhead, Bool.or_false]

theorem readSpan_eq {html front t : Text} (h : html = front ++ '{' :: '{' :: t) :
    readSpan html (utf8Size front) = .ok ((cut? ['}', '}'] t).map fun (content, rest) =>
      (content, utf8Size front + 2 + utf8Size content,
        !(front.getLast? == some '{') && rest.head? != some '}' && !isNested content
          && isUrl content)) := by
  have hinside : LeftAt html (utf8Size front + 2) t :=
    @LeftAt.append html ['{', '{'] t _ ⟨front, h, rfl⟩
  rw [readSpan, find_eq hinside]
  cases hcut : cut? ['}', '}'] t with
  | none => rfl
  | some p =>
    obtain ⟨content, rest⟩ := p
    rw [cut?_eq_some hcut, List.append_assoc] at hinside
    have hbehind : LeftAt html (utf8Size front + 2 + utf8Size content + 2) rest :=
      @LeftAt.append html ['}', '}'] rest _ hinside.append
    show (slice html (utf8Size front + 2) (utf8Size front + 2 + utf8Size content) >>= _) = _
    rw [hinside.slice]
    show (sliceTo html (utf8Size front) >>= _) = _
    rw [h, sliceTo_append, ← h]
    show (sliceFrom html (utf8Size front + 2 + utf8Size content + 2) >>= _) = _
    rw [hbehind.sliceFrom]
    show Except.ok (some _) = Except.ok (some _)
    rw [not_triple_and_not_nested]
    rfl

/-- **One round of the loop**, where braces open: without closing ones it ends, and otherwise it
goes on behind the span that is rewritten, or behind the opening braces. -/
theorem rewriteSpansFrom_open {html written gap t : Text}
    (h : html = written ++ gap ++ '{' :: '{' :: t) (output : Text) :
    rewriteSpansFrom html (utf8Size written) (utf8Size (written ++ gap)) output
      = match cut? ['}', '}'] t with
        | none => .ok (output ++ gap ++ '{' :: '{' :: t)
        | some (content, rest) =>
          if !((written ++ gap).getLast? == some '{') && rest.head? != some '}'
              && !isNested content && isUrl content then
            rewriteSpansFrom html (utf8Size (written ++ gap) + 2 + utf8Size content + 2)
              (utf8Size (written ++ gap) + 2 + utf8Size content + 2)
              (output ++ gap ++ (['{', '{', '{'] ++ content ++ ['}', '}', '}']))
          else rewriteSpansFrom html (utf8Size written) (utf8Size (written ++ gap) + 2) output := by
  have hleft : LeftAt html (utf8Size (written ++ gap)) ('{' :: '{' :: t) := ⟨_, h, rfl⟩
  have hlast : LeftAt html (utf8Size written) (gap ++ '{' :: '{' :: t) :=
    ⟨written, by rw [h, List.append_assoc], rfl⟩
  have hgap : slice html (utf8Size written) (utf8Size (written ++ gap)) = .ok gap :=
    slice_eq_ok_iff.mpr ⟨written, _, h, rfl, rfl⟩
  rw [rewriteSpansFrom_eq_bind, @find_self html ['{', '{'] t _ (by decide) hleft]
  show (readSpan html (utf8Size (written ++ gap)) >>= _) = _
  rw [readSpan_eq h]
  cases hcut : cut? ['}', '}'] t with
  | none =>
    show (sliceFrom html (utf8Size written) >>= _) = _
    rw [hlast.sliceFrom]
    show Except.ok (output ++ (gap ++ '{' :: '{' :: t))
      = Except.ok (output ++ gap ++ '{' :: '{' :: t)
    rw [List.append_assoc]
  | some p =>
    obtain ⟨content, rest⟩ := p
    show (Except.ok (some (content, _, !((written ++ gap).getLast? == some '{')
      && rest.head? != some '}' && !isNested content && isUrl content)) >>= _) = ite _ _ _
    cases !((written ++ gap).getLast? == some '{') && rest.head? != some '}'
      && !isNested content && isUrl content with
    | false => rfl
    | true =>
      show (slice html (utf8Size written) (utf8Size (written ++ gap)) >>= _) = _
      rw [hgap]
      rfl

theorem rewriteSpansFrom_eq {html written gap t : Text} {b : Bool} (h : html = written ++ gap ++ t)
    (hb : ((written ++ gap).getLast? == some '{') = b) (output : Text) :
    rewriteSpansFrom html (utf8Size written) (utf8Size (written ++ gap)) output
      = .ok (output ++ gap ++ tripleBraceFrom b t) := by
  fun_induction tripleBraceFrom b t generalizing written gap output with
  | case1 b t hcut => rw [rewriteSpansFrom_open h, hcut]
  | case2 b t content rest hcut hspan ih =>
    have hstop : utf8Size (written ++ gap) + 2 + utf8Size content + 2
        = utf8Size (written ++ gap ++ ['{', '{'] ++ content ++ ['}', '}']) := by
      simp only [utf8Size_append]
      rfl
    have hnext : html = written ++ gap ++ ['{', '{'] ++ content ++ ['}', '}'] ++ [] ++ rest := by
      rw [h, cut?_eq_some hcut]
      simp
    have hbrace :
        ((written ++ gap ++ ['{', '{'] ++ content ++ ['}', '}'] ++ []).getLast? == some '{')
          = false := by
      rw [List.append_nil, List.getLast?_append]
      rfl
    have hloop := ih hnext hbrace (output ++ gap ++ (['{', '{', '{'] ++ content ++ ['}', '}', '}']))
    rw [List.append_nil] at hloop
    rw [rewriteSpansFrom_open h, hcut, hb]
    show ite _ _ _ = _
    rw [if_pos hspan, hstop, hloop]
    simp
  | case3 b t content rest hcut hspan ih =>
    have hstop : utf8Size (written ++ gap) + 2 = utf8Size (written ++ (gap ++ ['{', '{'])) := by
      simp only [utf8Size_append]
      rfl
    have hnext : html = written ++ (gap ++ ['{', '{']) ++ t := by simpa using h
    rw [rewriteSpansFrom_open h, hcut, hb]
    show ite _ _ _ = _
    rw [if_neg hspan, hstop, ih hnext (by simp)]
    simp
  | case4 b c t hno ih =>
    have hleft : LeftAt html (utf8Size (written ++ gap)) (c :: t) := ⟨_, h, rfl⟩
    have hnone : after? ['{', '{'] (c :: t) = none := by
      refine Option.eq_none_iff_forall_ne_some.mpr fun u hu => ?_
      obtain ⟨hc, ht⟩ := List.cons.inj (after?_eq_some_iff.mp hu)
      exact hno u hc ht
    have hstop : utf8Size (written ++ gap) + c.utf8Size = utf8Size (written ++ (gap ++ [c])) := by
      simp [Nat.add_assoc]
    have hnext : html = written ++ (gap ++ [c]) ++ t := by simpa using h
    rw [rewriteSpansFrom_eq_bind, find_cons hleft hnone, ← rewriteSpansFrom_eq_bind, hstop,
      ih hnext (by simp)]
    simp
  | case5 b =>
    have hleft : LeftAt html (utf8Size (written ++ gap)) [] := ⟨_, h, rfl⟩
    have hlast : LeftAt html (utf8Size written) (gap ++ []) :=
      ⟨written, by rw [h, List.append_assoc], rfl⟩
    rw [rewriteSpansFrom_eq_bind, find_eq hleft]
    show (sliceFrom html (utf8Size written) >>= _) = _
    rw [hlast.sliceFrom, List.append_assoc]
    rfl

/-- **The loop comes to what rewriting from left to right comes to.** -/
theorem rewriteSpans_eq (html : Text) : rewriteSpans html = .ok (tripleBrace html) :=
  @rewriteSpansFrom_eq html [] [] html false rfl rfl []

/-! ## The end of the body -/

/-- The text before and after the last place where `needle` stands. -/
def cutLast? (needle : Text) : Text → Option (Text × Text)
  | [] => if needle.isEmpty then some ([], []) else none
  | c :: s =>
    match cutLast? needle s with
    | some (front, rest) => some (c :: front, rest)
    | none => (after? needle (c :: s)).map ([], ·)

theorem cutLast?_eq_none {needle s : Text} (h : cutLast? needle s = none) : ¬ needle <:+: s := by
  induction s with
  | nil =>
    intro hinfix
    rw [cutLast?, List.infix_nil.mp hinfix] at h
    cases h
  | cons c s ih =>
    rw [cutLast?] at h
    split at h
    · cases h
    · next hnone =>
      intro hinfix
      rcases List.infix_cons_iff.mp hinfix with ⟨rest, hprefix⟩ | hinfix
      · rw [after?_eq_some_iff.mpr hprefix.symm] at h
        cases h
      · exact ih hnone hinfix

theorem cutLast?_eq_some {needle s front rest : Text} (h : cutLast? needle s = some (front, rest)) :
    s = front ++ needle ++ rest ∧
      ∀ front' rest', s = front' ++ needle ++ rest' → front'.length ≤ front.length := by
  induction s generalizing front with
  | nil =>
    rw [cutLast?] at h
    split at h
    · next hempty =>
      obtain ⟨rfl, rfl⟩ := Prod.mk.inj (Option.some.inj h)
      rw [List.isEmpty_iff.mp hempty]
      refine ⟨rfl, fun front' rest' hs => ?_⟩
      rw [List.append_nil] at hs
      exact Nat.le_of_eq (congrArg List.length (List.append_eq_nil_iff.mp hs.symm).1)
    · cases h
  | cons c s ih =>
    rw [cutLast?] at h
    split at h
    · next front₀ rest₀ hlast =>
      obtain ⟨rfl, rfl⟩ := Prod.mk.inj (Option.some.inj h)
      obtain ⟨hs, hbound⟩ := ih hlast
      refine ⟨by rw [hs]; rfl, fun front' rest' hcons => ?_⟩
      cases front' with
      | nil => exact Nat.zero_le _
      | cons d front' => exact Nat.succ_le_succ (hbound front' rest' (List.cons.inj hcons).2)
    · next hnone =>
      obtain ⟨rest', hafter, heq⟩ := Option.map_eq_some_iff.mp h
      obtain ⟨rfl, rfl⟩ := Prod.mk.inj heq
      refine ⟨after?_eq_some_iff.mp hafter, fun front' rest'' hcons => ?_⟩
      cases front' with
      | nil => exact Nat.le_refl _
      | cons d front' =>
        exact absurd ⟨front', rest'', (List.cons.inj hcons).2.symm⟩ (cutLast?_eq_none hnone)

/-- The last place of a needle in front of an offset. -/
def findLast (s needle : Text) (stop : Nat) : Except Fault (Option Nat) := do
  let front ← sliceTo s stop
  return (cutLast? needle front).map fun p => utf8Size p.1

theorem findLast_le {s needle : Text} {stop i : Nat} (h : findLast s needle stop = .ok (some i)) :
    i + utf8Size needle ≤ stop := by
  obtain ⟨front, hfront, h⟩ := exists_of_bind_eq_ok h
  obtain ⟨⟨before, after⟩, hlast, rfl⟩ := Option.map_eq_some_iff.mp (Except.ok.inj h)
  obtain ⟨start, -, -, hstart, hstop⟩ := slice_eq_ok_iff.mp hfront
  rw [utf8Size_append, (cutLast?_eq_some hlast).1, utf8Size_append, utf8Size_append] at hstop
  show utf8Size before + utf8Size needle ≤ stop
  omega

/-- What may follow the name in an end tag of the body. -/
def isBodyEndStop (c : Char) : Bool := ['>', ' ', '\t', '\n', '\r'].contains c

theorem isBodyEndStop_iff {c : Char} :
    isBodyEndStop c = true ↔ c = '>' ∨ c = ' ' ∨ c = '\t' ∨ c = '\n' ∨ c = '\r' := by
  simp only [isBodyEndStop, List.contains_iff_mem, List.mem_cons, List.not_mem_nil, or_false]

theorem isAscii_isBodyEndStop : IsAscii isBodyEndStop := by
  intro c h
  rcases isBodyEndStop_iff.mp h with rfl | rfl | rfl | rfl | rfl <;> decide

theorem toLower_of_isBodyEndStop {c : Char} (h : isBodyEndStop c = true) :
    c.toLower = c ∧ c.isAlpha = false := by
  rcases isBodyEndStop_iff.mp h with rfl | rfl | rfl | rfl | rfl <;> decide

/-- The last body end in front of an offset of a text in small letters. -/
def bodyEndFrom (lower : Text) (stop : Nat) : Except Fault (Option Nat) :=
  match _h : findLast lower "</body".toList stop with
  | .error fault => .error fault
  | .ok none => .ok none
  | .ok (some start) =>
    if (utf8Bytes lower)[start + 6]?.any (byteIs isBodyEndStop) then .ok (some start)
    else bodyEndFrom lower start
termination_by stop
decreasing_by
  have hle := findLast_le _h
  have hsize : utf8Size "</body".toList = 6 := rfl
  omega

/-- The last body end of a page, found in its small letters. -/
def findBodyEnd (html : Text) : Except Fault (Option Nat) :=
  bodyEndFrom (lowerAscii html) (utf8Size (lowerAscii html))

/-- A body end in small letters. -/
def IsLowerBodyEnd (s : Text) : Prop :=
  ∃ c rest, s = "</body".toList ++ c :: rest ∧ isBodyEndStop c = true

theorem isLowerBodyEnd_iff {s : Text} : IsLowerBodyEnd (lowerAscii s) ↔ IsBodyEnd s := by
  have hstop (c : Char) : isBodyEndStop c = true ↔ c ∈ ['>', ' ', '\t', '\n', '\r'] :=
    List.contains_iff_mem
  constructor
  · rintro ⟨c, rest, hs, hc⟩
    obtain ⟨tag, s', rfl, htag, hs'⟩ := List.map_eq_append_iff.mp hs
    obtain ⟨d, rest', rfl, hd, -⟩ := List.map_eq_cons_iff.mp hs'
    obtain ⟨hlower, halpha⟩ := toLower_of_isBodyEndStop hc
    obtain rfl := eq_of_toLower_eq (hd.trans hlower.symm) halpha
    exact ⟨tag, d, rest', rfl, htag, (hstop d).mp hc⟩
  · rintro ⟨tag, c, rest, rfl, htag, hc⟩
    have hc := (hstop c).mpr hc
    refine ⟨c, lowerAscii rest, ?_, hc⟩
    rw [← htag]
    simp [lowerAscii, (toLower_of_isBodyEndStop hc).1]

/-- In front of the first `n` characters this is the front of the last body end. -/
def IsLastFront (lower : Text) (n : Nat) : Option Text → Prop
  | none => ∀ front rest, lower = front ++ rest → front.length < n → ¬ IsLowerBodyEnd rest
  | some front => ∃ rest, lower = front ++ rest ∧ IsLowerBodyEnd rest ∧
    ∀ front' rest', lower = front' ++ rest' → front'.length < n → IsLowerBodyEnd rest' →
      front'.length ≤ front.length

/-- Further characters without a body end among them change nothing. -/
theorem IsLastFront.mono {lower : Text} {n n' : Nat} {found : Option Text}
    (h : IsLastFront lower n found)
    (hnone : ∀ front rest, lower = front ++ rest → front.length < n' → IsLowerBodyEnd rest →
      front.length < n) : IsLastFront lower n' found := by
  cases found with
  | none => exact fun front rest hs hlt hend => h front rest hs (hnone front rest hs hlt hend) hend
  | some front =>
    obtain ⟨rest, hs, hend, hmax⟩ := h
    refine ⟨rest, hs, hend, fun front' rest' hs' hlt hend' => ?_⟩
    exact hmax front' rest' hs' (hnone front' rest' hs' hlt hend') hend'

/-- Between the end of a text, or a place of the tag's name, and an earlier place of that name there
is room for all of the name. -/
theorem exists_of_tag_in_front {front rest front' rest' : Text}
    (hrest : rest = [] ∨ "</body".toList <+: rest) (h : front ++ rest = front' ++ rest')
    (hlt : front'.length < front.length) (htag : "</body".toList <+: rest') :
    ∃ between, front = front' ++ "</body".toList ++ between := by
  have hfront' : front' <+: front ++ rest := ⟨rest', h.symm⟩
  obtain ⟨m, rfl⟩ := List.prefix_of_prefix_length_le hfront' (List.prefix_append front rest)
    (Nat.le_of_lt hlt)
  rw [List.append_assoc, List.append_right_inj] at h
  rw [← h] at htag
  by_cases hle : "</body".toList.length ≤ m.length
  · obtain ⟨between, rfl⟩ := List.prefix_of_prefix_length_le htag (List.prefix_append m rest) hle
    exact ⟨between, (List.append_assoc _ _ _).symm⟩
  · -- the tag's name would begin in itself
    exfalso
    obtain ⟨n, hn⟩ := List.prefix_of_prefix_length_le (List.prefix_append m rest) htag
      (Nat.le_of_not_le hle)
    have hself : ∀ k < 6, 0 < k → ¬ "</body".toList.drop k <+: "</body".toList := by decide
    have hsix : m.length < 6 := Nat.lt_of_not_le hle
    have hpos : 0 < m.length := by
      rw [List.length_append] at hlt
      omega
    have hdrop : "</body".toList.drop m.length = n := by rw [← hn, List.drop_left]
    have hlength : n.length ≤ "</body".toList.length := by
      rw [← hdrop, List.length_drop]
      exact Nat.sub_le _ _
    rw [← hn, List.prefix_append_right_inj] at htag
    refine hself _ hsix hpos ?_
    rw [hdrop]
    rcases hrest with rfl | hprefix
    · rw [List.prefix_nil.mp htag]
      exact List.nil_prefix
    · exact List.prefix_of_prefix_length_le htag hprefix hlength

theorem findLast_append (front rest needle : Text) :
    findLast (front ++ rest) needle (utf8Size front)
      = .ok ((cutLast? needle front).map fun p => utf8Size p.1) := by
  rw [findLast, sliceTo_append]
  rfl

theorem bodyEndFrom_eq_bind (lower : Text) (stop : Nat) :
    bodyEndFrom lower stop = (do
      match ← findLast lower "</body".toList stop with
      | none => return none
      | some start =>
        if (utf8Bytes lower)[start + 6]?.any (byteIs isBodyEndStop) then return some start
        else bodyEndFrom lower start) := by
  rw [bodyEndFrom]
  split
  · next h => rw [h]; rfl
  · next h => rw [h]; rfl
  · next h => rw [h]; rfl

theorem bodyEndFrom_eq {lower front rest : Text} (h : lower = front ++ rest)
    (hrest : rest = [] ∨ "</body".toList <+: rest) :
    ∃ found, bodyEndFrom lower (utf8Size front) = .ok (found.map utf8Size) ∧
      IsLastFront lower front.length found := by
  have hin {front' rest' : Text} (hs : lower = front' ++ rest') (hlt : front'.length < front.length)
      (hend : IsLowerBodyEnd rest') : ∃ between, front = front' ++ "</body".toList ++ between := by
    obtain ⟨c, u, rfl, -⟩ := hend
    exact exists_of_tag_in_front hrest (h.symm.trans hs) hlt (List.prefix_append _ _)
  have hfind := findLast_append front rest "</body".toList
  rw [← h] at hfind
  cases hlast : cutLast? "</body".toList front with
  | none =>
    refine ⟨none, ?_, fun front' rest' hs hlt hend => ?_⟩
    · rw [bodyEndFrom_eq_bind, hfind, hlast]
      rfl
    · obtain ⟨between, hs'⟩ := hin hs hlt hend
      exact cutLast?_eq_none hlast ⟨front', between, hs'.symm⟩
  | some p =>
    obtain ⟨before, after⟩ := p
    obtain ⟨hfront, hbound⟩ := cutLast?_eq_some hlast
    have hlower : lower = before ++ ("</body".toList ++ (after ++ rest)) := by
      rw [h, hfront]
      simp only [List.append_assoc]
    have hleft : LeftAt lower (utf8Size before + 6) (after ++ rest) :=
      @LeftAt.append lower "</body".toList _ _ ⟨before, hlower, rfl⟩
    have hbyte : (utf8Bytes lower)[utf8Size before + 6]?.any (byteIs isBodyEndStop)
        = (after ++ rest).head?.any isBodyEndStop := by
      rw [hleft.getElem?_utf8Bytes, any_head?_utf8Bytes isAscii_isBodyEndStop]
    have hround : bodyEndFrom lower (utf8Size front)
        = if (after ++ rest).head?.any isBodyEndStop then .ok (some (utf8Size before))
          else bodyEndFrom lower (utf8Size before) := by
      rw [bodyEndFrom_eq_bind, hfind, hlast, ← hbyte]
      rfl
    have hle {front' rest' : Text} (hs : lower = front' ++ rest')
        (hlt : front'.length < front.length) (hend : IsLowerBodyEnd rest') :
        front'.length ≤ before.length := by
      obtain ⟨between, hs'⟩ := hin hs hlt hend
      exact hbound front' between hs'
    by_cases hstop : (after ++ rest).head?.any isBodyEndStop = true
    · refine ⟨some before, by rw [hround, if_pos hstop]; rfl, _, hlower, ?_,
        fun front' rest' => hle⟩
      cases hbehind : after ++ rest with
      | nil => rw [hbehind] at hstop; cases hstop
      | cons c u =>
        rw [hbehind] at hstop
        exact ⟨c, u, rfl, hstop⟩
    · have hshort : before.length < front.length := by
        rw [hfront]
        simp
      obtain ⟨found, hfound, hislast⟩ := bodyEndFrom_eq hlower (.inr (List.prefix_append _ _))
      refine ⟨found, by rw [hround, if_neg hstop, hfound], hislast.mono ?_⟩
      -- what stands at the place that has just been found is no body end
      intro front' rest' hs hlt hend
      refine Nat.lt_of_le_of_ne (hle hs hlt hend) fun heq => ?_
      obtain ⟨c, u, rfl, hc⟩ := hend
      obtain ⟨-, hrest'⟩ := List.append_inj (hs.symm.trans hlower) heq
      rw [← (List.append_right_inj _).mp hrest'] at hstop
      exact hstop hc
termination_by front.length

theorem utf8Size_lowerAscii (s : Text) : utf8Size (lowerAscii s) = utf8Size s := by
  rw [← length_utf8Bytes, ← length_utf8Bytes, utf8Bytes_lowerAscii, List.length_map]

/-- **The last body end is found where the page is cut.** -/
theorem findBodyEnd_eq (html : Text) :
    findBodyEnd html = .ok ((cutAtBodyEnd html).map fun p => utf8Size p.1) := by
  obtain ⟨found, hfound, hlast⟩ :=
    bodyEndFrom_eq (List.append_nil (lowerAscii html)).symm (.inl rfl)
  have hlength {front rest : Text} (h : html = front ++ rest) (hend : IsBodyEnd rest) :
      front.length < (lowerAscii html).length := by
    obtain ⟨tag, c, u, rfl, -⟩ := hend
    rw [lowerAscii_length, h]
    simp only [List.length_append, List.length_cons]
    omega
  have hlower {front rest : Text} (h : html = front ++ rest) :
      lowerAscii html = lowerAscii front ++ lowerAscii rest := by
    rw [h, lowerAscii, List.map_append]
    rfl
  rw [findBodyEnd, hfound]
  cases found with
  | none =>
    have hcut : cutAtBodyEnd html = none := by
      refine cutAtBodyEnd_eq_none_iff.mpr fun front rest h hend => ?_
      refine hlast _ _ (hlower h) ?_ (isLowerBodyEnd_iff.mpr hend)
      rw [lowerAscii_length front]
      exact hlength h hend
    rw [hcut]
    rfl
  | some front =>
    obtain ⟨rest, hs, hend, hmax⟩ := hlast
    obtain ⟨front₀, rest₀, h, rfl, rfl⟩ := List.map_eq_append_iff.mp hs
    have hcut : cutAtBodyEnd html = some (front₀, rest₀) := by
      refine cutAtBodyEnd_eq_some_iff.mpr ⟨h, isLowerBodyEnd_iff.mp hend, ?_⟩
      intro front' rest' h' hend'
      have hle := hmax _ _ (hlower h') (by
        rw [lowerAscii_length front']
        exact hlength h' hend') (isLowerBodyEnd_iff.mpr hend')
      simpa using hle
    rw [hcut]
    show Except.ok (some (utf8Size (lowerAscii front₀))) = _
    rw [utf8Size_lowerAscii]
    rfl

/-! ## The footer -/

/-- The page with the footer in it, and what there is to report. -/
def ensureFooter (f : UnsubscribeFooter) (html : Text) : Except Fault (Text × List LogEntry) := do
  if f.isPresentIn html then return (html, [])
  match ← findBodyEnd html with
  | none => return (html, [.footerSkipped])
  | some pos =>
    let front ← sliceTo html pos
    let rest ← sliceFrom html pos
    return (front ++ f.toHtml ++ rest, [.footerInserted pos])

theorem ensureFooter_eq (f : UnsubscribeFooter) (html : Text) :
    ensureFooter f html = .ok (f.ensure html) := by
  rw [ensureFooter, UnsubscribeFooter.ensure]
  split
  · rfl
  · rw [findBodyEnd_eq]
    cases hcut : cutAtBodyEnd html with
    | none => rfl
    | some p =>
      obtain ⟨front, rest⟩ := p
      have happend := cutAtBodyEnd_append hcut
      have hleft : LeftAt html (utf8Size front) rest := ⟨front, happend.symm, rfl⟩
      show (sliceTo html (utf8Size front) >>= _) = _
      rw [← happend, sliceTo_append, happend]
      show (sliceFrom html (utf8Size front) >>= _) = _
      rw [hleft.sliceFrom]
      rfl

end Mailout.Offset
