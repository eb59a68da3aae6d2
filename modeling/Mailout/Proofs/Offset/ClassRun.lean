import Mailout.Proofs.Markup.ClassRun
import Mailout.Proofs.Offset.Slice

/-!
# Class runs by byte offset

The runs of a comment are found by their names: from a place of `class=` on the text in front of it
is looked at, then the text behind it. So offsets are computed forwards and backwards, and what is
looked at in front may have been passed already.

## Why no run is passed

The loop goes on behind a name that is not that of a run, or behind a closing quote. `Passed` says
of the text in front of it that from no space in it a run is read, back to the last closing quote. A
run whose name is found from there has its spaces in that text too (`Passed.read_eq_other`).

## Main statements

* `readNamed_eq` — what a name belongs to, by the text on its two sides;
* `cleanRunsFrom_literal`, `cleanRunsFrom_run` — the loop goes on behind a literal character, and
  behind a run that it cleans;
* `cleanRuns_eq` — what the loop comes to.
-/

namespace Mailout.Offset

open Text ClassRun

/-! ## The loop -/

/-- What a name of a class attribute belongs to. -/
inductive Named where
  /-- No class run. -/
  | other
  /-- A class run without its closing quote. -/
  | unclosed
  /-- A class run whose attribute begins at one offset and whose value ends at another. -/
  | run (attrStart valueStop : Nat)

/-- Whether a character opens and closes a value. -/
def isQuote (c : Char) : Bool := c == '"' || c == '\''

theorem isQuote_iff {c : Char} : isQuote c = true ↔ c = '"' ∨ c = '\'' := by
  rw [isQuote, Bool.or_eq_true, beq_iff_eq, beq_iff_eq]

theorem utf8Size_of_isQuote {c : Char} (h : isQuote c = true) : c.utf8Size = 1 := by
  rcases isQuote_iff.mp h with rfl | rfl <;> rfl

/-- Where the attribute begins whose name has `class=` at an offset. -/
def attributeStart (text : Text) (nameAt : Nat) : Except Fault Nat := do
  if "css-".toList.isSuffixOf (← sliceTo text nameAt) then minus nameAt 4 else return nameAt

/-- What the name belongs to that has `class=` at an offset. -/
def readNamed (text : Text) (nameAt : Nat) : Except Fault Named := do
  let attrStart ← attributeStart text nameAt
  if !(← sliceTo text attrStart).getLast?.any isMarkupSpace then return .other
  match (← sliceFrom text (nameAt + 6)).head? with
  | none => return .other
  | some quote =>
    if isQuote quote then
      match ← find text [quote] (nameAt + 6 + 1) with
      | none => return .unclosed
      | some valueStop => return .run attrStart valueStop
    else return .other

theorem le_of_readNamed {text : Text} {nameAt attrStart valueStop : Nat}
    (h : readNamed text nameAt = .ok (.run attrStart valueStop)) : nameAt + 7 ≤ valueStop := by
  obtain ⟨start, -, h⟩ := exists_of_bind_eq_ok h
  obtain ⟨front, -, h⟩ := exists_of_bind_eq_ok h
  split at h
  · cases h
  · obtain ⟨value, -, h⟩ := exists_of_bind_eq_ok h
    split at h
    · cases h
    · next quote _ =>
      split at h
      · obtain ⟨found, hfind, h⟩ := exists_of_bind_eq_ok h
        cases found with
        | none => cases h
        | some stop =>
          obtain ⟨-, rfl⟩ := Named.run.inj (Except.ok.inj h)
          exact (find_le hfind).1
      · cases h

/-- The text without the spaces it ends with. -/
def trimSpaceEnd (s : Text) : Text := (s.reverse.dropWhile isMarkupSpace).reverse

/-- What is written for the text from `last` on up to the end of a run's value, and the offset up to
which that is; nothing for a run that is not to be edited. Where no token is left, the run is left
out with its spaces. -/
def editRun (text : Text) (last attrStart valueStart valueStop : Nat) :
    Except Fault (Option (Text × Nat)) := do
  match ClassList.clean? (← slice text valueStart valueStop) with
  | none => return none
  | some [] =>
    let before := trimSpaceEnd (← sliceTo text attrStart)
    return some (← slice text last (max (utf8Size before) last), valueStop + 1)
  | some kept => return some ((← slice text last valueStart) ++ kept, valueStop)

/-- The text from `last` on behind what has been written, if anything has been changed. -/
def finishRuns (text : Text) (last : Nat) (changed : Bool) (output : Text) :
    Except Fault (Option Text) := do
  if changed then return some (output ++ (← sliceFrom text last)) else return none

/-- The text without editor tokens in its class runs, of which `output` has been written, and that
up to the offset `last`; there is no result if nothing has been changed in the end. -/
def cleanRunsFrom (text : Text) (last pos : Nat) (changed : Bool) (output : Text) :
    Except Fault (Option Text) :=
  match _hname : find text "class=".toList pos with
  | .error fault => .error fault
  | .ok none => finishRuns text last changed output
  | .ok (some nameAt) =>
    match _hread : readNamed text nameAt with
    | .error fault => .error fault
    | .ok .other => cleanRunsFrom text last (nameAt + 6) changed output
    | .ok .unclosed => finishRuns text last changed output
    | .ok (.run attrStart valueStop) => do
      match ← editRun text last attrStart (nameAt + 6 + 1) valueStop with
      | none => cleanRunsFrom text last (valueStop + 1) changed output
      | some (piece, last') => cleanRunsFrom text last' (valueStop + 1) true (output ++ piece)
termination_by utf8Size text - pos
decreasing_by
  all_goals
    have hle := find_le _hname
    have hsize : utf8Size "class=".toList = 6 := rfl
    first
      | omega
      | have hstop := le_of_readNamed _hread
        omega

/-- The text without editor tokens in its class runs, or no result if no run is to be edited. -/
def cleanRuns (text : Text) : Except Fault (Option Text) := cleanRunsFrom text 0 0 false []

theorem cleanRunsFrom_eq_bind (text : Text) (last pos : Nat) (changed : Bool) (output : Text) :
    cleanRunsFrom text last pos changed output = (do
      match ← find text "class=".toList pos with
      | none => finishRuns text last changed output
      | some nameAt =>
        match ← readNamed text nameAt with
        | .other => cleanRunsFrom text last (nameAt + 6) changed output
        | .unclosed => finishRuns text last changed output
        | .run attrStart valueStop =>
          match ← editRun text last attrStart (nameAt + 6 + 1) valueStop with
          | none => cleanRunsFrom text last (valueStop + 1) changed output
          | some (piece, last') =>
            cleanRunsFrom text last' (valueStop + 1) true (output ++ piece)) := by
  rw [cleanRunsFrom]
  split
  · next hname => rw [hname]; rfl
  · next hname => rw [hname]; rfl
  · next nameAt hname =>
    rw [hname]
    show _ = (readNamed text nameAt >>= _)
    split
    · next hread => rw [hread]; rfl
    · next hread => rw [hread]; rfl
    · next hread => rw [hread]; rfl
    · next hread => rw [hread]; rfl

/-! ## A name and what it belongs to -/

/-- What may stand between a run's spaces and `class=`. -/
def IsNameStart (x : Text) : Prop := x = [] ∨ x = "css-".toList

/-- What a name belongs to, by the text in front of the attribute, that in front of the name's last
part and the text behind the name. -/
def namedOf (attrFront nameFront : Text) : Text → Named
  | [] => .other
  | quote :: rest =>
    if attrFront.getLast?.any isMarkupSpace && isQuote quote then
      match cut? [quote] rest with
      | none => .unclosed
      | some (value, _) =>
        .run (utf8Size attrFront) (utf8Size nameFront + 7 + utf8Size value)
    else .other

theorem attributeStart_eq {text front x u : Text} (hx : IsNameStart x)
    (hcss : x = [] → ¬ "css-".toList <:+ front) (h : text = front ++ x ++ u) :
    attributeStart text (utf8Size (front ++ x)) = .ok (utf8Size front) := by
  rw [attributeStart, h, sliceTo_append]
  show (if "css-".toList.isSuffixOf (front ++ x) = true then _ else _) = _
  rcases hx with rfl | rfl
  · rw [if_neg fun hsuffix => hcss rfl (by simpa using List.isSuffixOf_iff_suffix.mp hsuffix),
      List.append_nil]
    rfl
  · have hsize : utf8Size (front ++ "css-".toList) = utf8Size front + 4 := utf8Size_append _ _
    rw [if_pos (List.isSuffixOf_iff_suffix.mpr (List.suffix_append _ _)), hsize,
      minus_eq (Nat.le_add_left _ _), Nat.add_sub_cancel]

theorem readNamed_eq {text front x u : Text} (hx : IsNameStart x)
    (hcss : x = [] → ¬ "css-".toList <:+ front) (h : text = front ++ x ++ ("class=".toList ++ u)) :
    readNamed text (utf8Size (front ++ x)) = .ok (namedOf front (front ++ x) u) := by
  have hbehind : LeftAt text (utf8Size (front ++ x) + 6) u :=
    @LeftAt.append text "class=".toList u _ ⟨front ++ x, h, rfl⟩
  have hfront : sliceTo text (utf8Size front) = .ok front := by
    rw [h, List.append_assoc, sliceTo_append]
  rw [readNamed, attributeStart_eq hx hcss h]
  show (sliceTo text (utf8Size front) >>= _) = _
  rw [hfront]
  show (if (!front.getLast?.any isMarkupSpace) = true then _
    else sliceFrom text (utf8Size (front ++ x) + 6) >>= _) = _
  rw [hbehind.sliceFrom]
  cases hspace : front.getLast?.any isMarkupSpace with
  | false =>
    cases u with
    | nil => rfl
    | cons quote rest =>
      rw [namedOf, hspace]
      rfl
  | true =>
    cases u with
    | nil => rfl
    | cons quote rest =>
      show (if isQuote quote = true then find text [quote] _ >>= _ else _) = _
      rw [namedOf, hspace, Bool.true_and]
      cases hquote : isQuote quote with
      | false => rfl
      | true =>
        have hone : quote.utf8Size = 1 := utf8Size_of_isQuote hquote
        have hvalue : LeftAt text (utf8Size (front ++ x) + 6 + 1) rest := hone ▸ hbehind.cons
        rw [if_pos rfl, if_pos rfl, find_eq hvalue]
        cases cut? [quote] rest with
        | none => rfl
        | some p => rfl

/-! ## Text that has been passed -/

/-- From no space of the text in front of `rest` a run is read, back to the last closing quote. -/
def Passed (front rest : Text) : Prop :=
  ∃ closed inside, front = closed ++ inside ∧ (∀ c ∈ closed.getLast?, isQuote c = true) ∧
    ∀ a sp b, inside = a ++ sp :: b → isMarkupSpace sp = true → read (sp :: (b ++ rest)) = .other

theorem passed_nil (rest : Text) : Passed [] rest := by
  refine ⟨[], [], rfl, ?_, fun a sp b h => ?_⟩
  · intro c hc
    cases hc
  · exact absurd h.symm (List.append_ne_nil_of_right_ne_nil a (List.cons_ne_nil sp b))

namespace Passed

variable {front rest : Text}

/-- Behind a closing quote. -/
theorem of_quote {quote : Char} (h : isQuote quote = true) (front rest : Text) :
    Passed (front ++ [quote]) rest := by
  refine ⟨front ++ [quote], [], (List.append_nil _).symm, ?_, fun a sp b h => ?_⟩
  · intro c hc
    rw [List.getLast?_concat] at hc
    exact Option.some.inj hc ▸ h
  · exact absurd h.symm (List.append_ne_nil_of_right_ne_nil a (List.cons_ne_nil sp b))

/-- A literal character is passed. -/
theorem concat {c : Char} (h : Passed front (c :: rest))
    (hread : isMarkupSpace c = true → read (c :: rest) = .other) : Passed (front ++ [c]) rest := by
  obtain ⟨closed, inside, rfl, hclosed, hinside⟩ := h
  refine ⟨closed, inside ++ [c], List.append_assoc _ _ _, hclosed, fun a sp b hs hsp => ?_⟩
  rcases List.eq_nil_or_concat b with rfl | ⟨b, d, rfl⟩
  · obtain ⟨-, hc⟩ := List.append_inj' hs rfl
    obtain rfl := (List.cons.inj hc).1
    exact hread hsp
  · have hs' : inside ++ [c] = (a ++ sp :: b) ++ [d] := by simpa using hs
    obtain ⟨hin, hc⟩ := List.append_inj' hs' rfl
    obtain rfl := (List.cons.inj hc).1
    have hother := hinside a sp b hin hsp
    simpa using hother

/-- A space in front of a name that has been found is not followed by a run. -/
theorem read_eq_other {a x : Text} {sp : Char} (h : Passed (a ++ sp :: x) rest)
    (hsp : isMarkupSpace sp = true) (hx : ∀ c ∈ x, isQuote c = false) :
    read (sp :: (x ++ rest)) = .other := by
  obtain ⟨closed, inside, hs, hclosed, hinside⟩ := h
  rcases List.append_eq_append_iff.mp hs with ⟨b, rfl, hb⟩ | ⟨b, rfl, hb⟩
  · cases b with
    | nil => exact hinside [] sp x hb.symm hsp
    | cons d b =>
      -- the last character of what is closed would be the space or stand behind it
      exfalso
      have hlast : (d :: b).getLast (List.cons_ne_nil d b) ∈ sp :: x :=
        hb ▸ List.mem_append_left inside (List.getLast_mem _)
      have hquote := hclosed ((d :: b).getLast (List.cons_ne_nil d b)) (by
        rw [List.getLast?_append, List.getLast?_eq_some_getLast (List.cons_ne_nil d b)]
        rfl)
      rcases List.mem_cons.mp hlast with heq | hmem
      · rw [heq] at hquote
        rcases isQuote_iff.mp hquote with rfl | rfl <;> cases hsp
      · rw [hx _ hmem] at hquote
        cases hquote
  · exact hinside b sp x hb hsp

end Passed

/-! ## Runs by their names -/

section Named

variable {space x u rest : Text} {quote : Char}

/-- The text of a run up to its opening quote, and what follows. -/
theorem read_named (hspace : space.all isMarkupSpace = true) (hx : IsNameStart x)
    (hquote : isQuote quote = true) (rest : Text) :
    read (space ++ (x ++ ("class=".toList ++ quote :: rest)))
      = match cut? [quote] rest with
        | some (value, rest') => .run ⟨space, x ++ "class=".toList, quote, value⟩ rest'
        | none => .unclosed := by
  have hname : readName (x ++ ("class=".toList ++ quote :: rest))
        = some (x ++ "class=".toList, quote :: rest) ∧
      ∀ c ∈ (x ++ ("class=".toList ++ quote :: rest)).head?, isMarkupSpace c = false := by
    rcases hx with rfl | rfl
    · exact ⟨rfl, by simp [isMarkupSpace]⟩
    · exact ⟨rfl, by simp [isMarkupSpace]⟩
  rw [ClassRun.read, dropWhile_append_eq hspace hname.2, hname.1]
  show (if isQuote quote = true then _ else _) = _
  rw [if_pos hquote]
  cases cut? [quote] rest with
  | none => rfl
  | some found =>
    show ClassRun.Start.run ⟨List.takeWhile isMarkupSpace _, _, _, _⟩ _ = _
    rw [takeWhile_append_eq hspace hname.2]

theorem exists_of_read {c : Char} {s : Text} (hc : isMarkupSpace c = true)
    (h : read (c :: s) ≠ .other) :
    ∃ space x quote rest, c :: s = space ++ (x ++ ("class=".toList ++ quote :: rest)) ∧
      space ≠ [] ∧ space.all isMarkupSpace = true ∧ IsNameStart x ∧ isQuote quote = true := by
  unfold ClassRun.read at h
  split at h
  · next name quote rest hname =>
    split at h
    · next hquote =>
      have hwhole := List.takeWhile_append_dropWhile (p := isMarkupSpace) (l := c :: s)
      rw [← readName_append hname] at hwhole
      have hne : (c :: s).takeWhile isMarkupSpace ≠ [] := by
        rw [List.takeWhile_cons_of_pos hc]
        exact List.cons_ne_nil _ _
      rcases name_of_readName hname with rfl | rfl
      · exact ⟨_, [], quote, rest, hwhole.symm, hne, List.all_takeWhile, .inl rfl, hquote⟩
      · exact ⟨_, "css-".toList, quote, rest, hwhole.symm, hne, List.all_takeWhile, .inr rfl,
          hquote⟩
    · exact absurd rfl h
  · exact absurd rfl h

/-- The name is found from its spaces on. -/
theorem find_named {text front : Text} (hspace : space.all isMarkupSpace = true)
    (hx : IsNameStart x) (h : text = front ++ (space ++ (x ++ ("class=".toList ++ u)))) :
    find text "class=".toList (utf8Size front) = .ok (some (utf8Size (front ++ space ++ x))) := by
  have hfront : LeftAt text (utf8Size front) (space ++ (x ++ ("class=".toList ++ u))) :=
    ⟨front, h, rfl⟩
  have hname : LeftAt text (utf8Size front + utf8Size space + utf8Size x) ("class=".toList ++ u) :=
    hfront.append.append
  have hspaces : 'c' ∉ space := by
    intro hc
    cases List.all_eq_true.mp hspace 'c' hc
  have hfind := find_self (by decide) hname
  rw [utf8Size_append, utf8Size_append, ← hfind]
  rcases hx with rfl | rfl
  · exact find_append_of_not_mem hfront hspaces
  · -- the first letter of the name is that of `class=`, and no other one is
    have hcss : LeftAt text (utf8Size front + utf8Size space)
        ('c' :: ("ss-".toList ++ ("class=".toList ++ u))) := hfront.append
    refine (find_append_of_not_mem hfront hspaces).trans ?_
    refine (find_cons hcss rfl).trans ?_
    exact find_append_of_not_mem hcss.cons (by decide)

theorem trimSpaceEnd_append {front : Text} (hspace : space.all isMarkupSpace = true)
    (hfront : ∀ c ∈ front.getLast?, isMarkupSpace c = false) :
    trimSpaceEnd (front ++ space) = front := by
  have hall : space.reverse.all isMarkupSpace = true := by rw [List.all_reverse, hspace]
  have hhead : ∀ c ∈ front.reverse.head?, isMarkupSpace c = false := by
    rw [List.head?_reverse]
    exact hfront
  rw [trimSpaceEnd, List.reverse_append, dropWhile_append_eq hall hhead, List.reverse_reverse]

/-- A run's text up to its value. -/
def opening (space x : Text) (quote : Char) : Text := space ++ (x ++ ("class=".toList ++ [quote]))

theorem utf8Size_append_opening (front space x : Text) (hquote : isQuote quote = true) :
    utf8Size (front ++ opening space x quote) = utf8Size (front ++ space ++ x) + 6 + 1 := by
  have hclass : utf8Size "class=".toList = 6 := rfl
  simp only [opening, utf8Size_append, utf8Size_cons, utf8Size_nil, utf8Size_of_isQuote hquote,
    hclass]
  omega

/-- A name behind spaces and in front of a quote is that of a run. -/
theorem readNamed_run {text front : Text}
    (h : text = front ++ (space ++ (x ++ ("class=".toList ++ quote :: rest))))
    (hne : space ≠ []) (hspace : space.all isMarkupSpace = true) (hx : IsNameStart x)
    (hquote : isQuote quote = true) :
    readNamed text (utf8Size (front ++ space ++ x))
      = .ok (match cut? [quote] rest with
        | none => .unclosed
        | some (value, _) => .run (utf8Size (front ++ space))
          (utf8Size (front ++ opening space x quote ++ value))) := by
  have hlast : (front ++ space).getLast? = some (space.getLast hne) := by
    rw [List.getLast?_append, List.getLast?_eq_some_getLast hne]
    rfl
  have hlastSpace : isMarkupSpace (space.getLast hne) = true :=
    List.all_eq_true.mp hspace _ (List.getLast_mem hne)
  have hcss : ¬ "css-".toList <:+ front ++ space := by
    rintro ⟨a, ha⟩
    rw [← ha, List.getLast?_append] at hlast
    rw [← Option.some.inj hlast] at hlastSpace
    cases hlastSpace
  have hattr : text = front ++ space ++ x ++ ("class=".toList ++ quote :: rest) := by
    rw [h]
    simp only [List.append_assoc]
  have hstop (value : Text) : utf8Size (front ++ opening space x quote ++ value)
      = utf8Size (front ++ space ++ x) + 7 + utf8Size value := by
    rw [utf8Size_append, utf8Size_append_opening front space x hquote]
  simp only [hstop]
  rw [readNamed_eq hx (fun _ => hcss) hattr, namedOf, hlast]
  show Except.ok (if (isMarkupSpace (space.getLast hne) && isQuote quote) = true then _ else _) = _
  rw [hlastSpace, hquote]
  rfl

/-- What is written for a run, and up to where. -/
theorem editRun_eq {text written gap value u : Text}
    (h : text = written ++ gap ++ (opening space x quote ++ (value ++ u)))
    (hspace : space.all isMarkupSpace = true)
    (hend : ∀ c ∈ (written ++ gap).getLast?, isMarkupSpace c = false) :
    editRun text (utf8Size written) (utf8Size (written ++ gap ++ space))
        (utf8Size (written ++ gap ++ opening space x quote))
        (utf8Size (written ++ gap ++ (opening space x quote ++ value)))
      = .ok (match ClassList.clean? value with
        | none => none
        | some [] =>
          some (gap, utf8Size (written ++ gap ++ (opening space x quote ++ value)) + 1)
        | some kept => some (gap ++ opening space x quote ++ kept,
          utf8Size (written ++ gap ++ (opening space x quote ++ value)))) := by
  have hvalue : slice text (utf8Size (written ++ gap ++ opening space x quote))
      (utf8Size (written ++ gap ++ (opening space x quote ++ value))) = .ok value :=
    slice_eq_ok_iff.mpr ⟨written ++ gap ++ opening space x quote, u, by rw [h]; simp, rfl, by simp⟩
  rw [editRun, hvalue]
  show (match ClassList.clean? value with | none => _ | some [] => _ | some kept => _) = _
  cases ClassList.clean? value with
  | none => rfl
  | some kept =>
    cases kept with
    | nil =>
      have hbefore :
          sliceTo text (utf8Size (written ++ gap ++ space)) = .ok (written ++ gap ++ space) := by
        rw [h, opening, List.append_assoc space, ← List.append_assoc (written ++ gap),
          sliceTo_append]
      have hgap : slice text (utf8Size written) (utf8Size (written ++ gap)) = .ok gap :=
        slice_eq_ok_iff.mpr ⟨written, _, h, rfl, rfl⟩
      have hmax : max (utf8Size (written ++ gap)) (utf8Size written) = utf8Size (written ++ gap) :=
        Nat.max_eq_left (by simp)
      show (sliceTo text (utf8Size (written ++ gap ++ space)) >>= _) = _
      rw [hbefore]
      show (slice text (utf8Size written)
        (max (utf8Size (trimSpaceEnd (written ++ gap ++ space))) (utf8Size written)) >>= _) = _
      rw [trimSpaceEnd_append hspace hend, hmax, hgap]
      rfl
    | cons c kept =>
      have hgap : slice text (utf8Size written) (utf8Size (written ++ gap ++ opening space x quote))
          = .ok (gap ++ opening space x quote) :=
        slice_eq_ok_iff.mpr ⟨written, value ++ u, by rw [h]; simp, rfl, by simp⟩
      show (slice text (utf8Size written) (utf8Size (written ++ gap ++ opening space x quote))
        >>= _) = _
      rw [hgap]
      rfl

/-- **One round of the loop** in front of a run's spaces. -/
theorem cleanRunsFrom_named {text written gap : Text}
    (h : text = written ++ gap ++ (space ++ (x ++ ("class=".toList ++ quote :: rest))))
    (hne : space ≠ []) (hspace : space.all isMarkupSpace = true) (hx : IsNameStart x)
    (hquote : isQuote quote = true)
    (hend : ∀ c ∈ (written ++ gap).getLast?, isMarkupSpace c = false) (changed : Bool)
    (output : Text) :
    cleanRunsFrom text (utf8Size written) (utf8Size (written ++ gap)) changed output
      = match cut? [quote] rest with
        | none => finishRuns text (utf8Size written) changed output
        | some (value, _) =>
          match ClassList.clean? value with
          | none => cleanRunsFrom text (utf8Size written)
            (utf8Size (written ++ gap ++ (opening space x quote ++ value)) + 1) changed output
          | some [] => cleanRunsFrom text
            (utf8Size (written ++ gap ++ (opening space x quote ++ value)) + 1)
            (utf8Size (written ++ gap ++ (opening space x quote ++ value)) + 1) true (output ++ gap)
          | some kept => cleanRunsFrom text
            (utf8Size (written ++ gap ++ (opening space x quote ++ value)))
            (utf8Size (written ++ gap ++ (opening space x quote ++ value)) + 1) true
            (output ++ (gap ++ opening space x quote ++ kept)) := by
  rw [cleanRunsFrom_eq_bind, find_named hspace hx h]
  show (readNamed text (utf8Size (written ++ gap ++ space ++ x)) >>= _) = _
  rw [readNamed_run h hne hspace hx hquote]
  cases hcut : cut? [quote] rest with
  | none => rfl
  | some p =>
    obtain ⟨value, rest'⟩ := p
    have hvalue :
        text = written ++ gap ++ (opening space x quote ++ (value ++ quote :: rest')) := by
      rw [h, (cut?_singleton_iff.mp hcut).1]
      simp [opening]
    show (editRun text (utf8Size written) (utf8Size (written ++ gap ++ space))
      (utf8Size (written ++ gap ++ space ++ x) + 6 + 1)
      (utf8Size (written ++ gap ++ opening space x quote ++ value)) >>= _) = _
    rw [← utf8Size_append_opening _ space x hquote, List.append_assoc _ _ value,
      editRun_eq hvalue hspace hend]
    show _ = (match ClassList.clean? value with | none => _ | some [] => _ | some kept => _)
    split <;> rfl

theorem read_named_ne_other (space : Text) (hspace : space.all isMarkupSpace = true)
    (hx : IsNameStart x) (hquote : isQuote quote = true) (rest : Text) :
    read (space ++ (x ++ ("class=".toList ++ quote :: rest))) ≠ .other := by
  rw [read_named hspace hx hquote]
  split <;> simp

end Named

/-! ## The loop and the parts -/

theorem finishRuns_eq {text written rest : Text} (h : text = written ++ rest) (changed : Bool)
    (output : Text) :
    finishRuns text (utf8Size written) changed output
      = .ok (if changed then some (output ++ rest) else none) := by
  have hlast : LeftAt text (utf8Size written) rest := ⟨written, h, rfl⟩
  rw [finishRuns, hlast.sliceFrom]
  cases changed <;> rfl

/-- The loop knows of its offset only where the next name is. -/
theorem cleanRunsFrom_congr {text : Text} {pos pos' : Nat}
    (h : find text "class=".toList pos = find text "class=".toList pos') (last : Nat)
    (changed : Bool) (output : Text) :
    cleanRunsFrom text last pos changed output = cleanRunsFrom text last pos' changed output := by
  rw [cleanRunsFrom_eq_bind, h, ← cleanRunsFrom_eq_bind]

/-- A name that is not that of a run is passed. -/
theorem cleanRunsFrom_passed {text front u : Text} (h : text = front ++ ("class=".toList ++ u))
    (hpassed : Passed front ("class=".toList ++ u)) (last : Nat) (changed : Bool) (output : Text) :
    cleanRunsFrom text last (utf8Size front) changed output
      = cleanRunsFrom text last (utf8Size front + 6) changed output := by
  obtain ⟨a, x, rfl, hx, hcss⟩ : ∃ a x, front = a ++ x ∧ IsNameStart x ∧
      (x = [] → ¬ "css-".toList <:+ a) := by
    by_cases hsuffix : "css-".toList <:+ front
    · obtain ⟨a, rfl⟩ := hsuffix
      exact ⟨a, "css-".toList, rfl, .inr rfl, fun hnil => absurd hnil (by decide)⟩
    · exact ⟨front, [], (List.append_nil front).symm, .inl rfl, fun _ => hsuffix⟩
  have hother : namedOf a (a ++ x) u = .other := by
    cases u with
    | nil => rfl
    | cons quote rest =>
      rw [namedOf, if_neg]
      intro hrun
      rw [Bool.and_eq_true, Option.any_eq_true] at hrun
      obtain ⟨⟨sp, hlast, hsp⟩, hquote⟩ := hrun
      obtain ⟨a, rfl⟩ := List.getLast?_eq_some_iff.mp hlast
      have hxquote : ∀ c ∈ x, isQuote c = false := by
        rcases hx with rfl | rfl
        · exact fun c hc => absurd hc List.not_mem_nil
        · simp [isQuote]
      rw [List.append_assoc, List.singleton_append] at hpassed
      have hread := hpassed.read_eq_other hsp hxquote
      exact read_named_ne_other [sp] (by simpa using hsp) hx hquote rest hread
  have hleft : LeftAt text (utf8Size (a ++ x)) ("class=".toList ++ u) := ⟨_, h, rfl⟩
  rw [cleanRunsFrom_eq_bind, find_self (by decide) hleft]
  show (readNamed text (utf8Size (a ++ x)) >>= _) = _
  rw [readNamed_eq hx hcss h, hother]
  rfl

/-- What the loop comes to for these parts behind what has been written. -/
def resultOf (changed : Bool) (output : Text) (ps : List Part) : Option Text :=
  if changed || ps.any Part.isDirty then some (output ++ ps.flatMap Part.cleaned) else none

theorem resultOf_cons (changed : Bool) (output : Text) (p : Part) (ps : List Part) :
    resultOf changed output (p :: ps)
      = resultOf (changed || p.isDirty) (output ++ p.cleaned) ps := by
  simp only [resultOf, List.any_cons, List.flatMap_cons, Bool.or_assoc, List.append_assoc]

theorem resultOf_literal_cons (changed : Bool) (output : Text) (c : Char) (ps : List Part) :
    resultOf changed output (.literal c :: ps) = resultOf changed (output ++ [c]) ps := by
  rw [resultOf_cons]
  show resultOf (changed || false) _ _ = _
  rw [Bool.or_false]
  rfl

theorem resultOf_literal (changed : Bool) (output s : Text) :
    resultOf changed output (s.map .literal) = if changed then some (output ++ s) else none := by
  have hany : (s.map Part.literal).any Part.isDirty = false := by
    rw [List.any_map]
    exact List.any_eq_false.mpr fun c _ => by simp [Part.isDirty]
  rw [resultOf, hany, Bool.or_false, flatMap_cleaned_literal]

/-- Text that has been passed does not end in a space in front of a run. -/
theorem Passed.not_space {front space x rest : Text} {quote : Char}
    (h : Passed front (space ++ (x ++ ("class=".toList ++ quote :: rest))))
    (hspace : space.all isMarkupSpace = true) (hx : IsNameStart x) (hquote : isQuote quote = true) :
    ∀ c ∈ front.getLast?, isMarkupSpace c = false := by
  intro c hc
  refine Bool.eq_false_iff.mpr fun hsp => ?_
  obtain ⟨a, rfl⟩ := List.getLast?_eq_some_iff.mp hc
  have hread := h.read_eq_other (x := []) hsp (by simp)
  exact read_named_ne_other (c :: space) (by simp [hsp, hspace]) hx hquote rest hread

/-- **A literal character is passed by.** -/
theorem cleanRunsFrom_literal {text written gap s : Text} {c : Char}
    (h : text = written ++ gap ++ c :: s) (hpassed : Passed (written ++ gap) (c :: s))
    (changed : Bool) (output : Text) :
    cleanRunsFrom text (utf8Size written) (utf8Size (written ++ gap)) changed output
      = cleanRunsFrom text (utf8Size written) (utf8Size (written ++ (gap ++ [c]))) changed
        output := by
  have hleft : LeftAt text (utf8Size (written ++ gap)) (c :: s) := ⟨_, h, rfl⟩
  have hsize : utf8Size (written ++ (gap ++ [c])) = utf8Size (written ++ gap) + c.utf8Size := by
    rw [← List.append_assoc]
    exact utf8Size_append _ [c]
  rw [hsize]
  cases hafter : after? "class=".toList (c :: s) with
  | none => exact cleanRunsFrom_congr (find_cons hleft hafter) _ _ _
  | some u =>
    have hname : c :: s = "class=".toList ++ u := after?_eq_some_iff.mp hafter
    obtain ⟨rfl, hs⟩ := List.cons.inj hname
    have hbehind : LeftAt text (utf8Size (written ++ gap) + 1) ("lass=".toList ++ u) := by
      rw [hs] at hleft
      exact hleft.cons
    rw [hname] at h hpassed
    rw [cleanRunsFrom_passed h hpassed]
    exact (cleanRunsFrom_congr (find_append_of_not_mem hbehind (by decide)) _ _ _).symm

/-- **A run is cleaned**, and the loop goes on behind its closing quote. -/
theorem cleanRunsFrom_run {text written gap space x value rest : Text} {quote : Char}
    (hne : space ≠ []) (hspace : space.all isMarkupSpace = true) (hx : IsNameStart x)
    (hquote : isQuote quote = true) (hvalue : quote ∉ value)
    (h : text
      = written ++ gap ++ (space ++ (x ++ ("class=".toList ++ quote :: (value ++ quote :: rest)))))
    (hend : ∀ c ∈ (written ++ gap).getLast?, isMarkupSpace c = false) (changed : Bool)
    (output : Text) :
    let r : ClassRun := ⟨space, x ++ "class=".toList, quote, value⟩
    ∃ written' gap' output', text = written' ++ gap' ++ rest ∧ Passed (written' ++ gap') rest ∧
      output' ++ gap' = output ++ gap ++ r.cleaned ∧
      cleanRunsFrom text (utf8Size written) (utf8Size (written ++ gap)) changed output
        = cleanRunsFrom text (utf8Size written') (utf8Size (written' ++ gap'))
          (changed || r.isDirty) output' := by
  intro r
  have hcut : cut? [quote] (value ++ quote :: rest) = some (value, rest) :=
    cut?_singleton_iff.mpr ⟨rfl, hvalue⟩
  have hwith (v : Text) : r.withValue v = opening space x quote ++ v ++ [quote] := by
    simp [r, ClassRun.withValue, opening]
  have hstop : utf8Size (written ++ gap ++ (opening space x quote ++ value)) + 1
      = utf8Size (written ++ gap ++ (opening space x quote ++ value) ++ [quote]) := by
    rw [utf8Size_append _ [quote], utf8Size_cons, utf8Size_of_isQuote hquote, utf8Size_nil]
  have htext : text = written ++ gap ++ (opening space x quote ++ value) ++ [quote] ++ rest := by
    rw [h]
    simp [opening]
  have hclosed := Passed.of_quote hquote (written ++ gap ++ (opening space x quote ++ value)) rest
  rw [cleanRunsFrom_named h hne hspace hx hquote hend, hcut]
  dsimp only
  rw [hstop, ClassRun.cleaned, ClassRun.isDirty, show r.value = value from rfl]
  cases ClassList.clean? value with
  | none =>
    refine ⟨written, gap ++ (opening space x quote ++ value ++ [quote]), output, ?_, ?_, ?_, ?_⟩
    · simpa using htext
    · simpa using hclosed
    · show _ = output ++ gap ++ r.withValue value
      rw [hwith, List.append_assoc output]
    · show _ = cleanRunsFrom text _ _ (changed || false) output
      rw [Bool.or_false]
      simp only [List.append_assoc]
  | some kept =>
    cases kept with
    | nil =>
      refine ⟨written ++ gap ++ (opening space x quote ++ value) ++ [quote], [], output ++ gap,
        ?_, ?_, rfl, ?_⟩
      · exact htext.trans (congrArg (· ++ rest) (List.append_nil _).symm)
      · rw [List.append_nil]
        exact hclosed
      · show _ = cleanRunsFrom text _ _ (changed || true) _
        rw [Bool.or_true, List.append_nil]
    | cons d kept =>
      refine ⟨_, [quote], output ++ (gap ++ opening space x quote ++ d :: kept), htext, hclosed,
        ?_, ?_⟩
      · show _ = output ++ gap ++ r.withValue (d :: kept)
        rw [hwith]
        simp only [List.append_assoc]
      · show _ = cleanRunsFrom text _ _ (changed || true) _
        rw [Bool.or_true]

/-- **The loop comes to the parts of what is left**, cleaned, behind what has been written. -/
theorem cleanRunsFrom_eq {text written gap t : Text} (h : text = written ++ gap ++ t)
    (hpassed : Passed (written ++ gap) t) (changed : Bool) (output : Text) :
    cleanRunsFrom text (utf8Size written) (utf8Size (written ++ gap)) changed output
      = .ok (resultOf changed (output ++ gap) (parts t)) := by
  fun_induction parts t generalizing written gap changed output with
  | case1 =>
    have hleft : LeftAt text (utf8Size (written ++ gap)) [] := ⟨_, h, rfl⟩
    rw [cleanRunsFrom_eq_bind, find_eq hleft]
    show finishRuns text (utf8Size written) changed output = _
    rw [finishRuns_eq (h.trans (List.append_nil _)), ← List.map_nil, resultOf_literal,
      List.append_nil]
  | case2 c s hspace hread ih =>
    have hnext : text = written ++ (gap ++ [c]) ++ s := by simpa using h
    have hpassed' : Passed (written ++ (gap ++ [c])) s := by
      rw [← List.append_assoc]
      exact hpassed.concat fun _ => hread
    rw [cleanRunsFrom_literal h hpassed, ih hnext hpassed', resultOf_literal_cons,
      List.append_assoc]
  | case3 c s hspace hread =>
    obtain ⟨space, x, quote, rest, ht, hne, hall, hx, hquote⟩ :=
      exists_of_read hspace (by rw [hread]; simp)
    rw [ht] at h hpassed hread ⊢
    rw [read_named hall hx hquote] at hread
    split at hread
    · cases hread
    · next hcut =>
      rw [cleanRunsFrom_named h hne hall hx hquote (hpassed.not_space hall hx hquote), hcut]
      show finishRuns text (utf8Size written) changed output = _
      rw [finishRuns_eq (h.trans (List.append_assoc _ _ _)), resultOf_literal, List.append_assoc]
  | case4 c s hspace r rest hread ih =>
    obtain ⟨space, x, quote, rest', ht, hne, hall, hx, hquote⟩ :=
      exists_of_read hspace (by rw [hread]; simp)
    rw [ht] at h hpassed hread
    rw [read_named hall hx hquote] at hread
    split at hread
    · next value rest₀ hcut =>
      obtain ⟨rfl, rfl⟩ := Start.run.inj hread
      obtain ⟨hrest, hvalue⟩ := cut?_singleton_iff.mp hcut
      rw [hrest] at h
      obtain ⟨written', gap', output', hnext, hpassed', houtput, hstep⟩ :=
        cleanRunsFrom_run hne hall hx hquote hvalue h (hpassed.not_space hall hx hquote) changed
          output
      rw [hstep, ih hnext hpassed', houtput, resultOf_cons]
      rfl
    · cases hread
  | case5 c s hspace ih =>
    have hnext : text = written ++ (gap ++ [c]) ++ s := by simpa using h
    have hpassed' : Passed (written ++ (gap ++ [c])) s := by
      rw [← List.append_assoc]
      exact hpassed.concat fun hc => absurd hc hspace
    rw [cleanRunsFrom_literal h hpassed, ih hnext hpassed', resultOf_literal_cons,
      List.append_assoc]

/-- **The loop comes to what cleaning part by part comes to.** -/
theorem cleanRuns_eq (text : Text) : cleanRuns text = .ok (clean? text) :=
  @cleanRunsFrom_eq text [] [] text rfl (passed_nil text) false []

end Mailout.Offset
