import Mailout.Proofs.MergeTag.Substitution
import Mailout.Proofs.Offset.Slice

/-!
# Merge tags by byte offset

The scan for merge tags keeps one offset, and replacing them a second one, up to which the text has
been written. The offsets of a tag's parts come from three kinds of computation: what the blanks
take up is the difference of two sizes, the name is measured on its bytes, and braces are found by
searching.

At every offset between characters the scan finds the next tag that is listed (`next_eq`), so it is
at such an offset again; and the two loops come to what reading the text as segments comes to
(`scan_eq`, `run_replaceTags`).
-/

namespace Mailout.Offset

open Text MergeTag

/-! ## One tag -/

theorem isAscii_isIdentifierPart : IsAscii isIdentifierPart := by
  intro c h
  have := toNat_of_isIdentifierPart h
  omega

theorem isAscii_isIdentifierStart : IsAscii isIdentifierStart :=
  fun c h => isAscii_isIdentifierPart c (isIdentifierPart_of_start h)

/-- The offset behind the blanks that begin at an offset. -/
def skipBlanks (s : Text) (pos : Nat) : Except Fault Nat := do
  let rest ← sliceFrom s pos
  return pos + (← minus (utf8Size rest) (utf8Size (trimStart rest)))

/-- The tag from an offset on whose name lies between two more, if its closing braces follow. -/
def closeTag (s : Text) (start nameStart nameStop : Nat) : Except Fault (Option Occurrence) := do
  let close ← skipBlanks s nameStop
  if !List.isPrefixOf ['}', '}'] (← sliceFrom s close) then return none
  return some ⟨start, close + 2, ← slice s nameStart nameStop⟩

/-- The tag whose opening braces begin at an offset. -/
def parseTag (s : Text) (start : Nat) : Except Fault (Option Occurrence) := do
  let nameStart ← skipBlanks s (start + 2)
  match (utf8Bytes s)[nameStart]? with
  | none => return none
  | some first =>
    if !byteIs isIdentifierStart first then return none
    let nameBytes := (utf8Bytes (← sliceFrom s nameStart)).takeWhile (byteIs isIdentifierPart)
    closeTag s start nameStart (nameStart + nameBytes.length)

theorem skipBlanks_eq {s rest : Text} {pos : Nat} (h : LeftAt s pos rest) :
    skipBlanks s pos = .ok (pos + utf8Size (rest.takeWhile isBlank)) ∧
      LeftAt s (pos + utf8Size (rest.takeWhile isBlank)) (trimStart rest) := by
  have hrest : rest = rest.takeWhile isBlank ++ trimStart rest :=
    (List.takeWhile_append_dropWhile (p := isBlank)).symm
  have hsize : utf8Size rest = utf8Size (rest.takeWhile isBlank) + utf8Size (trimStart rest) := by
    rw [← utf8Size_append, ← hrest]
  constructor
  · rw [skipBlanks, h.sliceFrom]
    show (minus (utf8Size rest) (utf8Size (trimStart rest)) >>= _) = _
    rw [minus_eq (by omega), hsize, Nat.add_sub_cancel]
    rfl
  · rw [hrest] at h
    exact h.append

/-- What has been read lies between two offsets. -/
theorem LeftAt.add_utf8Size_consumed {s whole rest : Text} {start stop : Nat}
    (h : LeftAt s start whole) (h' : LeftAt s stop rest) (hsuffix : rest <:+ whole) :
    start + utf8Size (consumed whole rest) = stop := by
  have hwhole := h.add_utf8Size
  have hrest := h'.add_utf8Size
  rw [← consumed_append hsuffix, utf8Size_append] at hwhole
  omega

theorem closeTag_eq {s whole name tail : Text} {start nameStart : Nat} (h : LeftAt s start whole)
    (hname : LeftAt s nameStart (name ++ tail)) (hsuffix : tail <:+ whole) :
    closeTag s start nameStart (nameStart + utf8Size name)
      = .ok ((after? ['}', '}'] (trimStart tail)).map fun rest =>
        ⟨start, start + utf8Size (consumed whole rest), name⟩) := by
  obtain ⟨hskip, hclose⟩ := skipBlanks_eq hname.append
  generalize nameStart + utf8Size name + utf8Size (tail.takeWhile isBlank) = close at hskip hclose
  rw [closeTag, hskip]
  show (sliceFrom s close >>= _) = _
  rw [hclose.sliceFrom]
  show (if (!List.isPrefixOf ['}', '}'] (trimStart tail)) = true then _
    else slice s nameStart _ >>= _) = _
  rw [hname.slice]
  cases hafter : after? ['}', '}'] (trimStart tail) with
  | none =>
    have hbraces : ['}', '}'].isPrefixOf (trimStart tail) = false := by
      refine Bool.eq_false_iff.mpr fun hprefix => ?_
      obtain ⟨rest, hrest⟩ := List.isPrefixOf_iff_prefix.mp hprefix
      rw [after?_eq_some_iff.mpr hrest.symm] at hafter
      cases hafter
    rw [hbraces]
    rfl
  | some rest =>
    have hrest : trimStart tail = ['}', '}'] ++ rest := after?_eq_some_iff.mp hafter
    have hdrop : trimStart tail <:+ tail := List.dropWhile_suffix isBlank
    rw [hrest] at hclose hdrop ⊢
    have hsize : start + utf8Size (consumed whole rest) = close + 2 :=
      h.add_utf8Size_consumed hclose.append
        (((List.suffix_append _ rest).trans hdrop).trans hsuffix)
    show Except.ok (some (⟨start, close + 2, name⟩ : Occurrence))
      = .ok (some ⟨start, start + utf8Size (consumed whole rest), name⟩)
    rw [hsize]

/-- A tag is read in two steps, up to its name and up to its closing braces. -/
theorem read?_braces (t : Text) :
    read? ('{' :: '{' :: t) = (readIdentifier (trimStart t)).bind fun (name, tail) =>
      (after? ['}', '}'] (trimStart tail)).map fun rest =>
        (⟨consumed ('{' :: '{' :: t) rest, name⟩, rest) := by
  rw [read?]
  cases readIdentifier (trimStart t) with
  | none => rfl
  | some p =>
    obtain ⟨name, tail⟩ := p
    rw [Option.bind_some]
    dsimp only
    split
    · next htrim => rw [htrim]; rfl
    · next hno =>
      cases hafter : after? ['}', '}'] (trimStart tail) with
      | none => rfl
      | some rest => exact absurd (after?_eq_some_iff.mp hafter) (hno rest)

/-- **Where braces open, the tag is found that is read there.** -/
theorem parseTag_eq {s t : Text} {start : Nat} (h : LeftAt s start ('{' :: '{' :: t)) :
    parseTag s start = .ok ((read? ('{' :: '{' :: t)).map fun (tag, _) =>
      ⟨start, start + utf8Size tag.source, tag.name⟩) := by
  have hinside : LeftAt s (start + 2) t := h.cons.cons
  obtain ⟨hskip, hname⟩ := skipBlanks_eq hinside
  have hdrop : trimStart t <:+ t := List.dropWhile_suffix isBlank
  generalize start + 2 + utf8Size (t.takeWhile isBlank) = nameStart at hskip hname
  rw [parseTag, hskip, read?_braces]
  show (match (utf8Bytes s)[nameStart]? with | none => _ | some first => _) = _
  rw [hname.getElem?_utf8Bytes]
  cases hv : trimStart t with
  | nil => rfl
  | cons c v =>
    rw [hv] at hname hdrop
    obtain ⟨first, hfirst, hbyte⟩ := head?_utf8Bytes isAscii_isIdentifierStart c v
    rw [hfirst]
    show (if (!byteIs isIdentifierStart first) = true then _ else sliceFrom s nameStart >>= _) = _
    rw [hbyte, hname.sliceFrom, readIdentifier]
    cases hc : isIdentifierStart c with
    | false => rfl
    | true =>
      have hparts : (c :: v).takeWhile isIdentifierPart = c :: v.takeWhile isIdentifierPart :=
        List.takeWhile_cons_of_pos (isIdentifierPart_of_start hc)
      have hwhole :
          c :: v = (c :: v.takeWhile isIdentifierPart) ++ v.dropWhile isIdentifierPart := by
        rw [List.cons_append, List.takeWhile_append_dropWhile]
      show closeTag s start nameStart (nameStart + ((utf8Bytes (c :: v)).takeWhile _).length) = _
      rw [takeWhile_utf8Bytes isAscii_isIdentifierPart, length_utf8Bytes, hparts, if_pos rfl]
      rw [hwhole] at hname hdrop
      rw [closeTag_eq h hname
        (((List.suffix_append _ _).trans hdrop).trans (List.suffix_append ['{', '{'] t))]
      show _ = Except.ok (Option.map _ (Option.map _ _))
      rw [Option.map_map]
      rfl

/-! ## The scan -/

theorem le_of_skipBlanks {s : Text} {pos pos' : Nat} (h : skipBlanks s pos = .ok pos') :
    pos ≤ pos' := by
  obtain ⟨rest, -, h⟩ := exists_of_bind_eq_ok h
  obtain ⟨blanks, -, h⟩ := exists_of_bind_eq_ok h
  obtain rfl := Except.ok.inj h
  exact Nat.le_add_right pos blanks

/-- A tag ends behind its opening braces. -/
theorem lt_stop_of_parseTag {s : Text} {start : Nat} {o : Occurrence}
    (h : parseTag s start = .ok (some o)) : start < o.stop := by
  obtain ⟨nameStart, hname, h⟩ := exists_of_bind_eq_ok h
  have hle := le_of_skipBlanks hname
  split at h
  · cases h
  · split at h
    · cases h
    · obtain ⟨rest, -, h⟩ := exists_of_bind_eq_ok h
      obtain ⟨close, hclose, h⟩ := exists_of_bind_eq_ok h
      have hle' := le_of_skipBlanks hclose
      obtain ⟨rest', -, h⟩ := exists_of_bind_eq_ok h
      split at h
      · cases h
      · obtain ⟨name, -, h⟩ := exists_of_bind_eq_ok h
        obtain rfl := Option.some.inj (Except.ok.inj h)
        show start < close + 2
        omega

/-- The next tag from an offset on, and the offset to go on at. -/
def next (s : Text) (pos : Nat) : Except Fault (Option Occurrence × Nat) :=
  match _h : find s ['{', '{'] pos with
  | .error fault => .error fault
  | .ok none => .ok (none, utf8Size s)
  | .ok (some start) =>
    match parseTag s start with
    | .error fault => .error fault
    | .ok (some o) => .ok (some o, o.stop)
    -- one byte on, so that the tag inside a longer brace run is found
    | .ok none => next s (start + 1)
termination_by utf8Size s - pos
decreasing_by
  have hle := find_braces_le _h
  omega

theorem next_eq_bind (s : Text) (pos : Nat) :
    next s pos = (do
      match ← find s ['{', '{'] pos with
      | none => return (none, utf8Size s)
      | some start =>
        match ← parseTag s start with
        | some o => return (some o, o.stop)
        | none => next s (start + 1)) := by
  rw [next]
  split
  · next h => rw [h]; rfl
  · next h => rw [h]; rfl
  · next start h =>
    rw [h]
    show _ = (parseTag s start >>= _)
    split
    · next h' => rw [h']; rfl
    · next h' => rw [h']; rfl
    · next h' => rw [h']; rfl

/-- Every tag takes the scan on. -/
theorem lt_of_next {s : Text} {pos pos' : Nat} {o : Occurrence}
    (h : next s pos = .ok (some o, pos')) : pos < pos' ∧ pos < utf8Size s := by
  fun_induction next s pos with
  | case1 pos fault hfind => cases h
  | case2 pos hfind => cases h
  | case3 pos start hfind fault hparse => cases h
  | case4 pos start hfind o' hparse =>
    obtain ⟨ho, rfl⟩ := Prod.mk.inj (Except.ok.inj h)
    have hle := find_braces_le hfind
    have hstop := lt_stop_of_parseTag hparse
    omega
  | case5 pos start hfind hparse ih =>
    have hle := find_braces_le hfind
    have hnext := ih h
    omega

section Scan

variable {s t rest : Text} {pos : Nat}

theorem next_nil (h : LeftAt s pos []) : next s pos = .ok (none, utf8Size s) := by
  rw [next_eq_bind, find_eq h]
  rfl

/-- Where no tag is read the scan goes on by a character. -/
theorem next_cons {c : Char} (h : LeftAt s pos (c :: rest)) (hread : read? (c :: rest) = none) :
    next s pos = next s (pos + c.utf8Size) := by
  cases hafter : after? ['{', '{'] (c :: rest) with
  | none => rw [next_eq_bind, find_cons h hafter, ← next_eq_bind]
  | some u =>
    have hcons : c :: rest = '{' :: '{' :: u := after?_eq_some_iff.mp hafter
    obtain ⟨rfl, rfl⟩ := List.cons.inj hcons
    rw [next_eq_bind, @find_self s ['{', '{'] u pos (by decide) h]
    show (parseTag s pos >>= _) = _
    have hparse := parseTag_eq h
    rw [hread] at hparse
    rw [hparse]
    rfl

/-- Where a tag is read it is found. -/
theorem next_tag {tag : MergeTag} (h : LeftAt s pos t) (hread : read? t = some (tag, rest)) :
    next s pos
      = .ok (some ⟨pos, pos + utf8Size tag.source, tag.name⟩, pos + utf8Size tag.source) := by
  obtain ⟨inside, hsource, -, -⟩ := (read?_append hread).2.exists_inside
  have ht : t = '{' :: '{' :: (inside ++ ['}', '}'] ++ rest) := by
    rw [← (read?_append hread).1, hsource]
    rfl
  rw [ht] at h hread
  have hparse := parseTag_eq h
  rw [hread] at hparse
  rw [next_eq_bind, find_self (by decide) h]
  show (parseTag s pos >>= _) = _
  rw [hparse]
  rfl

end Scan

/-- **At every offset between characters the scan finds the next tag that is listed**, and it goes
on at such an offset. -/
theorem next_eq {s t : Text} {pos : Nat} (h : LeftAt s pos t) :
    ∃ stop rest, next s pos = .ok ((occurrencesFrom pos (segments t)).head?, stop) ∧
      LeftAt s stop rest := by
  fun_induction segments t generalizing pos with
  | case1 => exact ⟨utf8Size s, [], next_nil h, s, (List.append_nil s).symm, rfl⟩
  | case2 c t tag rest hread ih =>
    refine ⟨pos + utf8Size tag.source, rest, next_tag h hread, LeftAt.append ?_⟩
    rw [(read?_append hread).1]
    exact h
  | case3 c t hread ih =>
    obtain ⟨stop, rest, hnext, hstop⟩ := ih h.cons
    exact ⟨stop, rest, (next_cons h hread).trans hnext, hstop⟩

/-- The tags from an offset on. -/
def scanFrom (s : Text) (pos : Nat) : Except Fault (List Occurrence) :=
  match _h : next s pos with
  | .error fault => .error fault
  | .ok (none, _) => .ok []
  | .ok (some o, pos') => do return o :: (← scanFrom s pos')
termination_by utf8Size s - pos
decreasing_by
  have hlt := lt_of_next _h
  omega

/-- The tags of a text. -/
def scan (s : Text) : Except Fault (List Occurrence) := scanFrom s 0

theorem scanFrom_eq_bind (s : Text) (pos : Nat) :
    scanFrom s pos = (do
      match ← next s pos with
      | (none, _) => return []
      | (some o, pos') => return o :: (← scanFrom s pos')) := by
  rw [scanFrom]
  split
  · next h => rw [h]; rfl
  · next h => rw [h]; rfl
  · next h => rw [h]; rfl

theorem scanFrom_eq {s t : Text} {pos : Nat} (h : LeftAt s pos t) :
    scanFrom s pos = .ok (occurrencesFrom pos (segments t)) := by
  fun_induction segments t generalizing pos with
  | case1 =>
    rw [scanFrom_eq_bind, next_nil h]
    rfl
  | case2 c t tag rest hread ih =>
    have hrest := h
    rw [← (read?_append hread).1] at hrest
    rw [scanFrom_eq_bind, next_tag h hread]
    show (scanFrom s _ >>= _) = _
    rw [ih hrest.append]
    rfl
  | case3 c t hread ih =>
    rw [scanFrom_eq_bind, next_cons h hread, ← scanFrom_eq_bind, ih h.cons]
    rfl

/-- **The scan comes to the tags that are listed.** -/
theorem scan_eq (s : Text) : scan s = .ok (occurrences s) := scanFrom_eq (leftAt_zero s)

/-! ## Replacing the tags -/

section Replace

variable {m : Type → Type} [Monad m]

/-- The text with its tags replaced, of which `output` has been written, and that up to the offset
`last`. -/
def replaceTagsFrom (resolve : Occurrence → m (Option Text)) (s : Text) (last pos : Nat)
    (output : Text) : ExceptT Fault m Text :=
  match _h : next s pos with
  | .error fault => throw fault
  | .ok (none, _) => do
    let rest ← ExceptT.mk (pure (sliceFrom s last))
    return output ++ rest
  | .ok (some o, pos') => do
    match ← resolve o with
    | none => replaceTagsFrom resolve s last pos' output
    | some replacement =>
      let gap ← ExceptT.mk (pure (slice s last o.start))
      replaceTagsFrom resolve s o.stop pos' (output ++ gap ++ replacement)
termination_by utf8Size s - pos
decreasing_by
  all_goals
    have hlt := lt_of_next _h
    omega

/-- The text with each of its tags replaced. -/
def replaceTags (resolve : Occurrence → m (Option Text)) (s : Text) : ExceptT Fault m Text :=
  replaceTagsFrom resolve s 0 0 []

variable (resolve : Occurrence → m (Option Text))

theorem replaceTagsFrom_none {s : Text} {last pos pos' : Nat} {output : Text}
    (h : next s pos = .ok (none, pos')) :
    replaceTagsFrom resolve s last pos output = (do
      let rest ← ExceptT.mk (pure (sliceFrom s last))
      return output ++ rest) := by
  rw [replaceTagsFrom]
  split
  · next h' => rw [h] at h'; cases h'
  · rfl
  · next h' => rw [h] at h'; cases h'

theorem replaceTagsFrom_some {s : Text} {last pos pos' : Nat} {output : Text} {o : Occurrence}
    (h : next s pos = .ok (some o, pos')) :
    replaceTagsFrom resolve s last pos output = (do
      match ← resolve o with
      | none => replaceTagsFrom resolve s last pos' output
      | some replacement =>
        let gap ← ExceptT.mk (pure (slice s last o.start))
        replaceTagsFrom resolve s o.stop pos' (output ++ gap ++ replacement)) := by
  rw [replaceTagsFrom]
  split
  · next h' => rw [h] at h'; cases h'
  · next h' => rw [h] at h'; cases h'
  · next h' =>
    rw [h] at h'
    obtain ⟨ho, rfl⟩ := Prod.mk.inj (Except.ok.inj h')
    obtain rfl := Option.some.inj ho
    rfl

/-- The loop knows of its offset only what the scan finds from there. -/
theorem replaceTagsFrom_congr {s : Text} {last pos pos' : Nat} {output : Text}
    {found : Option Occurrence × Nat} (h : next s pos = .ok found) (h' : next s pos' = .ok found) :
    replaceTagsFrom resolve s last pos output = replaceTagsFrom resolve s last pos' output := by
  obtain ⟨o, stop⟩ := found
  cases o with
  | none => rw [replaceTagsFrom_none resolve h, replaceTagsFrom_none resolve h']
  | some o => rw [replaceTagsFrom_some resolve h, replaceTagsFrom_some resolve h']

variable [LawfulMonad m]

theorem run_replaceTagsFrom {s gap t : Text} {last : Nat} (h : LeftAt s last (gap ++ t))
    (output : Text) :
    (replaceTagsFrom resolve s last (last + utf8Size gap) output).run
      = (fun text => .ok (output ++ text)) <$>
        replaceFromM resolve (gap ++ t) (last + utf8Size gap) t := by
  fun_induction segments t generalizing gap output last with
  | case1 =>
    rw [replaceTagsFrom_none resolve (next_nil h.append), h.sliceFrom, replaceFromM, map_pure]
    exact pure_bind (Except.ok (gap ++ [])) _
  | case2 c t tag rest hread ih =>
    have hsource := (read?_append hread).1
    rw [replaceTagsFrom_some resolve (next_tag h.append hread), replaceFromM_tag resolve hread,
      map_bind, ExceptT.run_bind, ExceptT.run_liftM, bind_map_left]
    refine bind_congr fun answer => ?_
    cases answer with
    | none =>
      have hrest : LeftAt s last (gap ++ tag.source ++ rest) := by
        rw [List.append_assoc, hsource]
        exact h
      have hloop := ih hrest output
      rw [utf8Size_append, ← Nat.add_assoc, List.append_assoc, hsource] at hloop
      exact hloop
    | some replacement =>
      have hstop : LeftAt s (last + utf8Size gap + utf8Size tag.source) ([] ++ rest) := by
        have htag := h.append
        rw [← hsource] at htag
        exact htag.append
      have hloop := ih hstop (output ++ gap ++ replacement)
      rw [utf8Size_nil, Nat.add_zero, List.nil_append] at hloop
      rw [consumed_of_append, map_bind]
      show (ExceptT.mk (pure (slice s last (last + utf8Size gap))) >>= _).run = _
      rw [h.slice]
      show ((pure gap : ExceptT Fault m Text) >>= _).run = _
      rw [pure_bind]
      show (replaceTagsFrom resolve s _ _ _).run = _
      rw [hloop]
      simp
  | case3 c t hread ih =>
    have hrest : LeftAt s last (gap ++ [c] ++ t) := by simpa using h
    have hsize : last + utf8Size (gap ++ [c]) = last + utf8Size gap + c.utf8Size := by
      simp [Nat.add_assoc]
    have hloop := ih hrest output
    rw [hsize, List.append_assoc] at hloop
    obtain ⟨stop, rest, hnext, -⟩ := next_eq h.append.cons
    rw [replaceTagsFrom_congr resolve ((next_cons h.append hread).trans hnext) hnext,
      replaceFromM_literal resolve hread]
    exact hloop

/-- **Replacing the tags comes to what replacing them part by part comes to**, with the same
questions asked. -/
theorem run_replaceTags (s : Text) :
    (replaceTags resolve s).run = Except.ok <$> replaceM resolve s :=
  @run_replaceTagsFrom m _ resolve _ s [] s 0 (leftAt_zero s) []

end Replace

end Mailout.Offset
