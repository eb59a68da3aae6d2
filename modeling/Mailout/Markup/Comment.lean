import Mailout.Markup.Token

/-!
# Comments and declarations

Three forms share the opening `<!`: comments between `<!--` and `-->`, document types, and sections
of plain text. Every other `<!`, `<?` and `</` that opens no tag is a comment that goes on to the
next `>` and is called loose here.

## Rules

* A comment ends at `-->` or `--!>`; right after its opening also at `>` or `->`.
* A comment that the text ends in has what is left for its content, without a closing sequence that
  has begun.
-/

namespace Mailout.Markup

open Text

/-- The text before and after the first closing sequence of a comment. -/
def cutComment : Text → Option (Text × Text)
  | '-' :: '-' :: '>' :: s => some ([], s)
  | '-' :: '-' :: '!' :: '>' :: s => some ([], s)
  | c :: s => (cutComment s).map fun (content, rest) => (c :: content, rest)
  | [] => none

/-- Text without a closing sequence of a comment that it breaks off in. -/
def dropBegunClosing (s : Text) : Text :=
  match s.reverse with
  | '!' :: '-' :: '-' :: r => r.reverse
  | '-' :: '-' :: r => r.reverse
  | '-' :: r => r.reverse
  | _ => s

/-- The content of a comment whose opening is in front of the text, and the text after it. -/
def readComment : Text → Text × Text
  | '>' :: s => ([], s)
  | '-' :: '>' :: s => ([], s)
  | s => (cutComment s).getD (dropBegunClosing s, [])

/-- The text up to the next `>` without it, and the text after that. -/
def readLoose (s : Text) : Text × Text := (cut? ['>'] s).getD (s, [])

/-- The token that starts with `<!`, which is in front of the text. Plain-text sections exist in
foreign content only. -/
def readDeclaration (foreign : Bool) (s : Text) : Token × Text :=
  let whole := '<' :: '!' :: s
  let token (make : Text → Token) (rest : Text) := (make (consumed whole rest), rest)
  let loose := let (content, rest) := readLoose s; token (.comment · content) rest
  match after? ['-', '-'] s with
  | some t => let (content, rest) := readComment t; token (.comment · content) rest
  | none =>
    match afterLetters? "doctype".toList s with
    | some t => token .doctype (readLoose t).2
    | none =>
      match after? "[CDATA[".toList s with
      | some t =>
        if foreign then token .cdata (((cut? [']', ']', '>'] t).map (·.2)).getD []) else loose
      | none => loose

/-! ## What is left is the end of the text -/

theorem cutComment_suffix {s content rest : Text} (h : cutComment s = some (content, rest)) :
    rest <:+ s := by
  fun_induction cutComment s generalizing content with
  | case1 s =>
    simp only [Option.some.injEq, Prod.mk.injEq] at h
    exact h.2 ▸ ⟨['-', '-', '>'], rfl⟩
  | case2 s =>
    simp only [Option.some.injEq, Prod.mk.injEq] at h
    exact h.2 ▸ ⟨['-', '-', '!', '>'], rfl⟩
  | case3 c s _ _ ih =>
    simp only [Option.map_eq_some_iff, Prod.mk.injEq, Prod.exists] at h
    obtain ⟨content', rest', hc, -, rfl⟩ := h
    exact (ih hc).trans (List.suffix_cons _ _)
  | case4 => simp at h

theorem readComment_suffix (s : Text) : (readComment s).2 <:+ s := by
  unfold readComment
  split
  · exact List.suffix_cons _ _
  · exact ⟨['-', '>'], rfl⟩
  · cases h : cutComment s with
    | none => exact List.nil_suffix
    | some p => exact cutComment_suffix h

theorem readLoose_suffix (s : Text) : (readLoose s).2 <:+ s := by
  unfold readLoose
  cases h : cut? ['>'] s with
  | none => exact List.nil_suffix
  | some p => exact ⟨p.1 ++ ['>'], (cut?_eq_some h).symm⟩

theorem readDeclaration_suffix (foreign : Bool) (s : Text) :
    (readDeclaration foreign s).2 <:+ s ∧
      (readDeclaration foreign s).1.source ++ (readDeclaration foreign s).2 = '<' :: '!' :: s := by
  have lift {rest : Text} (h : rest <:+ s) :
      consumed ('<' :: '!' :: s) rest ++ rest = '<' :: '!' :: s :=
    consumed_append (h.trans ⟨['<', '!'], rfl⟩)
  unfold readDeclaration
  simp only
  have loose : (readLoose s).2 <:+ s ∧
      consumed ('<' :: '!' :: s) (readLoose s).2 ++ (readLoose s).2 = '<' :: '!' :: s :=
    ⟨readLoose_suffix s, lift (readLoose_suffix s)⟩
  split
  · next t h =>
    have h1 : (readComment t).2 <:+ s :=
      (readComment_suffix t).trans ⟨['-', '-'], (after?_eq_some_iff.mp h).symm⟩
    exact ⟨h1, lift h1⟩
  · split
    · next t h =>
      have h1 : (readLoose t).2 <:+ s := (readLoose_suffix t).trans (afterLetters?_suffix h)
      exact ⟨h1, lift h1⟩
    · split
      · next t h =>
        have ht : t <:+ s := ⟨_, (after?_eq_some_iff.mp h).symm⟩
        split
        · have h1 : ((cut? [']', ']', '>'] t).map (·.2)).getD [] <:+ s := by
            cases hc : cut? [']', ']', '>'] t with
            | none => exact List.nil_suffix
            | some p =>
              exact List.IsSuffix.trans ⟨p.1 ++ [']', ']', '>'], (cut?_eq_some hc).symm⟩ ht
          exact ⟨h1, lift h1⟩
        · exact loose
      · exact loose

end Mailout.Markup
