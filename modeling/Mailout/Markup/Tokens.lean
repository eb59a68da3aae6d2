import Mailout.Markup.Comment
import Mailout.Markup.Context

/-!
# Reading markup

`tokens` reads a text as tokens from left to right.

## Main statements

* `readToken_source` — a token and what is left make up the text;
* `tokens_source` — the tokens make up the text;
* no token is empty (`readToken_length`), which is why reading ends.
-/

namespace Mailout.Markup

open Text

/-- A character that a tag's name goes on with. -/
def isTagNamePart (c : Char) : Bool := !(isMarkupSpace c || c == '/' || c == '>')

/-- The token of a tag whose name begins the text `s`; `whole` begins with the tag's `<`. A tag that
the text ends in is no tag. -/
def readTag (make : Text → Text → TagBody → Token) (whole s : Text) : Token × Text :=
  match readTagBody (s.dropWhile isTagNamePart) with
  | some (body, rest) => (make (consumed whole rest) (s.takeWhile isTagNamePart) body, rest)
  | none => (.scrap whole, [])

/-- The token of a start tag. -/
def makeStartTag (source name : Text) (body : TagBody) : Token := .startTag source ⟨name, body⟩

/-- The token of an end tag, whose attributes mean nothing. -/
def makeEndTag (source name : Text) (_ : TagBody) : Token := .endTag source name

/-- The token of a loose comment whose content begins the text `s`. -/
def readLooseComment (whole s : Text) : Token × Text :=
  let (content, rest) := readLoose s
  (.comment (consumed whole rest) content, rest)

/-- The token that starts with `<`, which is in front of the text. -/
def readMarkup (foreign : Bool) (s : Text) : Token × Text :=
  match s with
  | '!' :: t => readDeclaration foreign t
  | '?' :: _ => readLooseComment ('<' :: s) s
  | '/' :: '>' :: t => (.scrap ['<', '/', '>'], t)
  | '/' :: c :: t =>
    if c.isAlpha then readTag makeEndTag ('<' :: s) (c :: t)
    else readLooseComment ('<' :: s) (c :: t)
  | c :: _ => if c.isAlpha then readTag makeStartTag ('<' :: s) s else (.char '<', s)
  | [] => (.char '<', s)

/-- The token that starts with `<` where only the end tag of this name is markup. -/
def readOwnEnd (name s : Text) : Token × Text :=
  match s with
  | '/' :: t =>
    if startsTagName name t then readTag makeEndTag ('<' :: s) t else (.char '<', s)
  | _ => (.char '<', s)

/-- The token at the start of the text `c :: s`, and what is left. -/
def readToken (ctx : Context) (c : Char) (s : Text) : Token × Text :=
  if c == '<' then
    match ctx.mode with
    | .data => readMarkup ctx.isForeign s
    | .textOnly name => readOwnEnd name s
    | .script st => if st.part = .nested then (.char c, s) else readOwnEnd "script".toList s
    | .plain => (.char c, s)
  else (.char c, s)

/-! ## A token and what is left make up the text -/

theorem readTag_source {make : Text → Text → TagBody → Token} {whole s : Text}
    (hmake : ∀ source name body, (make source name body).source = source) (hs : s <:+ whole) :
    (readTag make whole s).1.source ++ (readTag make whole s).2 = whole := by
  unfold readTag
  split
  · next body rest h =>
    simp only [hmake]
    exact consumed_append
      ((readTagBody_suffix h).1.trans ((List.dropWhile_suffix _).trans hs))
  · simp [Token.source]

theorem readLooseComment_source {whole s : Text} (hs : s <:+ whole) :
    (readLooseComment whole s).1.source ++ (readLooseComment whole s).2 = whole :=
  consumed_append ((readLoose_suffix s).trans hs)

theorem readMarkup_source (foreign : Bool) (s : Text) :
    (readMarkup foreign s).1.source ++ (readMarkup foreign s).2 = '<' :: s := by
  have hstart source name body : (makeStartTag source name body).source = source := rfl
  have hend source name body : (makeEndTag source name body).source = source := rfl
  unfold readMarkup
  split
  · exact (readDeclaration_suffix _ _).2
  · exact readLooseComment_source (List.suffix_cons _ _)
  · rfl
  · split
    · exact readTag_source hend ⟨['<', '/'], rfl⟩
    · exact readLooseComment_source ⟨['<', '/'], rfl⟩
  · split
    · exact readTag_source hstart (List.suffix_cons _ _)
    · rfl
  · rfl

theorem readOwnEnd_source (name s : Text) :
    (readOwnEnd name s).1.source ++ (readOwnEnd name s).2 = '<' :: s := by
  have hend source name body : (makeEndTag source name body).source = source := rfl
  unfold readOwnEnd
  split
  · split
    · exact readTag_source hend ⟨['<', '/'], rfl⟩
    · rfl
  · rfl

/-- A token and what is left make up the text. -/
theorem readToken_source (ctx : Context) (c : Char) (s : Text) :
    (readToken ctx c s).1.source ++ (readToken ctx c s).2 = c :: s := by
  unfold readToken
  split
  · next h =>
    obtain rfl : c = '<' := by simpa using h
    split
    · exact readMarkup_source _ _
    · exact readOwnEnd_source _ _
    · split
      · rfl
      · exact readOwnEnd_source _ _
    · rfl
  · rfl

/-! ## No token is empty -/

theorem readTag_length {make : Text → Text → TagBody → Token} {whole s : Text}
    (hs : s.length < whole.length) : (readTag make whole s).2.length < whole.length := by
  unfold readTag
  split
  · next body rest h =>
    have h1 := (readTagBody_suffix h).2
    have h2 := (List.dropWhile_suffix (l := s) isTagNamePart).length_le
    simp only
    omega
  · simp only [List.length_nil]; omega

theorem readLooseComment_length {whole s : Text} (hs : s.length < whole.length) :
    (readLooseComment whole s).2.length < whole.length := by
  have := (readLoose_suffix s).length_le
  simp only [readLooseComment]
  omega

/-- What is left after a token is shorter than the text. -/
theorem readToken_length (ctx : Context) (c : Char) (s : Text) :
    (readToken ctx c s).2.length < (c :: s).length := by
  have ownEnd (name : Text) : (readOwnEnd name s).2.length < (c :: s).length := by
    unfold readOwnEnd
    split
    · split
      · exact readTag_length (by simp only [List.length_cons]; omega)
      · simp
    · simp
  unfold readToken
  split
  · split
    · unfold readMarkup
      split
      · next t =>
        have := (readDeclaration_suffix ctx.isForeign t).1.length_le
        simp only [List.length_cons]
        omega
      · exact readLooseComment_length (by simp)
      · simp; omega
      · split
        · exact readTag_length (by simp)
        · exact readLooseComment_length (by simp)
      · split
        · exact readTag_length (by simp)
        · simp
      · simp
    · exact ownEnd _
    · split
      · simp
      · exact ownEnd _
    · simp
  · simp

/-! ## All tokens -/

/-- The tokens of a text that is read in a context. -/
def tokensFrom (ctx : Context) : Text → List Token
  | [] => []
  | c :: s =>
    match _h : readToken ctx c s with
    | (token, rest) => token :: tokensFrom (ctx.after token rest) rest
termination_by s => s.length
decreasing_by
  have := readToken_length ctx c s
  rw [_h] at this
  exact this

/-- The tokens of a text. -/
def tokens (s : Text) : List Token := tokensFrom {} s

theorem tokensFrom_source (ctx : Context) (s : Text) :
    (tokensFrom ctx s).flatMap Token.source = s := by
  fun_induction tokensFrom ctx s with
  | case1 => rfl
  | case2 ctx c s token rest h ih =>
    have := readToken_source ctx c s
    rw [h] at this
    simp [ih, this]

/-- The tokens make up the text. -/
theorem tokens_source (s : Text) : (tokens s).flatMap Token.source = s := tokensFrom_source {} s

end Mailout.Markup
