import Mailout.Yaml.Node
import Mailout.Yaml.Tokens

/-!
# Documents

The nodes of a document are read from its tokens. What cannot be read ends the tree, not the reading
of what stands before it: a reader of nodes gives what there is, and either the rest or why there is
none.

## Anchors

An anchor has a number, the number of different names that anchors had before it. An alias refers to
the number that its name stands for at that place. A name that is given twice stands for its new
number from then on, and of two nodes with one number the later counts.

## Termination

Every item of a collection takes a token, and ends the collection if it does not. A node without
tokens of its own is not read by `readNode` but by `readSlot`, which is one above it in the measure.
-/

namespace Mailout.Yaml

/-- Why a document ends before its time. -/
inductive Fault where
  | malformed (e : SyntaxError)
  | unknownAnchor (mark : Mark)
  deriving DecidableEq, Repr

/-- What is known where nodes are read. -/
structure Scope where
  /-- What the handles of tags stand for. -/
  handles : List (Text × Text)
  /-- Why there are no more tokens. -/
  stop : SyntaxError

/-- The numbers that the names of anchors stand for. -/
abbrev Anchors := List (Text × Nat)

/-- The anchors after another one. -/
def Anchors.add (anchors : Anchors) (name : Text) : Anchors :=
  (name, anchors.length) :: anchors.filter (·.1 != name)

/-- What is left to read. -/
structure Feed where
  tokens : List Token
  anchors : Anchors := []

/-- What could be read, and the rest or why there is none. -/
abbrev Partial (α : Type) := α × Except Fault Feed

namespace Partial

/-- Nothing, for want of tokens. -/
def stopped (s : Scope) : Partial Node := (.missing, .error (.malformed s.stop))

/-- Nothing, for the tokens are not as they should be. -/
def refused (context : String) (start : Mark) (problem : String) (here : Mark) : Partial Node :=
  (.missing, .error (.malformed ⟨problem, here, some (context, start), 0⟩))

/-- Something made of what could be read. -/
def mapValue (f : α → β) (p : Partial α) : Partial β := (f p.1, p.2)

/-- Reads the value after a key, if fewer tokens than `length` are left for it. -/
def withValue (key : Partial Node) (length : Nat)
    (value : (g : Feed) → g.tokens.length < length → Partial Node) : Partial (Node × Node) :=
  match key with
  | (k, .error e) => ((k, .missing), .error e)
  | (k, .ok g) =>
    if h : g.tokens.length < length then (value g h).mapValue (k, ·) else ((k, .missing), .ok g)

/-- Reads more after an item, if fewer tokens than `length` are left for it. -/
def withRest (item : Partial α) (length : Nat)
    (rest : (g : Feed) → g.tokens.length < length → Partial (List α)) : Partial (List α) :=
  match item with
  | (a, .error e) => ([a], .error e)
  | (a, .ok g) =>
    if h : g.tokens.length < length then (rest g h).mapValue (a :: ·) else ([a], .ok g)

end Partial

/-! ## Properties -/

/-- The properties at the start of some tokens: an anchor and a tag in any order. -/
structure TakenProperties where
  anchor? : Option Text := none
  tag? : Option (TagName × Mark) := none
  rest : List Token

/-- Takes the properties at the start of the tokens. -/
def takeProperties : List Token → TakenProperties
  | ⟨.anchor name, _⟩ :: ⟨.tag tag, m⟩ :: ts => ⟨some name, some (tag, m), ts⟩
  | ⟨.tag tag, m⟩ :: ⟨.anchor name, _⟩ :: ts => ⟨some name, some (tag, m), ts⟩
  | ⟨.anchor name, _⟩ :: ts => ⟨some name, none, ts⟩
  | ⟨.tag tag, m⟩ :: ts => ⟨none, some (tag, m), ts⟩
  | ts => ⟨none, none, ts⟩

theorem takeProperties_length (ts : List Token) : (takeProperties ts).rest.length ≤ ts.length := by
  unfold takeProperties
  split <;> simp <;> omega

/-- The tag that a written tag stands for, if its handle is known. -/
def TagName.resolve? (handles : List (Text × Text)) (t : TagName) : Option Text :=
  if t.handle.isEmpty then some t.suffix
  else (handles.lookup t.handle).map (· ++ t.suffix)

/-! ## Nodes -/

/-- Where a node stands. -/
inductive Place where
  /-- In a flow collection. -/
  | flow
  /-- In a block, where a sequence has a block of its own. -/
  | block
  /-- In a mapping, where a sequence may be indented no further. -/
  | mapping
  deriving DecidableEq, Repr

/-- What is being read at the place. -/
def Place.context : Place → String
  | .flow => "while parsing a flow node"
  | _ => "while parsing a block node"

mutual

/-- The node that is next. -/
def readNode (s : Scope) (place : Place) (anchors : Anchors) (ts : List Token) : Partial Node :=
  match ts with
  | [] => .stopped s
  | ⟨.alias name, m⟩ :: rest =>
    match anchors.lookup name with
    | some number => (.alias m number, .ok ⟨rest, anchors⟩)
    | none => (.missing, .error (.unknownAnchor m))
  | first :: rest =>
    let taken := takeProperties (first :: rest)
    let tag? : Option (Option Text × Mark) :=
      taken.tag?.map fun (tag, m) => (tag.resolve? s.handles, m)
    match taken.rest, tag? with
    | [], _ => .stopped s
    | _ :: _, some (none, m) =>
      .refused "while parsing a node" first.mark "found undefined tag handle" m
    | _ :: _, _ =>
      let p : Properties :=
        ⟨first.mark, taken.anchor?.map fun _ => anchors.length, tag?.bind (·.1)⟩
      readContent s place p (taken.anchor?.elim anchors anchors.add) taken.rest
termination_by (ts.length, 2)
decreasing_by
  rcases Nat.lt_or_eq_of_le (takeProperties_length (first :: rest)) with h | h
  · exact Prod.Lex.left _ _ h
  · rw [h]
    exact Prod.Lex.right _ (by decide)

/-- The node after its properties. -/
def readContent (s : Scope) (place : Place) (p : Properties) (anchors : Anchors)
    (ts : List Token) : Partial Node :=
  match ts with
  | [] => .stopped s
  | t :: rest =>
    let other : Partial Node :=
      if p.anchor?.isSome || p.tag?.isSome then (.scalar p [] true, .ok ⟨t :: rest, anchors⟩)
      else .refused place.context p.mark "did not find expected node content" t.mark
    match t.kind, place with
    | .scalar text isPlain, _ =>
      let p := if p.tag? = some ['!'] then { p with tag? := none } else p
      (.scalar p text isPlain, .ok ⟨rest, anchors⟩)
    | .flowSequenceStart, _ => (readFlowItems s t.mark true anchors rest).mapValue (.sequence p)
    | .flowMappingStart, _ => (readFlowEntries s t.mark true anchors rest).mapValue (.mapping p)
    | .blockSequenceStart, .flow => other
    | .blockSequenceStart, _ => (readItems s t.mark false anchors rest).mapValue (.sequence p)
    | .blockMappingStart, .flow => other
    | .blockMappingStart, _ => (readEntries s t.mark anchors rest).mapValue (.mapping p)
    | .blockEntry, .mapping => (readItems s t.mark true anchors (t :: rest)).mapValue (.sequence p)
    | _, _ => other
termination_by (ts.length, 1)

/-- The node that is next, or an empty one where the next token ends it. -/
def readSlot (s : Scope) (place : Place) (ends : List TokenKind) (mark? : Option Mark)
    (anchors : Anchors) (ts : List Token) : Partial Node :=
  match ts with
  | [] => .stopped s
  | t :: rest =>
    if ends.contains t.kind then (.empty (mark?.getD t.mark), .ok ⟨t :: rest, anchors⟩)
    else readNode s place anchors (t :: rest)
termination_by (ts.length, 3)

/-- The items of a sequence in a block, of its own or of the mapping around it. -/
def readItems (s : Scope) (start : Mark) (isInMapping : Bool) (anchors : Anchors)
    (ts : List Token) : Partial (List Node) :=
  match ts with
  | [] => (Partial.stopped s).mapValue ([·])
  | ⟨.blockEntry, m⟩ :: rest =>
    let ends : List TokenKind :=
      if isInMapping then [.blockEntry, .key, .value, .blockEnd] else [.blockEntry, .blockEnd]
    (readSlot s .block ends (some m.next) anchors rest).withRest (rest.length + 1) fun g _ =>
      readItems s start isInMapping g.anchors g.tokens
  | t :: rest =>
    if isInMapping then ([], .ok ⟨t :: rest, anchors⟩)
    else if t.kind = .blockEnd then ([], .ok ⟨rest, anchors⟩)
    else
      (Partial.refused "while parsing a block collection" start "did not find expected '-' indicator"
        t.mark).mapValue ([·])
termination_by (ts.length, 0)

/-- The entries of a mapping in a block. -/
def readEntries (s : Scope) (start : Mark) (anchors : Anchors) (ts : List Token) :
    Partial (List (Node × Node)) :=
  match ts with
  | [] => (Partial.stopped s).mapValue fun n => [(n, n)]
  | ⟨.blockEnd, _⟩ :: rest => ([], .ok ⟨rest, anchors⟩)
  | ⟨.key, m⟩ :: rest =>
    let ends : List TokenKind := [.key, .value, .blockEnd]
    let key := readSlot s .mapping ends (some m.next) anchors rest
    let entry := key.withValue (rest.length + 1) fun g _ =>
      readValue s .mapping ends g.anchors g.tokens
    entry.withRest (rest.length + 1) fun g _ => readEntries s start g.anchors g.tokens
  | t :: _ =>
    (Partial.refused "while parsing a block mapping" start "did not find expected key"
      t.mark).mapValue fun n => [(n, n)]
termination_by (ts.length, 0)

/-- The value of a key, which is empty if there is none. -/
def readValue (s : Scope) (place : Place) (ends : List TokenKind) (anchors : Anchors)
    (ts : List Token) : Partial Node :=
  match ts with
  | [] => .stopped s
  | ⟨.value, m⟩ :: rest =>
    readSlot s place ends (if place = .flow then none else some m.next) anchors rest
  | t :: rest => (.empty t.mark, .ok ⟨t :: rest, anchors⟩)
termination_by (ts.length, 0)

/-- A mapping of one entry in a flow sequence, after the token of its key. An indicator in place of
the key is taken with it. -/
def readFlowPair (s : Scope) (start : Mark) (anchors : Anchors) (ts : List Token) : Partial Node :=
  let key : Partial Node :=
    match ts with
    | [] => .stopped s
    | ⟨kind, m⟩ :: rest =>
      if [TokenKind.value, .flowEntry, .flowSequenceEnd].contains kind then
        (.empty m.next, .ok ⟨rest, anchors⟩)
      else readNode s .flow anchors (⟨kind, m⟩ :: rest)
  let entry := key.withValue ts.length fun g _ =>
    readValue s .flow [.flowEntry, .flowSequenceEnd] g.anchors g.tokens
  let pair := entry.withRest ts.length fun g _ =>
    if g.tokens.isEmpty then (Partial.stopped s).mapValue fun n => [(n, n)] else ([], .ok g)
  pair.mapValue (.mapping { mark := start })
termination_by (ts.length, 3)

/-- The items of a flow sequence, and the commas between them. -/
def readFlowItems (s : Scope) (start : Mark) (isFirst : Bool) (anchors : Anchors)
    (ts : List Token) : Partial (List Node) :=
  match ts with
  | [] => (Partial.stopped s).mapValue ([·])
  | ⟨.flowSequenceEnd, _⟩ :: rest => ([], .ok ⟨rest, anchors⟩)
  | t :: rest =>
    if isFirst then readFlowItem s start anchors (t :: rest)
    else if t.kind = .flowEntry then readFlowItem s start anchors rest
    else
      (Partial.refused "while parsing a flow sequence" start "did not find expected ',' or ']'"
        t.mark).mapValue ([·])
termination_by (ts.length, 5)

/-- The items of a flow sequence, where one may begin. -/
def readFlowItem (s : Scope) (start : Mark) (anchors : Anchors) (ts : List Token) :
    Partial (List Node) :=
  match ts with
  | [] => (Partial.stopped s).mapValue ([·])
  | ⟨.flowSequenceEnd, _⟩ :: rest => ([], .ok ⟨rest, anchors⟩)
  | ⟨.key, m⟩ :: rest =>
    (readFlowPair s m anchors rest).withRest (rest.length + 1) fun g _ =>
      readFlowItems s start false g.anchors g.tokens
  | t :: rest =>
    (readNode s .flow anchors (t :: rest)).withRest (rest.length + 1) fun g _ =>
      readFlowItems s start false g.anchors g.tokens
termination_by (ts.length, 4)

/-- The entries of a flow mapping, and the commas between them. -/
def readFlowEntries (s : Scope) (start : Mark) (isFirst : Bool) (anchors : Anchors)
    (ts : List Token) : Partial (List (Node × Node)) :=
  match ts with
  | [] => (Partial.stopped s).mapValue fun n => [(n, n)]
  | ⟨.flowMappingEnd, _⟩ :: rest => ([], .ok ⟨rest, anchors⟩)
  | t :: rest =>
    if isFirst then readFlowEntry s start anchors (t :: rest)
    else if t.kind = .flowEntry then readFlowEntry s start anchors rest
    else
      (Partial.refused "while parsing a flow mapping" start "did not find expected ',' or '\x7d'"
        t.mark).mapValue fun n => [(n, n)]
termination_by (ts.length, 5)

/-- The entries of a flow mapping, where one may begin. A key without an indicator has no value. -/
def readFlowEntry (s : Scope) (start : Mark) (anchors : Anchors) (ts : List Token) :
    Partial (List (Node × Node)) :=
  match ts with
  | [] => (Partial.stopped s).mapValue fun n => [(n, n)]
  | ⟨.flowMappingEnd, _⟩ :: rest => ([], .ok ⟨rest, anchors⟩)
  | ⟨.key, _⟩ :: rest =>
    let key := readSlot s .flow [.value, .flowEntry, .flowMappingEnd] none anchors rest
    let entry := key.withValue (rest.length + 1) fun g _ =>
      readValue s .flow [.flowEntry, .flowMappingEnd] g.anchors g.tokens
    entry.withRest (rest.length + 1) fun g _ => readFlowEntries s start false g.anchors g.tokens
  | t :: rest =>
    let key := readNode s .flow anchors (t :: rest)
    let entry := key.withValue (rest.length + 1) fun g _ =>
      match g.tokens with
      | [] => .stopped s
      | t :: _ => (.empty t.mark, .ok g)
    entry.withRest (rest.length + 1) fun g _ => readFlowEntries s start false g.anchors g.tokens
termination_by (ts.length, 4)

end

/-! ## Documents -/

/-- A text, as far as it is a document. -/
structure Document where
  root : Node
  /-- Why the document ends before its time. -/
  fault? : Option Fault := none
  /-- Whether the text ends with the document. -/
  isOnly : Bool := false

namespace Document

/-- The handles that every document has. -/
def commonHandles : List (Text × Text) :=
  [(['!'], ['!']), ("!!".toList, "tag:yaml.org,2002:".toList)]

private def malformed (e : SyntaxError) : Fault := .malformed e

/-- Takes the directives at the start of the tokens: the handles they give, and the rest. -/
def takeDirectives (stop : SyntaxError) (hasVersion : Bool) (handles : List (Text × Text)) :
    List Token → Except SyntaxError (List (Text × Text) × List Token)
  | [] => .error stop
  | ⟨.directive (.version major minor), m⟩ :: ts =>
    if hasVersion then .error { problem := "found duplicate %YAML directive", mark := m }
    else if major != 1 || (minor != 1 && minor != 2) then
      .error { problem := "found incompatible YAML document", mark := m }
    else takeDirectives stop true handles ts
  | ⟨.directive (.handle name meaning), m⟩ :: ts =>
    if (handles.lookup name).isSome then
      .error { problem := "found duplicate %TAG directive", mark := m }
    else takeDirectives stop hasVersion (handles ++ [(name, meaning)]) ts
  | ts => .ok (handles, ts)

/-- Whether nothing follows a document but its end. -/
def endsWith (f : Feed) : Bool :=
  match f.tokens.dropWhile (·.kind = .documentEnd) with
  | t :: _ => t.kind = .streamEnd
  | [] => false

/-- The document of a root that could be read as far as it is there. -/
def ofRoot (stop : SyntaxError) (root : Partial Node) : Document :=
  match root with
  | (root, .error fault) => { root, fault? := some fault }
  | (root, .ok f) =>
    if f.tokens.isEmpty then { root, fault? := some (.malformed stop) }
    else { root, isOnly := endsWith f }

/-- The first document of a text. A text without one has an empty scalar at its end. -/
def ofText (s : Text) : Document :=
  let ts := Tokens.ofText s
  match ts.list with
  | [⟨.streamEnd, m⟩] => { root := .empty m, isOnly := true }
  | first =>
    match takeDirectives ts.stop false [] first with
    | .error e => { root := .missing, fault? := some (.malformed e) }
    | .ok (handles, tokens) =>
      let scope : Scope := ⟨handles ++ commonHandles, ts.stop⟩
      match tokens with
      | ⟨.documentStart, _⟩ :: tokens =>
        let isEnd (kind : TokenKind) : Bool :=
          match kind with
          | .directive _ | .documentStart | .documentEnd | .streamEnd => true
          | _ => false
        let root : Partial Node :=
          match tokens with
          | [] => .stopped scope
          | t :: _ =>
            if isEnd t.kind then (.empty t.mark, .ok { tokens })
            else readNode scope .block [] tokens
        ofRoot ts.stop root
      | t :: _ =>
        if tokens.length = first.length then ofRoot ts.stop (readNode scope .block [] tokens)
        else
          let e : SyntaxError := { problem := "did not find expected <document start>", mark := t.mark }
          { root := .missing, fault? := some (.malformed e) }
      | [] => { root := .missing, fault? := some (.malformed ts.stop) }

end Document

end Mailout.Yaml
