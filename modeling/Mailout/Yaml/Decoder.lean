import Mailout.Yaml.Document
import Mailout.Yaml.Scalar

/-!
# Decoding documents

A decoder makes a value of a node. It follows aliases, and what it makes of the node of an alias it
makes anew for every alias; a document may not use that to grow without bound. A node that does not
fit is told by its place: where it begins, and the path of keys and numbers that leads to it.

## Places

A mismatch gets its place from the innermost decoder around it that reads a node (`placed`). What is
wrong with data that were read as a whole, before anyone asked what they mean, is only met further
out.

## Termination

Data of any kind are read by recursion on the number of collections that may still open.
-/

namespace Mailout.Yaml

/-! ## Failures -/

/-- The way to a node. -/
inductive Path where
  | root
  | item (parent : Path) (number : Nat)
  | field (parent : Path) (key : Text)
  /-- The value of a key that is no scalar. -/
  | unnamed (parent : Path)
  deriving DecidableEq, Repr

namespace Path

/-- Whether the way leads nowhere. -/
def isRoot : Path → Bool
  | .root => true
  | _ => false

/-- The way for people. -/
def toText : Path → Text
  | .root => ['.']
  | .item parent number => parent.toText ++ '[' :: (toString number).toList ++ [']']
  | .field parent key => below parent ++ key
  | .unnamed parent => below parent ++ ['?']
where
  /-- The way in front of the name of a key. -/
  below (parent : Path) : Text := if parent.isRoot then [] else toText parent ++ ['.']

end Path

/-- Why a document is not what was wanted. -/
inductive Failure where
  | fault (f : Fault)
  | tooDeep (mark : Mark)
  | tooManyAliases
  | moreDocuments
  | mismatch (m : Mismatch) (place? : Option (Mark × Path))

namespace Failure

private def markMessage (m : Mark) : String := if m.isStart then "" else m.message

/-- The wording of the failure. -/
def message : Failure → String
  | .fault (.malformed e) => e.message
  | .fault (.unknownAnchor m) => "unknown anchor" ++ markMessage m
  | .tooDeep m => "recursion limit exceeded" ++ markMessage m
  | .tooManyAliases => "repetition limit exceeded"
  | .moreDocuments =>
    "deserializing from YAML containing more than one document is not supported"
  | .mismatch m none => m.message wording
  | .mismatch m (some (mark, path)) =>
    let way := if path.isRoot then "" else String.ofList path.toText ++ ": "
    way ++ m.message wording ++ markMessage mark

end Failure

/-! ## Decoders -/

/-- What decoders know of the document. -/
structure Context where
  /-- The nodes with an anchor, the last of the text first. -/
  anchored : List (Nat × Node)
  /-- How many aliases may be followed. -/
  maxAliases : Nat
  fault : Fault

/-- A decoder, which counts the aliases that it follows. -/
abbrev Decoder (α : Type) := ReaderT Context (StateT Nat (Except Failure)) α

/-- How many aliases may be followed for every start and end of a node. -/
def aliasesPerNode : Nat := 100

/-- The collections that may be inside one another. -/
def nestingLimit : Nat := 128

namespace Decoder

/-- Fails, and leaves the place to the decoder around. -/
def mismatch (m : Mismatch) : Decoder α := throw (.mismatch m none)

/-- A result that may not fit. -/
def ofExcept : Except Mismatch α → Decoder α
  | .ok a => pure a
  | .error m => mismatch m

/-- Settles the place of a mismatch that has none. -/
def placed (mark : Mark) (path : Path) (x : Decoder α) : Decoder α :=
  fun context aliases =>
    match x context aliases with
    | .error (.mismatch m none) => .error (.mismatch m (some (mark, path)))
    | result => result

/-- The end of what could be read of the document. -/
def missing : Decoder α := do throw (.fault (← read).fault)

/-- The node, or that of the anchor which it refers to. -/
def follow (n : Node) : Decoder Node :=
  match n with
  | .missing => missing
  | .alias _ number => do
    let context ← read
    let aliases ← get
    set (aliases + 1)
    if context.maxAliases ≤ aliases then throw .tooManyAliases
    match context.anchored.lookup number with
    | some target => return target
    | none => missing
  | n => return n

/-- The number of collections that may open in one that begins at a mark. -/
def enter (nesting : Nat) (mark : Mark) : Decoder Nat :=
  match nesting with
  | 0 => throw (.tooDeep mark)
  | n + 1 => return n

/-- Passes over a node of which nothing may be missing. -/
def skip (n : Node) : Decoder Unit := if n.isComplete then pure () else missing

/-- The way to the value of a key. -/
def valuePath (path : Path) : Node → Path
  | .scalar _ s _ => .field path s
  | _ => .unnamed path

/-- What is wrong with a node that does not fit. -/
def misfit (wanted : String) : Node → Mismatch
  | .scalar p s isPlain =>
    match scalarValue p.tag? s isPlain with
    | .ok value => .wrongKind value.found wanted
    | .error m => m
  | .sequence .. => .wrongKind .list wanted
  | _ => .wrongKind .table wanted

/-- The tag of a node that says how to read it. -/
def localTag? (p : Properties) : Option Text :=
  match p.tag? with
  | some ('!' :: tag) => some (if tag.isEmpty then ['!'] else tag)
  | _ => none

/-- The text of a scalar, whatever it stands for. -/
def text (wanted : String) (path : Path) (n : Node) : Decoder Text := do
  match ← follow n with
  | .scalar _ s _ => return s
  | n => placed n.mark path (mismatch (misfit wanted n))

/-- The items of a sequence, each with its way. -/
def items (read : Path → Node → Decoder α) (path : Path) (ns : List Node) : Decoder (List α) :=
  ns.zipIdx.mapM fun (n, i) => read (.item path i) n

/-! ## Data -/

/-- The value of a scalar as a datum. -/
def scalarDatum (wanted : String) (p : Properties) (s : Text) (isPlain : Bool) : Decoder Datum :=
  ofExcept do
    match ← scalarValue p.tag? s isPlain with
    | .datum d => return d
    | value => throw (.wrongKind value.found wanted)

/-- Data of any kind, but without tags that say how to read them. -/
def datum (nesting : Nat) (wanted : String) (path : Path) (n : Node) : Decoder Datum := do
  let n ← follow n
  placed n.mark path do
    match n with
    | .scalar p s isPlain =>
      if (localTag? p).isSome then mismatch .strayTag else scalarDatum wanted p s isPlain
    | .sequence p ns =>
      if (localTag? p).isSome then mismatch .strayTag
      else
        match nesting with
        | 0 => throw (.tooDeep p.mark)
        | nesting + 1 => return .list (← items (datum nesting "any value") path ns)
    | .mapping p entries =>
      if (localTag? p).isSome then mismatch .strayTag
      else
        match nesting with
        | 0 => throw (.tooDeep p.mark)
        | nesting + 1 =>
          return .table (← entries.mapM fun (k, v) => do
            return (← datum nesting "any value" path k,
              ← datum nesting "any value" (valuePath path k) v))
    | _ => missing

end Decoder

/-- What a decoder makes of a text that is one document. -/
def decode (x : Node → Decoder α) (s : Text) : Except Failure α := do
  let document := Document.ofText s
  let stop : Fault := document.fault?.getD (.malformed { problem := "unexpected end", mark := {} })
  let context : Context := {
    anchored := document.root.anchored.reverse
    maxAliases := document.root.size * aliasesPerNode
    fault := stop }
  let (a, _) ← ((x document.root).run context).run 0
  match document.fault? with
  | some fault => throw (.fault fault)
  | none => if document.isOnly then return a else throw .moreDocuments

end Mailout.Yaml
