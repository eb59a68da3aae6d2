import Mailout.Yaml.Cursor

/-!
# Nodes of a YAML document

A document is a tree of scalars, sequences and mappings. Where the text is no YAML from some place
on, the tree is as far as it could be read, and `Node.missing` stands where it could not.
-/

namespace Mailout.Yaml

/-- What stands in front of a node. -/
structure Properties where
  /-- Where the node begins, with its properties. -/
  mark : Mark
  /-- The number of its anchor. -/
  anchor? : Option Nat := none
  /-- Its tag, with the handle replaced. -/
  tag? : Option Text := none
  deriving DecidableEq, Repr, Inhabited

/-- A part of a document. -/
inductive Node where
  /-- What could not be read. -/
  | missing
  /-- The node with the anchor of a number. -/
  | alias (mark : Mark) (anchor : Nat)
  | scalar (properties : Properties) (text : Text) (isPlain : Bool)
  | sequence (properties : Properties) (items : List Node)
  | mapping (properties : Properties) (entries : List (Node × Node))
  deriving Inhabited

namespace Node

/-- A scalar without text. -/
def empty (mark : Mark) : Node := .scalar { mark } [] true

/-- Where the node begins, as far as it is there. -/
def mark : Node → Mark
  | .missing => {}
  | .alias mark _ => mark
  | .scalar p .. | .sequence p _ | .mapping p _ => p.mark

/-- The number of the node's anchor. -/
def anchor? : Node → Option Nat
  | .missing | .alias .. => none
  | .scalar p .. | .sequence p _ | .mapping p _ => p.anchor?

/-! ## Extent -/

/-- How many starts and ends of nodes there are in the node, and whether it is there as a whole. -/
def extent : Node → Nat × Bool
  | .missing => (0, false)
  | .alias .. | .scalar .. => (1, true)
  | .sequence _ items =>
    let (n, whole) := ofItems items
    (n + (if whole then 2 else 1), whole)
  | .mapping _ entries =>
    let (n, whole) := ofEntries entries
    (n + (if whole then 2 else 1), whole)
where
  /-- The same of several nodes. -/
  ofItems : List Node → Nat × Bool
    | [] => (0, true)
    | n :: ns => ((extent n).1 + (ofItems ns).1, (extent n).2 && (ofItems ns).2)
  /-- The same of several pairs of nodes. -/
  ofEntries : List (Node × Node) → Nat × Bool
    | [] => (0, true)
    | (k, v) :: es =>
      ((extent k).1 + (extent v).1 + (ofEntries es).1,
        (extent k).2 && (extent v).2 && (ofEntries es).2)

/-- The number of starts and ends of nodes in the node. -/
def size (n : Node) : Nat := n.extent.1

/-- Whether nothing of the node is missing. -/
def isComplete (n : Node) : Bool := n.extent.2

/-! ## Anchors -/

/-- The nodes with an anchor in the node, in the order of the text. -/
def anchored (n : Node) : List (Nat × Node) :=
  let here := match n.anchor? with
    | some i => [(i, n)]
    | none => []
  match n with
  | .sequence _ items => here ++ ofItems items
  | .mapping _ entries => here ++ ofEntries entries
  | _ => here
where
  /-- The same of several nodes. -/
  ofItems : List Node → List (Nat × Node)
    | [] => []
    | n :: ns => anchored n ++ ofItems ns
  /-- The same of several pairs of nodes. -/
  ofEntries : List (Node × Node) → List (Nat × Node)
    | [] => []
    | (k, v) :: es => anchored k ++ anchored v ++ ofEntries es

end Node

end Mailout.Yaml
