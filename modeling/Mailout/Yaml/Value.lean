import Mailout.Yaml.Decoder

/-!
# Plain data in YAML

A text that is one document can be read as data, whatever it is about, if no mapping in it has a key
twice.
-/

namespace Mailout.Yaml

namespace Decoder

/-- Data of any kind. A tag that says how to read a node is kept. -/
def value (nesting : Nat) (n : Node) : Decoder Datum := do
  let tagged (p : Properties) (d : Datum) : Datum :=
    match localTag? p with
    | some tag => .tagged tag d
    | none => d
  match ← follow n with
  | .scalar p s isPlain => return tagged p (← scalarDatum "any YAML value" p s isPlain)
  | .sequence p ns =>
    match nesting with
    | 0 => throw (.tooDeep p.mark)
    | nesting + 1 => return tagged p (.list (← ns.mapM (value nesting)))
  | .mapping p entries =>
    match nesting with
    | 0 => throw (.tooDeep p.mark)
    | nesting + 1 =>
      return tagged p (.table (← entries.mapM fun (k, v) => do
        return (← value nesting k, ← value nesting v)))
  | _ => missing

end Decoder

/-- Whether a text is one document of plain data. -/
def isData (s : Text) : Bool :=
  match decode (Decoder.value nestingLimit) s with
  | .ok d => d.hasDistinctKeys
  | .error _ => false

end Mailout.Yaml
