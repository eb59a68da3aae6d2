import Mailout.Decimal.Shortest
import Mailout.Text.Quoted

/-!
# Data and how they can fail to fit

A description of a preset is written as data: scalars, lists and tables. `Datum` is what such a text
says before anyone asks what it means, and a `Mismatch` is a reason why it does not mean what was
wanted. The wording of a mismatch names what was found; the formats differ in how they name some
scalars (`Wording`).
-/

namespace Mailout

/-- What a text in a data format says. -/
inductive Datum where
  | null
  | bool (b : Bool)
  | natural (n : Nat)
  /-- An integer below zero. -/
  | negative (n : Int)
  | real (x : Float)
  | text (s : Text)
  | list (items : List Datum)
  | table (entries : List (Datum × Datum))
  /-- Data under a name that says how to read it. -/
  | tagged (tag : Text) (content : Datum)
  deriving Inhabited

/-- The integer that a datum is. -/
def Datum.integer? : Datum → Option Int
  | .natural n => some n
  | .negative n => some n
  | _ => none

/-- Whether two data are the same as keys of a table. The order of entries does not count. -/
def Datum.same : Datum → Datum → Bool
  | .null, .null => true
  | .bool b, .bool c => b == c
  | .real x, .real y => x == y || (x.isNaN && y.isNaN)
  | .text s, .text t => s == t
  | .list as, .list bs => sameItems as bs
  | .table as, .table bs => as.length == bs.length && sameEntries as bs
  | .tagged tag d, .tagged tag' d' => tag == tag' && same d d'
  | a, b => a.integer?.isSome && a.integer? == b.integer?
where
  /-- Whether two lists have the same items. -/
  sameItems : List Datum → List Datum → Bool
    | [], [] => true
    | a :: as, b :: bs => same a b && sameItems as bs
    | _, _ => false
  /-- Whether every entry of one table is in another. -/
  sameEntries : List (Datum × Datum) → List (Datum × Datum) → Bool
    | [], _ => true
    | (k, v) :: es, bs => (bs.any fun b => same k b.1 && same v b.2) && sameEntries es bs

/-- Whether no table in the data has a key twice. -/
def Datum.hasDistinctKeys : Datum → Bool
  | .list items => ofItems items
  | .table entries => ofEntries entries
  | .tagged _ d => hasDistinctKeys d
  | _ => true
where
  /-- The same of several data. -/
  ofItems : List Datum → Bool
    | [] => true
    | d :: ds => hasDistinctKeys d && ofItems ds
  /-- The same of the entries of a table. -/
  ofEntries : List (Datum × Datum) → Bool
    | [] => true
    | (k, v) :: es =>
      !es.any (fun e => e.1.same k) && hasDistinctKeys k && hasDistinctKeys v && ofEntries es

/-- What was found where something else was wanted. -/
inductive Found where
  | null
  | bool (b : Bool)
  | integer (n : Int)
  /-- An integer of more than 64 bits, with the name of its size. -/
  | wide (n : Int) (size : String)
  | real (x : Float)
  | text (s : Text)
  | list
  | table
  | tagged

/-- What a datum is called when it does not fit. -/
def Datum.found : Datum → Found
  | .null => .null
  | .bool b => .bool b
  | .natural n => .integer n
  | .negative n => .integer n
  | .real x => .real x
  | .text s => .text s
  | .list _ => .list
  | .table _ => .table
  | .tagged .. => .tagged

/-- A reason why data do not mean what was wanted. -/
inductive Mismatch where
  | wrongKind (found : Found) (wanted : String)
  | wrongText (found : Text) (wanted : String)
  | wrongLength (found : Nat) (wanted : String)
  | missingField (name : String)
  | duplicateField (name : String)
  | unknownVariant (found : Text) (variants : List String)
  /-- A tag where variants are told apart by a field. -/
  | strayTag

/-- How a format names scalars. -/
structure Wording where
  null : String
  real : Float → Text

namespace Mismatch

private def ticked (s : String) : String := "`" ++ s ++ "`"

/-- The name of what was found. -/
def nameFound (w : Wording) : Found → String
  | .null => w.null
  | .bool b => "boolean " ++ ticked (toString b)
  | .integer n => "integer " ++ ticked (toString n)
  | .wide n size => "integer " ++ ticked (toString n) ++ " as " ++ size
  | .real x => "floating point " ++ ticked (String.ofList (w.real x))
  | .text s => "string " ++ String.ofList (Text.quoted s)
  | .list => "sequence"
  | .table => "map"
  | .tagged => "enum"

/-- The variants that are possible. -/
def nameVariants : List String → String
  | [] => "there are no variants"
  | [a] => "expected " ++ ticked a
  | [a, b] => "expected " ++ ticked a ++ " or " ++ ticked b
  | vs => "expected one of " ++ String.intercalate ", " (vs.map ticked)

/-- The wording of the mismatch. -/
def message (w : Wording) : Mismatch → String
  | .wrongKind found wanted => "invalid type: " ++ nameFound w found ++ ", expected " ++ wanted
  | .wrongText found wanted =>
    "invalid value: string " ++ String.ofList (Text.quoted found) ++ ", expected " ++ wanted
  | .wrongLength found wanted =>
    "invalid length " ++ toString found ++ ", expected " ++ wanted
  | .missingField name => "missing field " ++ ticked name
  | .duplicateField name => "duplicate field " ++ ticked name
  | .unknownVariant found variants =>
    "unknown variant " ++ ticked (String.ofList found) ++ ", " ++ nameVariants variants
  | .strayTag => "untagged and internally tagged enums do not support enum input"

end Mismatch

end Mailout
