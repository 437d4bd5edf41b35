import ModuleResolution.Text

namespace ModuleResolution

inductive Segment where
  | numeric (n : Nat)
  | text (s : String)
  deriving DecidableEq, Repr

namespace Segment

def numericLimit : Nat := UInt64.size

def ofString (s : String) : Segment :=
  let digits := s.toList
  if !digits.isEmpty && digits.all Char.isDigit && Text.decimal digits < numericLimit then
    .numeric (Text.decimal digits)
  else
    .text s

def render : Segment → String
  | .numeric n => toString n
  | .text s => s

def compare : Segment → Segment → Ordering
  | .numeric m, .numeric n => Ord.compare m n
  | l, r => Ord.compare l.render r.render

end Segment

namespace Version

def isSeparator (c : Char) : Bool := c == '.' || c == '-'

def segments (version : String) : List Segment :=
  (Text.split isSeparator version).map Segment.ofString

def compareSegments : List Segment → List Segment → Ordering
  | [], [] => .eq
  | [], _ :: _ => .lt
  | _ :: _, [] => .gt
  | l :: ls, r :: rs => (l.compare r).then (compareSegments ls rs)

def compare (a b : String) : Ordering :=
  (compareSegments (segments a) (segments b)).then (Ord.compare a b)

def ordered (a b : String) : String × String :=
  if compare a b == .gt then (b, a) else (a, b)

end Version

end ModuleResolution
