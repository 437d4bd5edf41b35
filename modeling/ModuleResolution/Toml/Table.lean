import ModuleResolution.Document

namespace ModuleResolution.Toml

inductive Origin where
  | explicit
  | implied
  | dotted
  deriving DecidableEq

inductive Node where
  | value (d : Document)
  | table (origin : Origin) (entries : List (String × Node))
  | tables (items : List (List (String × Node)))

namespace Node

abbrev Entries := List (String × Node)

def put (key : String) (n : Node) : Entries → Entries
  | [] => [(key, n)]
  | (k, m) :: es => if k == key then (key, n) :: es else (k, m) :: put key n es

/--
Edits the table that `path` leads to, creating the tables that are missing. An array of tables leads
to its last one, and a value nowhere. A dotted key leads only through tables without a header.
-/
def editAt (byDottedKey : Bool) (edit : Origin → Entries → Option Entries) :
    (path : List String) → Origin → Entries → Option Entries
  | [], origin, es => edit origin es
  | key :: path, _, es =>
      let missing := table (if byDottedKey then .dotted else .implied) []
      match (es.lookup key).getD missing with
      | value _ => none
      | tables items => do
          let last ← items.getLast?
          let last ← editAt byDottedKey edit path .explicit last
          return put key (tables (items.dropLast ++ [last])) es
      | table origin inner =>
          if byDottedKey && origin == .explicit then none
          else do return put key (table origin (← editAt byDottedKey edit path origin inner)) es

def define (dotted : Bool) (key : String) (d : Document) (origin : Origin) (es : Entries) :
    Option Entries :=
  if (origin == .dotted) != dotted || (es.lookup key).isSome then none
  else some (es ++ [(key, value d)])

def splitLast? (path : List String) : Option (List String × String) :=
  path.getLast?.map fun key => (path.dropLast, key)

def assign (path : List String) (d : Document) (origin : Origin) (es : Entries) :
    Option Entries := do
  let (way, key) ← splitLast? path
  editAt true (define (!way.isEmpty) key d) way origin es

def openTable (path : List String) (es : Entries) : Option Entries := do
  let (way, key) ← splitLast? path
  editAt false (fun _ es =>
    match es.lookup key with
    | none => some (put key (table .explicit []) es)
    | some (table .implied inner) => some (put key (table .explicit inner) es)
    | some _ => none) way .explicit es

def openItem (path : List String) (es : Entries) : Option Entries := do
  let (way, key) ← splitLast? path
  editAt false (fun _ es =>
    match es.lookup key with
    | none => some (put key (tables [[]]) es)
    | some (tables items) => some (put key (tables (items ++ [[]])) es)
    | some _ => none) way .explicit es

mutual

def toDocument : Node → Document
  | value d => d
  | table _ es => .table (entriesToDocuments es)
  | tables items => .array (itemsToDocuments items)

def entriesToDocuments : List (String × Node) → List (String × Document)
  | [] => []
  | (key, n) :: es => (key, toDocument n) :: entriesToDocuments es

def itemsToDocuments : List (List (String × Node)) → List Document
  | [] => []
  | es :: items => .table (entriesToDocuments es) :: itemsToDocuments items

end

end Node

end ModuleResolution.Toml
