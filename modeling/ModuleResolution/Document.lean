namespace ModuleResolution

inductive Document where
  | null
  | string (s : String)
  | integer (n : Int)
  | float (text : String)
  | boolean (b : Bool)
  | dateTime (text : String)
  | array (items : List Document)
  | table (entries : List (String × Document))
  deriving Repr, Inhabited

def Document.nullable? {α : Type} (read : Document → Option α) : Document → Option (Option α)
  | null => some none
  | d => (read d).map some

abbrev Fields := List (String × Document)

namespace Fields

def get? (fs : Fields) (key : String) : Option Document :=
  fs.lookup key

def required {α : Type} (fs : Fields) (key : String) (read : Document → Option α) : Option α :=
  (fs.get? key).bind read

def withDefault {α : Type} (fs : Fields) (key : String) (missing : α)
    (read : Document → Option α) : Option α :=
  match fs.get? key with
  | some d => read d
  | none => some missing

def optional {α : Type} (fs : Fields) (key : String) (read : Document → Option α) :
    Option (Option α) :=
  fs.withDefault key none (Document.nullable? read)

end Fields

namespace Document

def dateTimeKey : String := "$__toml_private_datetime"

def string? : Document → Option String
  | string s => some s
  | _ => none

def boolean? : Document → Option Bool
  | boolean b => some b
  | _ => none

def word? : Document → Option UInt32
  | integer n => if 0 ≤ n ∧ n < UInt32.size then some n.toNat.toUInt32 else none
  | _ => none

def list? {α : Type} (read : Document → Option α) : Document → Option (List α)
  | array items => items.mapM read
  | _ => none

def entries? : Document → Option Fields
  | table entries => some entries
  | dateTime text => some [(dateTimeKey, string text)]
  | _ => none

/-- The fields of a record whose keys are given in order. An array names them by position, and its
items beyond the last key are ignored like unknown keys. -/
def fields? (keys : List String) : Document → Option Fields
  | array items => some (keys.zip items)
  | d => d.entries?

def isVoid : Document → Bool
  | null => true
  | array items => items.isEmpty
  | table entries => entries.isEmpty
  | _ => false

def label? : Document → Option String
  | string s => some s
  | table [(key, d)] => if d.isVoid then some key else none
  | _ => none

def ofStrings (ss : List String) : Document :=
  array (ss.map string)

def entry? {α : Type} (key : String) (write : α → Document) : Option α → Fields
  | some a => [(key, write a)]
  | none => []

end Document

end ModuleResolution
