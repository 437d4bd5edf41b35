import ModuleResolution.Toml.DateTime
import ModuleResolution.Toml.Number
import ModuleResolution.Toml.Quoted
import ModuleResolution.Toml.Table

namespace ModuleResolution.Toml

open Scanner

def nestingLimit : Nat := 80

def isBareKeyChar (c : Char) : Bool :=
  c.isAlphanum || c == '-' || c == '_'

def simpleKey : Scanner String :=
  Quoted.basic <|> Quoted.literal <|> (String.ofList <$> spanNonempty isBareKeyChar)

def key : Scanner (List String) := do
  let parts ← separated '.' (blank *> simpleKey <* blank)
  if parts.length < nestingLimit then return parts else failure

def boolean : Scanner Document :=
  (token ['t', 'r', 'u', 'e'] *> return .boolean true) <|>
    (token ['f', 'a', 'l', 's', 'e'] *> return .boolean false)

def scalar : Scanner Document :=
  (.string <$> Quoted.string) <|> boolean <|> DateTime.dateTime <|> Number.float <|> Number.integer

def array (value : Scanner Document) : Scanner Document := do
  char '['
  let items ← optional (separated ',' (filler *> value <* filler))
  if items.isSome then discard (optional (char ','))
  filler
  char ']'
  return .array (items.getD [])

def assignment (value : Scanner Document) : Scanner (List String × Document) := do
  let path ← key
  char '='
  blank
  let d ← value
  blank
  return (path, d)

def assignAll (pairs : List (List String × Document)) : Option Node.Entries :=
  pairs.foldlM (fun es pair => Node.assign pair.1 pair.2 .explicit es) []

def inlineTable (value : Scanner Document) : Scanner Document := do
  char '{'
  blank
  let pairs ← optional (separated ',' (assignment value))
  char '}'
  let entries ← assignAll (pairs.getD [])
  return .table (Node.entriesToDocuments entries)

def value : (depth : Nat) → Scanner Document
  | 0 => scalar
  | depth + 1 => scalar <|> array (value depth) <|> inlineTable (value depth)

end ModuleResolution.Toml
