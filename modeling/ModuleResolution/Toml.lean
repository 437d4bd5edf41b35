import ModuleResolution.Toml.Value

namespace ModuleResolution.Toml

open Scanner

inductive Statement where
  | assign (path : List String) (d : Document)
  | openTable (path : List String)
  | openItem (path : List String)

def statement : Scanner Statement :=
  (.openItem <$> (token ['[', '['] *> key <* token [']', ']'])) <|>
    (.openTable <$> (char '[' *> key <* char ']')) <|>
    (do
      let (path, d) ← assignment (value (nestingLimit - 1))
      return .assign path d)

def line : Scanner (Option Statement) := do
  blank
  let s ← optional statement
  blank
  discard (optional comment)
  newline <|> atEnd
  return s

def statements : Scanner (List Statement) := do
  discard (optional (char '\uFEFF'))
  let lines ← repeated line
  atEnd
  return lines.filterMap id

structure Draft where
  entries : Node.Entries
  header : List String

def Draft.add (draft : Draft) : Statement → Option Draft
  | .assign path d => do
      let entries ← Node.editAt false (Node.assign path d) draft.header .explicit draft.entries
      return { draft with entries }
  | .openTable path => return ⟨← Node.openTable path draft.entries, path⟩
  | .openItem path => return ⟨← Node.openItem path draft.entries, path⟩

def parse? (text : String) : Option Document := do
  let (lines, _) ← statements (.ofString text)
  let draft ← lines.foldlM Draft.add ⟨[], []⟩
  return .table (Node.entriesToDocuments draft.entries)

end ModuleResolution.Toml
