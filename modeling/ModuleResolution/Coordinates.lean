import ModuleResolution.Text

namespace ModuleResolution

structure Coordinates where
  name : String
  version : String
  deriving DecidableEq, Repr, Inhabited

def Coordinates.render (c : Coordinates) : String :=
  c.name ++ "/" ++ c.version

namespace Name

def segments (name : String) : List String :=
  Text.split (· == '.') name

def ofSegments (segments : List String) : String :=
  Text.join '.' segments

theorem ofSegments_segments (name : String) : ofSegments (segments name) = name :=
  Text.join_split '.' name

def normalizeChar (c : Char) : Char :=
  if c == ':' || c == '-' then '.' else c

def normalize (name : String) : String :=
  String.ofList (name.toList.map normalizeChar)

end Name

end ModuleResolution
