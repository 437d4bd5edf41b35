import ModuleResolution.BinaryVersion
import ModuleResolution.Coordinates

namespace ModuleResolution

abbrev ModuleId := Nat

inductive Backend where
  | host
  | script
  deriving DecidableEq, Repr

def Backend.name : Backend → String
  | .host => "host"
  | .script => "script"

structure Import where
  target : ModuleId
  optional : Bool
  exported : Bool
  backend : Option Backend
  deriving DecidableEq, Repr

structure Module where
  id : ModuleId
  segments : List String
  version : String
  isDefault : Bool
  available : Bool
  fromPlatform : Bool
  fromBinary : Bool
  binaryVersion : Option BinaryVersion
  backend : Option Backend
  imports : List Import
  deriving DecidableEq, Repr

namespace Module

def fresh (id : ModuleId) (c : Coordinates) (isDefault : Bool) : Module where
  id := id
  segments := Name.segments c.name
  version := c.version
  isDefault := isDefault
  available := false
  fromPlatform := false
  fromBinary := false
  binaryVersion := none
  backend := none
  imports := []

def name (m : Module) : String :=
  Name.ofSegments m.segments

def coordinates (m : Module) : Coordinates :=
  ⟨m.name, m.version⟩

theorem coordinates_fresh (id : ModuleId) (c : Coordinates) (isDefault : Bool) :
    (fresh id c isDefault).coordinates = c := by
  simp [coordinates, name, fresh, Name.ofSegments_segments]

def import? (m : Module) (dependency : ModuleId) : Option Import :=
  m.imports.find? fun i => i.target == dependency

def imports? (m : Module) (dependency : ModuleId) : Bool :=
  (m.import? dependency).isSome

def insertImport (m : Module) (i : Import) : Module × Bool :=
  if m.imports? i.target then (m, false) else ({ m with imports := m.imports ++ [i] }, true)

def addImport (m : Module) (i : Import) : Module :=
  (m.insertImport i).1

theorem addImport_eq (m : Module) (i : Import) : m.addImport i =
    if m.imports? i.target then m else { m with imports := m.imports ++ [i] } := by
  rw [addImport, insertImport]
  split <;> rfl

@[simp] theorem insertImport_snd (m : Module) (i : Import) :
    (m.insertImport i).2 = !m.imports? i.target := by
  rw [insertImport]
  cases m.imports? i.target <;> rfl

def setImports (m : Module) (imports : List Import) : Module :=
  { m with imports }

def markAvailable (m : Module) : Module :=
  { m with available := true }

def markFromPlatform (m : Module) : Module :=
  { m with fromPlatform := true }

def markFromBinary (m : Module) : Module :=
  { m with fromBinary := true }

def setBinaryVersion (m : Module) (v : BinaryVersion) : Module :=
  { m with binaryVersion := some v }

def restrictTo (m : Module) (b : Backend) : Module :=
  { m with backend := some b }

end Module

end ModuleResolution
