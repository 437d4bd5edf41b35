import ModuleResolution.Artifact
import ModuleResolution.Module

namespace ModuleResolution

structure Registry where
  modules : List Module
  binaryInputs : List (ModuleId × Artifact)
  deriving DecidableEq, Repr

structure Interned where
  registry : Registry
  id : ModuleId
  created : Bool

namespace Registry

def foundational : ModuleId := 0

def defaultModule : ModuleId := 1

def defaultCoordinates : Coordinates := ⟨"default", "unversioned"⟩

def append (r : Registry) (c : Coordinates) (isDefault : Bool) : Registry :=
  { r with modules := r.modules ++ [Module.fresh r.modules.length c isDefault] }

def init (foundationalAt : Coordinates) : Registry :=
  ((⟨[], []⟩ : Registry).append foundationalAt false).append defaultCoordinates true

def module (r : Registry) (id : ModuleId) : Module :=
  r.modules[id]?.getD (Module.fresh id ⟨"", ""⟩ false)

def modify (r : Registry) (id : ModuleId) (f : Module → Module) : Registry :=
  { r with modules := r.modules.modify id f }

def ids (r : Registry) : List ModuleId :=
  r.modules.map (·.id)

def size (r : Registry) : Nat :=
  r.modules.length

/--
The latest module with these coordinates. Only the built-in modules can share coordinates, when
the foundational module is given those of the default module.
-/
def find? (r : Registry) (c : Coordinates) : Option ModuleId :=
  (r.modules.reverse.find? fun m => m.coordinates == c).map (·.id)

def intern (r : Registry) (c : Coordinates) : Interned :=
  match r.find? c with
  | some id => ⟨r, id, false⟩
  | none => ⟨r.append c false, r.modules.length, true⟩

def similar (r : Registry) (normalized : String) : List ModuleId :=
  (r.modules.filter fun m => Name.normalize m.name == normalized).map (·.id)

def isBinaryInput (r : Registry) (id : ModuleId) : Bool :=
  r.binaryInputs.any fun input => input.1 == id

def insertBinaryInput (r : Registry) (id : ModuleId) (artifact : Artifact) : Registry × Bool :=
  if r.isBinaryInput id then (r, false)
  else ({ r with binaryInputs := r.binaryInputs ++ [(id, artifact)] }, true)

def addBinaryInput (r : Registry) (id : ModuleId) (artifact : Artifact) : Registry :=
  (r.insertBinaryInput id artifact).1

theorem addBinaryInput_eq (r : Registry) (id : ModuleId) (artifact : Artifact) :
    r.addBinaryInput id artifact = if r.isBinaryInput id then r
      else { r with binaryInputs := r.binaryInputs ++ [(id, artifact)] } := by
  rw [addBinaryInput, insertBinaryInput]
  split <;> rfl

def artifact? (r : Registry) (id : ModuleId) : Option Artifact :=
  (r.binaryInputs.find? fun input => input.1 == id).map (·.2)

end Registry

end ModuleResolution
