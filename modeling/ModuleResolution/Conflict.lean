import ModuleResolution.Diagnostic
import ModuleResolution.Registry
import ModuleResolution.Version

namespace ModuleResolution

inductive Conflict where
  | sameName (existing : ModuleId) (name lower higher : String)
  | similarName (existing : ModuleId) (first second : Coordinates)
  deriving DecidableEq, Repr

namespace Conflict

def existing : Conflict → ModuleId
  | sameName existing .. => existing
  | similarName existing .. => existing

def isFatal : Conflict → Bool
  | sameName .. => true
  | similarName .. => false

def issue : Conflict → Issue
  | sameName _ name lower higher => .versionConflict name lower higher
  | similarName _ first second => .similarVersionConflict first.render second.render

def between (candidate : Coordinates) (existing : ModuleId) (loaded : Coordinates) : Conflict :=
  if loaded.name == candidate.name then
    let versions := Version.ordered candidate.version loaded.version
    .sameName existing candidate.name versions.1 versions.2
  else if loaded.name < candidate.name then
    .similarName existing loaded candidate
  else
    .similarName existing candidate loaded

end Conflict

namespace Registry

def clashes (r : Registry) (candidate loaded : ModuleId) : Bool :=
  loaded != candidate && r.isBinaryInput loaded &&
    (r.module loaded).version != (r.module candidate).version

def conflict? (r : Registry) (candidate : ModuleId) : Option Conflict :=
  let c := (r.module candidate).coordinates
  ((r.similar (Name.normalize c.name)).find? (r.clashes candidate)).map fun loaded =>
    Conflict.between c loaded (r.module loaded).coordinates

end Registry

end ModuleResolution
