import ModuleResolution.Diagnostic
import ModuleResolution.Registry
import ModuleResolution.Version

namespace ModuleResolution

structure Platform where
  version : String
  oldest : String
  modules : List String
  deriving DecidableEq, Repr

namespace Platform

def hosts (p : Platform) (name : String) : Bool :=
  p.modules.contains name

def provides (p : Platform) (version : String) : Bool :=
  Version.compare p.oldest version != .gt && Version.compare version p.version != .gt

def isLower (p : Platform) (version : String) : Bool :=
  Version.compare version p.version == .lt

def supplies (p : Platform) (c : Coordinates) : Bool :=
  p.hosts c.name && p.provides c.version

def setUp (p : Platform) (m : Module) : Module :=
  if p.supplies m.coordinates then m.markAvailable.markFromPlatform.restrictTo .host else m

def lowerImport? (p : Platform) (imported : Coordinates) : Option Issue :=
  if p.hosts imported.name && p.isLower imported.version then
    some (.platformVersionLower imported.version p.version)
  else
    none

def unavailable? (p : Platform) (imported : Coordinates) : Option Issue :=
  if p.hosts imported.name then
    some (.platformVersionUnavailable imported.name imported.version p.version)
  else
    none

def accepts (p : Platform) (name : String) : Option String → Option String → Bool
  | some requested, some current =>
      (p.hosts name && p.provides requested && p.provides current) || requested == current
  | _, _ => true

end Platform

def Registry.ensure (r : Registry) (p : Platform) (c : Coordinates) : Registry × ModuleId :=
  let i := r.intern c
  (if i.created then i.registry.modify i.id p.setUp else i.registry, i.id)

end ModuleResolution
