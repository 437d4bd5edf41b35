import ModuleResolution.Registry

namespace ModuleResolution

def Module.needsFoundational (m : Module) : Bool :=
  m.id != Registry.foundational && !m.fromPlatform && !m.imports? Registry.foundational

namespace Registry

def implicitImport : Import where
  target := foundational
  optional := false
  exported := true
  backend := none

def lackingFoundational (r : Registry) : List ModuleId :=
  (r.modules.filter Module.needsFoundational).map (·.id)

def addImplicitImports (r : Registry) : Registry × Nat :=
  let targets := r.lackingFoundational
  (targets.foldl (fun r id => r.modify id (·.addImport implicitImport)) r, targets.length)

def withImplicitImports (r : Registry) : Registry :=
  r.addImplicitImports.1

theorem withImplicitImports_eq (r : Registry) : r.withImplicitImports =
    r.lackingFoundational.foldl (fun r id => r.modify id (·.addImport implicitImport)) r :=
  rfl

end Registry

end ModuleResolution
