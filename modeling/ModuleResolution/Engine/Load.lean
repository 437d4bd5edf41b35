import ModuleResolution.Engine

namespace ModuleResolution

namespace Registry

def declareDependencies (r : Registry) (p : Platform) (id : ModuleId) (b : Option Backend)
    (deps : List ArtifactDependency) : Registry :=
  deps.foldl (fun r d =>
    let (r, target) := r.ensure p d.coordinates
    r.modify id (·.addImport ⟨target, d.kind.isOptional, d.kind.isExported, b⟩)) r

end Registry

inductive Loaded where
  | compiled
  | nativeArchive
  deriving DecidableEq, Repr

namespace Registry

def readArtifact (r : Registry) (env : Environment) (id : ModuleId) (a : Artifact) :
    Registry × Loaded :=
  if (r.module id).isDefault then
    (r, .compiled)
  else
    match env.descriptors.format? a.coordinates with
    | some v =>
        ((r.modify id (·.setBinaryVersion v)).declareDependencies env.platform id none
          a.dependencies, .compiled)
    | none =>
        ((r.modify id (·.markFromPlatform.restrictTo .host)).declareDependencies env.platform id
          (some .host) a.dependencies, .nativeArchive)

end Registry

def Module.isCompiled (m : Module) : Bool :=
  !m.fromPlatform && !m.isDefault

namespace Engine

def overrideCompiled (env : Environment) (e : Engine) (id : ModuleId) (a : Artifact) : Engine :=
  match env.overrides with
  | some o => { e with registry := e.registry.overrideImports env.platform o id a.coordinates }
  | none => e

def checkFormat (env : Environment) (e : Engine) (i : Import) (id : ModuleId) (trail : Trail) :
    Engine :=
  match Issue.ofBinaryVersion? (e.registry.module id).binaryVersion env.config.binaryVersion with
  | some issue => e.reportAtRoot env i trail issue
  | none => e

def load (env : Environment) (e : Engine) (a : Artifact) (id : ModuleId) (i : Import)
    (trail : Trail) : Engine × Loaded :=
  let input := (e.registry.addBinaryInput id a).modify id (·.markFromBinary)
  let (registry, loaded) := input.readArtifact env id a
  let e := { e with registry }
  let e := if (registry.module id).isCompiled then
      (e.overrideCompiled env id a).checkFormat env i id trail
    else e
  -- in an unsupported format too, so that what the module holds can be reported on
  (e.modifyModule id (·.markAvailable), loaded)

end Engine

end ModuleResolution
