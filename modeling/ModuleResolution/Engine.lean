import ModuleResolution.Config
import ModuleResolution.Conflict
import ModuleResolution.Overrides.Imports
import ModuleResolution.Registry.Implicit
import ModuleResolution.Trail

namespace ModuleResolution

abbrev Descriptors := List (Coordinates × BinaryVersion)

def Descriptors.format? (ds : Descriptors) (c : Coordinates) : Option BinaryVersion :=
  (ds.reverse.find? fun d => d.1 == c).map (·.2)

structure Environment where
  config : Config
  platform : Platform
  descriptors : Descriptors
  overrides : Option Overrides
  sources : List String

namespace Environment

def isSource (env : Environment) (name : String) : Bool :=
  env.sources.contains name

def supportsBackend (_env : Environment) (b : Backend) : Bool :=
  b == .host

end Environment

structure Engine where
  registry : Registry
  inProgress : List ModuleId
  diagnostics : List Diagnostic

namespace Engine

def start (foundationalAt : Coordinates) : Engine :=
  ⟨Registry.init foundationalAt, [], []⟩

def report (e : Engine) (d : Diagnostic) : Engine :=
  { e with diagnostics := e.diagnostics ++ [d] }

def enter (e : Engine) (id : ModuleId) : Engine :=
  { e with inProgress := e.inProgress ++ [id] }

def leave (e : Engine) : Engine :=
  { e with inProgress := e.inProgress.dropLast }

def modifyModule (e : Engine) (id : ModuleId) (f : Module → Module) : Engine :=
  { e with registry := e.registry.modify id f }

def ensure (env : Environment) (e : Engine) (c : Coordinates) : Engine × ModuleId :=
  let (registry, id) := e.registry.ensure env.platform c
  ({ e with registry }, id)

def defineImport (env : Environment) (e : Engine) (importer : ModuleId) (i : Import) :
    Engine × Bool :=
  if ((e.registry.module importer).insertImport i).2 then
    let e := e.modifyModule importer (·.addImport i)
    match env.platform.lowerImport? (e.registry.module i.target).coordinates with
    | some issue =>
        (e.report ⟨.warning .importsOtherPlatform, .importOf importer i.target, issue⟩, true)
    | none => (e, true)
  else
    (e, false)

def declareImport (env : Environment) (e : Engine) (importer : ModuleId) (i : Import) : Engine :=
  (e.defineImport env importer i).1

/--
Attributes an error to the declaration at the root of the trail. For a platform module the only
possible reason is that the platform lacks the version, so this is what gets reported.
-/
def reportAtRoot (env : Environment) (e : Engine) (i : Import) (trail : Trail) (issue : Issue) :
    Engine :=
  let imported := (e.registry.module i.target).coordinates
  let issue := (env.platform.unavailable? imported).getD issue
  e.report ⟨.error, .declaration trail.root i.target, issue⟩

def addImplicitImports (e : Engine) : Engine × Nat :=
  let (registry, added) := e.registry.addImplicitImports
  ({ e with registry }, added)

def withImplicitImports (e : Engine) : Engine :=
  e.addImplicitImports.1

@[simp] theorem registry_withImplicitImports (e : Engine) :
    e.withImplicitImports.registry = e.registry.withImplicitImports :=
  rfl

def reportConflict (e : Engine) (c : Conflict) (trail : Trail) : Engine :=
  let severity := if c.isFatal then .error else .warning .similarModule
  e.report ⟨severity, .module trail.root, c.issue⟩

end Engine

end ModuleResolution
