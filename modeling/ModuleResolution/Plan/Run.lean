import ModuleResolution.Plan.Walk

namespace ModuleResolution

structure SessionReport where
  registry : Registry
  diagnostics : List Diagnostic
  outcomes : List EdgeOutcome

namespace SessionReport

def ofSession (s : Session Walk) : SessionReport :=
  ⟨s.engine.registry, s.engine.diagnostics, s.client.outcomes⟩

def hasErrors (r : SessionReport) : Bool :=
  Diagnostic.anyError r.diagnostics

def module? (r : SessionReport) (c : Coordinates) : Option ModuleId :=
  r.registry.find? c

end SessionReport

namespace Plan

def descriptors (p : Plan) : Descriptors :=
  p.artifacts.filterMap fun a => a.binaryVersion.map fun v => (a.coordinates, v)

def environment (p : Plan) (config : Config) (overrides : Option Overrides) : Environment where
  config := config
  platform := config.platform
  descriptors := p.descriptors
  overrides := overrides
  sources := p.sources.map (·.coordinates.name)

/--
How deep walks can nest: no source module and no artifact is entered twice at a time, and the
foundational and the default module may share an artifact.
-/
def depth (p : Plan) : Nat :=
  p.sources.length + p.artifacts.length + 1

def resolveFoundational (p : Plan) (env : Environment) (deeper : Option Visitor) : WalkM Unit := do
  match p.artifact? env.config.foundational with
  | none => return
  | some a =>
      let id := Registry.foundational
      let edge : Import := ⟨id, false, true, none⟩
      let resolution ← ResolveM.resolve env (Walk.compileSource p env deeper)
        ⟨a.artifact, id, edge, .start id, true⟩
      Walk.conclude deeper ⟨id, edge, .start id, true⟩ resolution

def resolveSource (p : Plan) (env : Environment) (deeper : Option Visitor) (s : SourceModule) :
    WalkM Unit := do
  let id ← ResolveM.ensure env s.coordinates
  unless ((← ResolveM.registry).module id).available do
    discard <| ResolveM.resolve env (Walk.compileSource p env deeper)
      ⟨s.artifact, id, ⟨id, false, false, none⟩, .start id, true⟩

def resolveAll (p : Plan) (env : Environment) (deeper : Option Visitor) : WalkM Unit := do
  p.resolveFoundational env deeper
  p.sources.forM (p.resolveSource env deeper)

def session (p : Plan) (config : Config) (overrides : Option Overrides) :
    Except ResolveError Unit × Session Walk :=
  let env := p.environment config overrides
  p.resolveAll env (Walk.visitor? p env p.depth) ⟨Engine.start config.foundational, Walk.start⟩

def run (p : Plan) (config : Config) (overrides : Option Overrides) :
    Except ResolveError SessionReport :=
  let (result, s) := p.session config overrides
  result.map fun _ => SessionReport.ofSession (s.onEngine Engine.withImplicitImports)

end Plan

end ModuleResolution
