import ModuleResolution.Engine.Resolve
import ModuleResolution.Plan

namespace ModuleResolution

structure EdgeOutcome where
  importer : ModuleId
  module : ModuleId
  resolution : Option Resolution
  deriving DecidableEq, Repr

structure Walk where
  outcomes : List EdgeOutcome
  loaded : List ModuleId
  compiled : List ModuleId

abbrev WalkM := ResolveM Walk

structure Visit where
  importer : ModuleId
  edge : Import
  trail : Trail
  onBuildPath : Bool

abbrev Visitor := Visit → WalkM Unit

namespace Walk

def start : Walk :=
  ⟨[], [], []⟩

def isDone (w : Walk) (id : ModuleId) : Bool :=
  w.loaded.contains id || w.compiled.contains id

def log (importer module : ModuleId) (resolution : Option Resolution) : WalkM Unit :=
  modify <| Session.onClient fun w =>
    { w with outcomes := w.outcomes ++ [⟨importer, module, resolution⟩] }

def noteLoaded (id : ModuleId) : WalkM Unit :=
  modify <| Session.onClient fun w => { w with loaded := id :: w.loaded }

def noteCompiled (id : ModuleId) : WalkM Unit :=
  modify <| Session.onClient fun w => { w with compiled := id :: w.compiled }

def descend : Option Visitor → WalkM Visitor
  | some visitor => return visitor
  | none => throw .tooDeep

def walkImports (deeper : Option Visitor) (id : ModuleId) (trail : Trail) (onBuildPath : Bool) :
    WalkM Unit := do
  let visit ← descend deeper
  let imports := ((← ResolveM.registry).module id).imports
  imports.forM fun i => visit ⟨id, i, trail.extend id, onBuildPath && i.exported⟩

def conclude (deeper : Option Visitor) (v : Visit) (resolution : Resolution) : WalkM Unit := do
  unless resolution = .fromSource do
    log v.importer v.edge.target (some resolution)
  if resolution.isLoaded then
    noteLoaded v.edge.target
    walkImports deeper v.edge.target v.trail v.onBuildPath

def compileImport (env : Environment) (visit : Visitor) (importer : ModuleId) (trail : Trail)
    (declared : Dependency) : WalkM Unit := do
  let target ← ResolveM.ensure env declared.coordinates
  let declaredEdge : Import := ⟨target, declared.optional, declared.exported, none⟩
  modify (Session.onEngine fun e => e.declareImport env importer declaredEdge)
  let edge := (((← ResolveM.registry).module importer).import? target).getD declaredEdge
  visit ⟨importer, edge, trail, true⟩

def compileSource (plan : Plan) (env : Environment) (deeper : Option Visitor) :
    SourceResolver Walk := fun req => do
  let c := ((← ResolveM.registry).module req.module).coordinates
  match plan.source? c with
  | none => throw (.source c.render "no source module with this version")
  | some source =>
      unless req.module = req.trail.root do
        log req.trail.last req.module (some .fromSource)
      let visit ← descend deeper
      source.imports.forM (compileImport env visit req.module (req.trail.extend req.module))
      modify (Session.onEngine (·.modifyModule req.module (·.markAvailable)))
      noteCompiled req.module

def locate? (plan : Plan) (env : Environment) (m : Module) : Option Artifact :=
  let planned := if env.isSource m.name then
      (plan.source? m.coordinates).map SourceModule.artifact
    else
      (plan.artifact? m.coordinates).map PlannedArtifact.artifact
  planned.or (if m.fromPlatform && m.available then some (.bare m.coordinates) else none)

def visitEdge (plan : Plan) (env : Environment) (deeper : Option Visitor) : Visitor := fun v => do
  let id := v.edge.target
  let s ← get
  unless s.client.isDone id do
    let m := s.engine.registry.module id
    match locate? plan env m with
    | some artifact =>
        let resolution ← ResolveM.resolve env (compileSource plan env deeper)
          ⟨artifact, id, v.edge, v.trail, v.onBuildPath⟩
        conclude deeper v resolution
    | none =>
        modify (Session.onEngine fun e =>
          e.reportAtRoot env v.edge v.trail (.moduleNotFound m.name m.version))
        log v.importer id none

def visitor? (plan : Plan) (env : Environment) : (depth : Nat) → Option Visitor
  | 0 => none
  | depth + 1 => some (visitEdge plan env (visitor? plan env depth))

end Walk

end ModuleResolution
