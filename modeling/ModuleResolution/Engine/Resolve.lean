import ModuleResolution.Engine.Load
import ModuleResolution.Engine.Session

namespace ModuleResolution

structure Request where
  artifact : Artifact
  module : ModuleId
  edge : Import
  trail : Trail
  onBuildPath : Bool

inductive Resolution where
  | skipped (c : Conflict)
  | fromSource
  | platform
  | compiled
  | nativeArchive
  | deferred
  deriving DecidableEq, Repr

def Resolution.ofLoaded : Loaded → Resolution
  | .compiled => .compiled
  | .nativeArchive => .nativeArchive

def Resolution.isLoaded : Resolution → Bool
  | .compiled | .nativeArchive => true
  | _ => false

inductive Step where
  | done (engine : Engine) (resolution : Resolution)
  | cycle (chain : List Coordinates)
  | delegate

namespace Engine

def cycleThrough (e : Engine) (id : ModuleId) : List Coordinates :=
  ((e.inProgress.dropWhile (· != id)) ++ [id]).map fun m => (e.registry.module m).coordinates

def loadsAnyway (env : Environment) (id : ModuleId) : Bool :=
  id == Registry.foundational || env.config.loadTransitive

def step (env : Environment) (e : Engine) (req : Request) : Step :=
  let m := e.registry.module req.module
  let fromSource := env.isSource m.name
  if !fromSource && env.platform.supplies m.coordinates then
    .done (e.modifyModule req.module env.platform.setUp) .platform
  else
    let conflict := if fromSource || req.onBuildPath then e.registry.conflict? req.module else none
    match conflict with
    | some c => .done (e.reportConflict c req.trail) (.skipped c)
    | none =>
        if fromSource then
          if e.inProgress.contains req.module then .cycle (e.cycleThrough req.module)
          else .delegate
        else if req.onBuildPath || loadsAnyway env req.module then
          let (e, loaded) := e.load env req.artifact req.module req.edge req.trail
          .done e (.ofLoaded loaded)
        else
          .done e .deferred

end Engine

abbrev SourceResolver (ω : Type) := Request → ResolveM ω Unit

namespace ResolveM

variable {ω : Type}

def delegate (source : SourceResolver ω) (req : Request) : ResolveM ω Unit := fun s =>
  let (result, s) := source req (s.onEngine (·.enter req.module))
  (result, s.onEngine Engine.leave)

def resolve (env : Environment) (source : SourceResolver ω) (req : Request) :
    ResolveM ω Resolution := do
  match (← get).engine.step env req with
  | .done engine resolution =>
      modify (Session.onEngine fun _ => engine)
      return resolution
  | .cycle chain => throw (.cycle chain)
  | .delegate =>
      delegate source req
      return .fromSource

theorem resolve_apply (env : Environment) (source : SourceResolver ω) (req : Request)
    (s : Session ω) :
    resolve env source req s =
      match s.engine.step env req with
      | .done engine resolution => (.ok resolution, s.onEngine fun _ => engine)
      | .cycle chain => (.error (.cycle chain), s)
      | .delegate =>
          let (result, t) := delegate source req s
          (result.map fun _ => .fromSource, t) := by
  simp only [resolve, bind_apply, get_apply]
  cases s.engine.step env req with
  | done engine resolution => rfl
  | cycle chain => rfl
  | delegate =>
      simp only [bind_apply, pure_apply]
      rcases delegate source req s with ⟨result, t⟩
      cases result <;> rfl

end ResolveM

end ModuleResolution
