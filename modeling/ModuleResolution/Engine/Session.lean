import ModuleResolution.Engine

namespace ModuleResolution

inductive ResolveError where
  | source (module message : String)
  | cycle (chain : List Coordinates)
  | tooDeep
  deriving DecidableEq, Repr

def ResolveError.message : ResolveError → String
  | source module message => s!"Failed to resolve module {module} from source: {message}"
  | cycle chain =>
      "Cyclic module imports while resolving from source: " ++
        " -> ".intercalate (chain.map Coordinates.render)
  | tooDeep => "Module imports are nested too deeply"

structure Session (ω : Type) where
  engine : Engine
  client : ω

abbrev ResolveM (ω : Type) := ExceptT ResolveError (StateM (Session ω))

namespace Session

variable {ω : Type}

def onEngine (f : Engine → Engine) (s : Session ω) : Session ω :=
  { s with engine := f s.engine }

def onClient (f : ω → ω) (s : Session ω) : Session ω :=
  { s with client := f s.client }

end Session

namespace ResolveM

variable {ω α β : Type}

theorem pure_apply (a : α) (s : Session ω) : (pure a : ResolveM ω α) s = (.ok a, s) := rfl

theorem bind_apply (m : ResolveM ω α) (f : α → ResolveM ω β) (s : Session ω) :
    (m >>= f) s = match m s with
      | (.ok a, t) => f a t
      | (.error e, t) => (.error e, t) := by
  change (ExceptT.bindCont f (m s).1 : StateM (Session ω) _) (m s).2 = _
  rcases m s with ⟨result, t⟩
  cases result <;> rfl

theorem get_apply (s : Session ω) : (get : ResolveM ω (Session ω)) s = (.ok s, s) := rfl

theorem modify_apply (f : Session ω → Session ω) (s : Session ω) :
    (modify f : ResolveM ω Unit) s = (.ok (), f s) := rfl

theorem throw_apply (e : ResolveError) (s : Session ω) :
    (throw e : ResolveM ω α) s = (.error e, s) := rfl

def registry : ResolveM ω Registry := do
  return (← get).engine.registry

def ensure (env : Environment) (c : Coordinates) : ResolveM ω ModuleId := do
  let (engine, id) := (← get).engine.ensure env c
  modify (Session.onEngine fun _ => engine)
  return id

end ResolveM

end ModuleResolution
