import Mathlib.Logic.Relation
import ModuleResolution.Proofs.Coherent

namespace ModuleResolution

inductive Operation where
  | ensure (c : Coordinates)
  | declareImport (importer : ModuleId) (i : Import)
  | reportAtRoot (i : Import) (trail : Trail) (issue : Issue)
  | addImplicitImports
  | markAvailable (id : ModuleId)
  | revise (f : Registry → Registry)

namespace Operation

def apply (env : Environment) (e : Engine) : Operation → Engine
  | ensure c => (e.ensure env c).1
  | declareImport importer i => e.declareImport env importer i
  | reportAtRoot i trail issue => e.reportAtRoot env i trail issue
  | addImplicitImports => e.withImplicitImports
  | markAvailable id => e.modifyModule id (·.markAvailable)
  | revise f => { e with registry := f e.registry }

def Fits (r : Registry) : Operation → Prop
  | ensure _ | reportAtRoot .. | addImplicitImports | markAvailable _ => True
  | declareImport importer i => importer < r.size ∧ i.target < r.size
  | revise _ => False

theorem inProgress_apply (env : Environment) (e : Engine) (op : Operation) :
    (op.apply env e).inProgress = e.inProgress := by
  cases op with
  | declareImport importer i => exact Engine.inProgress_declareImport env e importer i
  | ensure | reportAtRoot | addImplicitImports | markAvailable | revise => rfl

end Operation

structure Usage where
  allows : Engine → Operation → Prop
  asks : Engine → Request → Prop

structure Moment where
  engine : Engine
  waiting : List ModuleId

namespace Usage

def any : Usage where
  allows _ _ := True
  asks _ _ := True

def proper : Usage where
  allows e op := op.Fits e.registry
  asks e req := req.module < e.registry.size

inductive Moves (u : Usage) (env : Environment) : Moment → Moment → Prop
  | acted {e : Engine} {ids : List ModuleId} {op : Operation} (hallows : u.allows e op) :
      Moves u env ⟨e, ids⟩ ⟨op.apply env e, ids⟩
  | answered {e f : Engine} {ids : List ModuleId} {req : Request} {resolution : Resolution}
      (hasks : u.asks e req) (hstep : e.step env req = .done f resolution) :
      Moves u env ⟨e, ids⟩ ⟨f, ids⟩
  | delegated {e : Engine} {ids : List ModuleId} {req : Request}
      (hasks : u.asks e req) (hstep : e.step env req = .delegate) :
      Moves u env ⟨e, ids⟩ ⟨e.enter req.module, req.module :: ids⟩
  | returned {e : Engine} {id : ModuleId} {ids : List ModuleId} :
      Moves u env ⟨e, id :: ids⟩ ⟨e.leave, ids⟩

abbrev Leads (u : Usage) (env : Environment) : Moment → Moment → Prop :=
  Relation.ReflTransGen (u.Moves env)

def Reaches (u : Usage) (env : Environment) (e f : Engine) : Prop :=
  ∃ ids, u.Leads env ⟨e, []⟩ ⟨f, ids⟩

variable {u : Usage} {env : Environment} {a b : Moment} {e f g : Engine}

theorem Moves.above (h : u.Moves env a b) (ids : List ModuleId) :
    u.Moves env ⟨a.engine, a.waiting ++ ids⟩ ⟨b.engine, b.waiting ++ ids⟩ := by
  cases h with
  | acted hallows => exact .acted hallows
  | answered hasks hstep => exact .answered hasks hstep
  | delegated hasks hstep => exact .delegated hasks hstep
  | returned => exact .returned

theorem Leads.above (h : u.Leads env a b) (ids : List ModuleId) :
    u.Leads env ⟨a.engine, a.waiting ++ ids⟩ ⟨b.engine, b.waiting ++ ids⟩ := by
  induction h with
  | refl => exact .refl
  | tail _ hm ih => exact ih.tail (hm.above ids)

theorem Leads.within (h : u.Leads env ⟨e, []⟩ ⟨f, []⟩) (ids : List ModuleId) :
    u.Leads env ⟨e, ids⟩ ⟨f, ids⟩ :=
  h.above ids

theorem Reaches.refl (e : Engine) : u.Reaches env e e :=
  ⟨[], .refl⟩

theorem Reaches.tail (h : u.Reaches env e f) (hf : u.Leads env ⟨f, []⟩ ⟨g, []⟩) :
    u.Reaches env e g := by
  obtain ⟨ids, hids⟩ := h
  exact ⟨ids, hids.trans (hf.within ids)⟩

theorem Reaches.induction {P : Engine → Prop} (h : u.Reaches env e f) (start : P e)
    (step : ∀ {a b : Moment}, u.Moves env a b → P a.engine → P b.engine) : P f := by
  obtain ⟨ids, hids⟩ := h
  have hall : ∀ b : Moment, u.Leads env ⟨e, []⟩ b → P b.engine := by
    intro b hb
    induction hb with
    | refl => exact start
    | tail _ hm ih => exact step hm ih
  exact hall _ hids

theorem leads_resolve {ω : Type} {source : SourceResolver ω} {req : Request} {s : Session ω}
    (hasks : u.asks s.engine req)
    (hsource : s.engine.step env req = .delegate →
      u.Leads env ⟨s.engine.enter req.module, []⟩
        ⟨(source req (s.onEngine (·.enter req.module))).2.engine, []⟩) :
    u.Leads env ⟨s.engine, []⟩ ⟨(ResolveM.resolve env source req s).2.engine, []⟩ := by
  rw [ResolveM.resolve_apply]
  cases hstep : s.engine.step env req with
  | done f resolution => exact .single (.answered hasks hstep)
  | cycle chain => exact .refl
  | delegate =>
      have hwithin := (hsource hstep).within [req.module]
      exact (Relation.ReflTransGen.head (.delegated hasks hstep) hwithin).tail .returned

end Usage

def Request.needed (a : Artifact) (id : ModuleId) : Request :=
  ⟨a, id, ⟨id, false, false, none⟩, .start id, true⟩

inductive Script (ω : Type) where
  | done
  | fail (error : ResolveError)
  | look (next : Session ω → Script ω)
  | note (f : ω → ω) (next : Script ω)
  | act (op : Operation) (next : Script ω)
  | resolve (req : Request) (source : Script ω)
      (next : Except ResolveError Resolution → Script ω)

namespace ResolveM

variable {ω α : Type}

theorem observing_apply (m : ResolveM ω α) (s : Session ω) :
    (observing m : ResolveM ω (Except ResolveError α)) s = (.ok (m s).1, (m s).2) := by
  change ExceptT.tryCatch (m >>= fun a => pure (.ok a) : ResolveM ω (Except ResolveError α))
    (fun e => pure (.error e)) s = _
  have hm := bind_apply m (fun a => (pure (.ok a) : ResolveM ω (Except ResolveError α))) s
  simp only [ExceptT.tryCatch, ExceptT.mk, bind, StateT.bind] at hm ⊢
  rw [hm]
  rcases m s with ⟨result, t⟩
  cases result <;> rfl

end ResolveM

namespace Script

variable {ω : Type}

def run (env : Environment) : Script ω → ResolveM ω Unit
  | done => pure ()
  | fail error => throw error
  | look next => do (next (← get)).run env
  | note f next => do
      modify (Session.onClient f)
      next.run env
  | act op next => do
      modify (Session.onEngine (op.apply env))
      next.run env
  | resolve req source next => do
      let result ← observing (ResolveM.resolve env (fun _ => source.run env) req)
      (next result).run env

def KeepsTo (u : Usage) (env : Environment) : Script ω → Session ω → Prop
  | done, _ | fail _, _ => True
  | look next, s => (next s).KeepsTo u env s
  | note f next, s => next.KeepsTo u env (s.onClient f)
  | act op next, s =>
      u.allows s.engine op ∧ next.KeepsTo u env (s.onEngine (op.apply env))
  | resolve req source next, s =>
      let call := ResolveM.resolve env (fun _ => source.run env) req s
      u.asks s.engine req ∧
        (s.engine.step env req = .delegate →
          source.KeepsTo u env (s.onEngine (·.enter req.module))) ∧
        (next call.1).KeepsTo u env call.2

theorem keepsTo_any (env : Environment) (script : Script ω) (s : Session ω) :
    script.KeepsTo .any env s := by
  induction script generalizing s with
  | done | fail => trivial
  | look next ih => exact ih s s
  | note f next ih => exact ih _
  | act op next ih => exact ⟨trivial, ih _⟩
  | resolve req source next ihsource ihnext =>
      exact ⟨trivial, fun _ => ihsource _, ihnext _ _⟩

theorem leads_run {u : Usage} {env : Environment} {script : Script ω} {s : Session ω}
    (h : script.KeepsTo u env s) :
    u.Leads env ⟨s.engine, []⟩ ⟨(script.run env s).2.engine, []⟩ := by
  induction script generalizing s with
  | done | fail => exact .refl
  | look next ih => exact ih s h
  | note f next ih => exact ih h
  | act op next ih => exact .head (.acted h.1) (ih h.2)
  | resolve req source next ihsource ihnext =>
      obtain ⟨hasks, hsource, hnext⟩ := h
      rw [run, ResolveM.bind_apply, ResolveM.observing_apply]
      have hcall : u.Leads env ⟨s.engine, []⟩
          ⟨(ResolveM.resolve env (fun _ => source.run env) req s).2.engine, []⟩ :=
        Usage.leads_resolve hasks fun hstep => ihsource (hsource hstep)
      exact hcall.trans (ihnext _ hnext)

end Script

structure Usage.Permits {ω : Type} (u : Usage) (env : Environment) (source : Request → Script ω)
    (req : Request) (s : Session ω) : Prop where
  asks : u.asks s.engine req
  keeps : s.engine.step env req = .delegate →
    (source req).KeepsTo u env (s.onEngine (·.enter req.module))

theorem Usage.Permits.leads {ω : Type} {u : Usage} {env : Environment}
    {source : Request → Script ω} {req : Request} {s : Session ω}
    (h : u.Permits env source req s) :
    u.Leads env ⟨s.engine, []⟩
      ⟨(ResolveM.resolve env (fun req => (source req).run env) req s).2.engine, []⟩ :=
  leads_resolve h.asks fun hstep => Script.leads_run (h.keeps hstep)

end ModuleResolution
