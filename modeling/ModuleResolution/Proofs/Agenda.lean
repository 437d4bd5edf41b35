import Mathlib.Logic.Relation
import ModuleResolution.Plan.Run
import ModuleResolution.Proofs.Load
import ModuleResolution.Proofs.Resolve

namespace ModuleResolution

inductive Task where
  | visit (v : Visit)
  | declare (importer : ModuleId) (trail : Trail) (d : Dependency)
  | finish (id : ModuleId)
  | root (s : SourceModule)

def Walk.record (w : Walk) (importer module : ModuleId) (resolution : Option Resolution) : Walk :=
  { w with outcomes := w.outcomes ++ [⟨importer, module, resolution⟩] }

namespace Session

abbrev registry (s : Session Walk) : Registry :=
  s.engine.registry

abbrev coordinates (s : Session Walk) (n : ModuleId) : Coordinates :=
  (s.registry.module n).coordinates

abbrev target (s : Session Walk) (v : Visit) : Module :=
  s.registry.module v.edge.target

def entered (s : Session Walk) : List ModuleId :=
  s.engine.inProgress ++ s.client.compiled ++ s.client.loaded

def answer (s : Session Walk) (v : Visit) (e : Engine) (resolution : Option Resolution) :
    Session Walk :=
  ⟨e, s.client.record v.importer v.edge.target resolution⟩

def noteLoaded (s : Session Walk) (id : ModuleId) : Session Walk :=
  s.onClient fun w => { w with loaded := id :: w.loaded }

def enter (s : Session Walk) (trail : Trail) (id : ModuleId) : Session Walk :=
  ⟨s.engine.enter id,
    if id = trail.root then s.client else s.client.record trail.last id (some .fromSource)⟩

theorem length_entered_noteLoaded {s : Session Walk} {e : Engine} (v : Visit)
    (resolution : Option Resolution) (h : e.inProgress = s.engine.inProgress) :
    ((s.answer v e resolution).noteLoaded v.edge.target).entered.length = s.entered.length + 1 := by
  simp [entered, noteLoaded, onClient, answer, Walk.record, h]
  omega

theorem length_entered_enter (s : Session Walk) (trail : Trail) (id : ModuleId) :
    (s.enter trail id).entered.length = s.entered.length + 1 := by
  simp only [entered, enter]
  split <;> simp [Engine.enter, Walk.record] <;> omega

def finish (s : Session Walk) (id : ModuleId) : Session Walk :=
  ⟨(s.engine.modifyModule id (·.markAvailable)).leave,
    { s.client with compiled := id :: s.client.compiled }⟩

def declaredEdge (env : Environment) (s : Session Walk) (d : Dependency) : Import :=
  ⟨(s.engine.ensure env d.coordinates).2, d.optional, d.exported, none⟩

def declare (env : Environment) (s : Session Walk) (importer : ModuleId) (d : Dependency) :
    Session Walk :=
  ⟨(s.engine.ensure env d.coordinates).1.declareImport env importer (s.declaredEdge env d),
    s.client⟩

def importedEdge (env : Environment) (s : Session Walk) (importer : ModuleId) (d : Dependency) :
    Import :=
  (((s.declare env importer d).registry.module importer).import?
    (s.declaredEdge env d).target).getD (s.declaredEdge env d)

end Session

namespace Task

def ofLoaded (r : Registry) (id : ModuleId) (trail : Trail) (onBuildPath : Bool) : List Task :=
  (r.module id).imports.map fun i => visit ⟨id, i, trail.extend id, onBuildPath && i.exported⟩

def ofSource (id : ModuleId) (trail : Trail) (s : SourceModule) : List Task :=
  s.imports.map (declare id (trail.extend id)) ++ [finish id]

inductive Step (p : Plan) (env : Environment) :
    Session Walk → Task → Session Walk → List Task → Prop
  | done {s : Session Walk} {v : Visit}
      (hdone : s.client.isDone v.edge.target = true) :
      Step p env s (visit v) s []
  | missing {s : Session Walk} {v : Visit}
      (hdone : s.client.isDone v.edge.target = false)
      (hlocate : Walk.locate? p env (s.target v) = none) :
      Step p env s (visit v) (s.answer v (s.engine.reportAtRoot env v.edge v.trail
        (.moduleNotFound (s.target v).name (s.target v).version)) none) []
  | supplied {s : Session Walk} {v : Visit} {a : Artifact}
      (hdone : s.client.isDone v.edge.target = false)
      (hlocate : Walk.locate? p env (s.target v) = some a)
      (hsource : env.isSource (s.target v).name = false)
      (hsupplied : env.platform.supplies (s.target v).coordinates = true) :
      Step p env s (visit v)
        (s.answer v (s.engine.modifyModule v.edge.target env.platform.setUp) (some .platform)) []
  | skipped {s : Session Walk} {v : Visit} {a : Artifact} {c : Conflict}
      (hdone : s.client.isDone v.edge.target = false)
      (hlocate : Walk.locate? p env (s.target v) = some a)
      (hchecked : env.isSource (s.target v).name = true ∨
        env.platform.supplies (s.target v).coordinates = false ∧ v.onBuildPath = true)
      (hconflict : s.registry.conflict? v.edge.target = some c) :
      Step p env s (visit v)
        (s.answer v (s.engine.reportConflict c v.trail) (some (.skipped c))) []
  | deferred {s : Session Walk} {v : Visit} {a : Artifact}
      (hdone : s.client.isDone v.edge.target = false)
      (hlocate : Walk.locate? p env (s.target v) = some a)
      (hsource : env.isSource (s.target v).name = false)
      (hsupplied : env.platform.supplies (s.target v).coordinates = false)
      (hpath : v.onBuildPath = false)
      (hanyway : Engine.loadsAnyway env v.edge.target = false) :
      Step p env s (visit v) (s.answer v s.engine (some .deferred)) []
  | loaded {s : Session Walk} {v : Visit} {a : Artifact} {e : Engine} {l : Loaded}
      (hdone : s.client.isDone v.edge.target = false)
      (hlocate : Walk.locate? p env (s.target v) = some a)
      (hsource : env.isSource (s.target v).name = false)
      (hsupplied : env.platform.supplies (s.target v).coordinates = false)
      (hclear : v.onBuildPath = true → s.registry.conflict? v.edge.target = none)
      (hneeded : v.onBuildPath = true ∨ Engine.loadsAnyway env v.edge.target = true)
      (hload : s.engine.load env a v.edge.target v.edge v.trail = (e, l)) :
      Step p env s (visit v) ((s.answer v e (some (.ofLoaded l))).noteLoaded v.edge.target)
        (ofLoaded e.registry v.edge.target v.trail v.onBuildPath)
  | entered {s : Session Walk} {v : Visit} {a : Artifact} {src : SourceModule}
      (hdone : s.client.isDone v.edge.target = false)
      (hlocate : Walk.locate? p env (s.target v) = some a)
      (hsource : env.isSource (s.target v).name = true)
      (hclear : s.registry.conflict? v.edge.target = none)
      (hidle : v.edge.target ∉ s.engine.inProgress)
      (hdeclared : p.source? (s.target v).coordinates = some src) :
      Step p env s (visit v) (s.enter v.trail v.edge.target)
        (ofSource v.edge.target v.trail src)
  | declared {s : Session Walk} {importer : ModuleId} {trail : Trail} {d : Dependency} :
      Step p env s (declare importer trail d) (s.declare env importer d)
        [visit ⟨importer, s.importedEdge env importer d, trail, true⟩]
  | finished {s : Session Walk} {id : ModuleId} :
      Step p env s (finish id) (s.finish id) []
  | present {s : Session Walk} {src : SourceModule} {e : Engine} {id : ModuleId}
      (hensure : s.engine.ensure env src.coordinates = (e, id))
      (havailable : (e.registry.module id).available = true) :
      Step p env s (root src) ⟨e, s.client⟩ []
  | refused {s : Session Walk} {src : SourceModule} {e : Engine} {id : ModuleId} {c : Conflict}
      (hensure : s.engine.ensure env src.coordinates = (e, id))
      (havailable : (e.registry.module id).available = false)
      (hconflict : e.registry.conflict? id = some c) :
      Step p env s (root src) ⟨e.reportConflict c (.start id), s.client⟩ []
  | opened {s : Session Walk} {src declared : SourceModule} {e : Engine} {id : ModuleId}
      (hensure : s.engine.ensure env src.coordinates = (e, id))
      (havailable : (e.registry.module id).available = false)
      (hsource : env.isSource (e.registry.module id).name = true)
      (hclear : e.registry.conflict? id = none)
      (hidle : id ∉ e.inProgress)
      (hdeclared : p.source? (e.registry.module id).coordinates = some declared) :
      Step p env s (root src) ((⟨e, s.client⟩ : Session Walk).enter (.start id) id)
        (ofSource id (.start id) declared)

end Task

structure Agenda where
  session : Session Walk
  tasks : List Task

def Visit.foundational : Visit :=
  ⟨Registry.foundational, ⟨Registry.foundational, false, true, none⟩,
    .start Registry.foundational, true⟩

def Visit.Located (p : Plan) (env : Environment) (s : Session Walk) (v : Visit) : Prop :=
  (Walk.locate? p env (s.target v)).isSome = true ∨
    v = .foundational ∧ (p.artifact? (s.target v).coordinates).isSome = true

def ResolveError.undeclared (c : Coordinates) : ResolveError :=
  .source c.render "no source module with this version"

inductive Visit.Fails (p : Plan) (env : Environment) (s : Session Walk) (v : Visit) :
    ResolveError → Prop
  | cycle
      (hsource : env.isSource (s.target v).name = true)
      (hclear : s.registry.conflict? v.edge.target = none)
      (hbusy : v.edge.target ∈ s.engine.inProgress) :
      Fails p env s v (.cycle (s.engine.cycleThrough v.edge.target))
  | undeclared
      (hlocated : v.Located p env s)
      (hsource : env.isSource (s.target v).name = true)
      (hclear : s.registry.conflict? v.edge.target = none)
      (hundeclared : p.source? (s.target v).coordinates = none) :
      Fails p env s v (.undeclared (s.target v).coordinates)

namespace Agenda

inductive Next (p : Plan) (env : Environment) : Agenda → Agenda → Prop
  | step {s t : Session Walk} {task : Task} {left rest : List Task}
      (h : task.Step p env s t left) : Next p env ⟨s, task :: rest⟩ ⟨t, left ++ rest⟩

abbrev Leads (p : Plan) (env : Environment) : Agenda → Agenda → Prop :=
  Relation.ReflTransGen (Next p env)

inductive Enters (p : Plan) (env : Environment) : Nat → Agenda → Prop
  | none {a : Agenda} : Enters p env 0 a
  | next {n : Nat} {a b : Agenda} (h : Next p env a b) (hb : Enters p env n b) : Enters p env n a
  | enter {n : Nat} {a b : Agenda} (h : Next p env a b)
      (hbegins : b.session.entered.length = a.session.entered.length + 1) (hb : Enters p env n b) :
      Enters p env (n + 1) a

/--
What a walk does from an agenda on, seen from how it ends. A walk that succeeds has done all but
the tasks in `rest`. One that fails has come to an edge where it has to, or it has entered `depth`
modules and is not to enter more.
-/
inductive Follows (p : Plan) (env : Environment) (depth : Nat) (a : Agenda) (rest : List Task) :
    Except ResolveError Unit × Session Walk → Prop
  | done {t : Session Walk} (h : Leads p env a ⟨t, rest⟩) : Follows p env depth a rest (.ok (), t)
  | failed {s t : Session Walk} {v : Visit} {above : List Task} {e : ResolveError}
      (h : Leads p env a ⟨s, .visit v :: above⟩) (hfails : v.Fails p env s e)
      (ht : t.registry = s.registry) : Follows p env depth a rest (.error e, t)
  | tooDeep {t : Session Walk} (h : Enters p env depth a) :
      Follows p env depth a rest (.error .tooDeep, t)

variable {p : Plan} {env : Environment} {s t : Session Walk} {rest : List Task} {a b : Agenda}
  {depth : Nat} {result : Except ResolveError Unit × Session Walk}

theorem Enters.of_leads (h : Leads p env a b) (hb : Enters p env depth b) :
    Enters p env depth a := by
  induction h using Relation.ReflTransGen.head_induction_on with
  | refl => exact hb
  | head hn _ ih => exact .next hn ih

namespace Follows

theorem of_leads (h : Leads p env a b) (hb : Follows p env depth b rest result) :
    Follows p env depth a rest result := by
  cases hb with
  | done hb => exact .done (h.trans hb)
  | failed hb hfails ht => exact .failed (h.trans hb) hfails ht
  | tooDeep hb => exact .tooDeep (hb.of_leads h)

theorem of_step {task : Task} {left above : List Task} (h : task.Step p env s t left)
    (ht : Follows p env depth ⟨t, left ++ above⟩ rest result) :
    Follows p env depth ⟨s, task :: above⟩ rest result :=
  ht.of_leads (.single (.step h))

theorem enter {task : Task} {left above : List Task} (h : task.Step p env s t left)
    (hbegins : t.entered.length = s.entered.length + 1)
    (ht : Follows p env depth ⟨t, left ++ above⟩ rest result) :
    Follows p env (depth + 1) ⟨s, task :: above⟩ rest result := by
  cases ht with
  | done ht => exact .done (.head (.step h) ht)
  | failed ht hfails hregistry => exact .failed (.head (.step h) ht) hfails hregistry
  | tooDeep ht => exact .tooDeep (.enter (.step h) hbegins ht)

theorem bind {m : WalkM Unit} {f : Unit → WalkM Unit} {above : List Task}
    (hm : Follows p env depth a above (m s))
    (hf : ∀ t, Leads p env a ⟨t, above⟩ → Follows p env depth ⟨t, above⟩ rest (f () t)) :
    Follows p env depth a rest ((m >>= f) s) := by
  rw [ResolveM.bind_apply]
  generalize m s = result at hm
  cases hm with
  | done h => exact (hf _ h).of_leads h
  | failed h hfails ht => exact .failed h hfails ht
  | tooDeep h => exact .tooDeep h

end Follows

def Simulates (p : Plan) (env : Environment) (depth : Nat) (visit : Visitor) : Prop :=
  ∀ v s rest, Follows p env depth ⟨s, .visit v :: rest⟩ rest (visit v s)

def Descends (p : Plan) (env : Environment) (depth : Nat) : Option Visitor → Prop
  | some visit => Simulates p env depth visit
  | none => depth = 0

theorem follows_forM {α : Type} {f : α → WalkM Unit} (task : α → Task)
    (hf : ∀ a s rest, Follows p env depth ⟨s, task a :: rest⟩ rest (f a s)) (as : List α)
    (rest : List Task) :
    Follows p env depth ⟨s, as.map task ++ rest⟩ rest (as.forM f s) := by
  induction as generalizing s with
  | nil => exact .done .refl
  | cons a as ih =>
      change Follows p env depth _ rest ((f a >>= fun _ => as.forM f) s)
      exact (hf a s _).bind fun t _ => ih

theorem follows_walkImports {deeper : Option Visitor} (hdeeper : Descends p env depth deeper)
    (id : ModuleId) (trail : Trail) (path : Bool) :
    Follows p env depth ⟨s, Task.ofLoaded s.registry id trail path ++ rest⟩ rest
      (Walk.walkImports deeper id trail path s) := by
  cases deeper with
  | none =>
      obtain rfl : depth = 0 := hdeeper
      exact .tooDeep .none
  | some visit =>
      exact follows_forM (fun i => .visit ⟨id, i, trail.extend id, path && i.exported⟩)
        (fun i s rest => hdeeper _ s rest) _ rest

theorem follows_compileImport {visit : Visitor} (hvisit : Simulates p env depth visit)
    (importer : ModuleId) (trail : Trail) (d : Dependency) :
    Follows p env depth ⟨s, .declare importer trail d :: rest⟩ rest
      (Walk.compileImport env visit importer trail d s) :=
  .of_step .declared (hvisit _ _ rest)

theorem delegate_of_undeclared {deeper : Option Visitor} (req : Request)
    (hundeclared : p.source? (s.registry.module req.module).coordinates = none) :
    ResolveM.delegate (Walk.compileSource p env deeper) req s =
      (.error (.undeclared (s.registry.module req.module).coordinates),
        (s.onEngine (·.enter req.module)).onEngine Engine.leave) := by
  have hregistry : (ResolveM.registry : WalkM Registry) (s.onEngine (·.enter req.module)) =
      (.ok s.registry, s.onEngine (·.enter req.module)) := rfl
  simp only [ResolveM.delegate, Walk.compileSource, ResolveM.bind_apply, hregistry, hundeclared,
    ResolveM.throw_apply]
  rfl

theorem compileSource_apply {deeper : Option Visitor} {req : Request} {src : SourceModule}
    (hdeclared : p.source? (s.registry.module req.module).coordinates = some src) :
    Walk.compileSource p env deeper req (s.onEngine (·.enter req.module)) = (do
      let visit ← Walk.descend deeper
      src.imports.forM (Walk.compileImport env visit req.module (req.trail.extend req.module))
      modify (Session.onEngine (·.modifyModule req.module (·.markAvailable)))
      Walk.noteCompiled req.module : WalkM Unit) (s.enter req.trail req.module) := by
  have hregistry : (ResolveM.registry : WalkM Registry) (s.onEngine (·.enter req.module)) =
      (.ok s.registry, s.onEngine (·.enter req.module)) := rfl
  rw [Walk.compileSource, ResolveM.bind_apply, hregistry]
  simp only [hdeclared]
  -- whether the entry is logged or not, what follows is the same
  by_cases hroot : req.module = req.trail.root
  · rw [if_pos hroot, Session.enter, if_pos hroot]
    rfl
  · rw [if_neg hroot, Session.enter, if_neg hroot, ResolveM.bind_apply]
    rfl

theorem follows_delegate {deeper : Option Visitor} {src : SourceModule}
    (hdeeper : Descends p env depth deeper) (req : Request) (rest : List Task)
    (hdeclared : p.source? (s.registry.module req.module).coordinates = some src) :
    Follows p env depth
      ⟨s.enter req.trail req.module, Task.ofSource req.module req.trail src ++ rest⟩ rest
      (ResolveM.delegate (Walk.compileSource p env deeper) req s) := by
  rw [ResolveM.delegate, compileSource_apply hdeclared]
  cases deeper with
  | none =>
      obtain rfl : depth = 0 := hdeeper
      exact .tooDeep .none
  | some visit =>
      have himports := follows_forM (s := s.enter req.trail req.module)
        (.declare req.module (req.trail.extend req.module))
        (fun d s rest => follows_compileImport hdeeper req.module _ d) src.imports
        (.finish req.module :: rest)
      rw [Walk.descend, ResolveM.bind_apply, ResolveM.pure_apply]
      simp only [ResolveM.bind_apply]
      generalize (src.imports.forM (Walk.compileImport env visit req.module
        (req.trail.extend req.module)) : WalkM Unit) (s.enter req.trail req.module) = result
        at himports ⊢
      rw [Task.ofSource, List.append_assoc]
      cases himports with
      | done h => exact .done (h.trans (.single (.step .finished)))
      | failed h hfails ht => exact .failed h hfails ht
      | tooDeep h => exact .tooDeep h

theorem follows_conclude {deeper : Option Visitor} {resolution : Resolution}
    (hdeeper : Descends p env depth deeper) (v : Visit) (hloaded : resolution.isLoaded = true) :
    Follows p env depth
      ⟨(s.answer v s.engine (some resolution)).noteLoaded v.edge.target,
        Task.ofLoaded s.registry v.edge.target v.trail v.onBuildPath ++ rest⟩ rest
      (Walk.conclude deeper v resolution s) := by
  cases resolution with
  | fromSource | skipped | platform | deferred => cases hloaded
  | compiled | nativeArchive => exact follows_walkImports hdeeper _ _ _

theorem locate?_of_source {m : Module} {src : SourceModule} (hsource : env.isSource m.name = true)
    (hdeclared : p.source? m.coordinates = some src) :
    Walk.locate? p env m = some src.artifact := by
  simp [Walk.locate?, hsource, hdeclared]

theorem follows_resolve {deeper : Option Visitor} {v : Visit} {a : Artifact}
    (hdeeper : Descends p env depth deeper)
    (hdone : s.client.isDone v.edge.target = false)
    (hlocated : v.Located p env s)
    (hlocate : Walk.locate? p env (s.target v) = some a ∨
      env.isSource (s.target v).name = true ∧ s.registry.conflict? v.edge.target = none) :
    Follows p env (depth + 1) ⟨s, .visit v :: rest⟩ rest
      ((ResolveM.resolve env (Walk.compileSource p env deeper)
        ⟨a, v.edge.target, v.edge, v.trail, v.onBuildPath⟩ >>= Walk.conclude deeper v) s) := by
  have hbinary (hsource : env.isSource (s.target v).name = false) :
      Walk.locate? p env (s.target v) = some a :=
    hlocate.resolve_right fun hs => Bool.false_ne_true (hsource.symm.trans hs.1)
  simp only [ResolveM.bind_apply, ResolveM.resolve_apply]
  -- one case for each decision of the engine, which is the step that the machine takes
  have hdecides := Engine.decides_step env s.engine
    ⟨a, v.edge.target, v.edge, v.trail, v.onBuildPath⟩
  generalize s.engine.step env ⟨a, v.edge.target, v.edge, v.trail, v.onBuildPath⟩ = decided
    at hdecides ⊢
  cases hdecides with
  | supplied hsource hsupplied =>
      exact .of_step (.supplied hdone (hbinary hsource) hsource hsupplied) (.done .refl)
  | skipped hchecked hconflict =>
      have hlocate := hlocate.resolve_right fun hs => by cases hs.2.symm.trans hconflict
      exact .of_step (.skipped hdone hlocate hchecked hconflict) (.done .refl)
  | cycle hsource hclear hbusy => exact .failed .refl (.cycle hsource hclear hbusy) rfl
  | delegate hsource hclear hidle =>
      cases hsrc : p.source? (s.target v).coordinates with
      | none =>
          rw [delegate_of_undeclared ⟨a, v.edge.target, v.edge, v.trail, v.onBuildPath⟩ hsrc]
          exact .failed .refl (.undeclared hlocated hsource hclear hsrc) rfl
      | some src =>
          have hbelow := follows_delegate hdeeper
            ⟨a, v.edge.target, v.edge, v.trail, v.onBuildPath⟩ rest hsrc
          have hfollows := hbelow.enter
            (.entered hdone (locate?_of_source hsource hsrc) hsource hclear hidle hsrc)
            (Session.length_entered_enter s _ _)
          generalize ResolveM.delegate _ _ s = result at hfollows ⊢
          cases hfollows with
          | done h => exact .done h
          | failed h hfails ht => exact .failed h hfails ht
          | tooDeep h => exact .tooDeep h
  | load hsource hsupplied hclear hneeded =>
      rcases hload : s.engine.load env a v.edge.target v.edge v.trail with ⟨e, l⟩
      exact .enter (.loaded hdone (hbinary hsource) hsource hsupplied hclear hneeded hload)
        (Session.length_entered_noteLoaded v _ (Engine.inProgress_load hload))
        (follows_conclude hdeeper (s := ⟨e, s.client⟩) v (Resolution.isLoaded_ofLoaded l))
  | deferred hsource hsupplied hpath hanyway =>
      exact .of_step (.deferred hdone (hbinary hsource) hsource hsupplied hpath hanyway)
        (.done .refl)

theorem follows_visitEdge {deeper : Option Visitor} (hdeeper : Descends p env depth deeper) :
    Simulates p env (depth + 1) (Walk.visitEdge p env deeper) := by
  intro v s rest
  simp only [Walk.visitEdge, ResolveM.bind_apply, ResolveM.get_apply]
  cases hdone : s.client.isDone v.edge.target with
  | true => exact .of_step (.done hdone) (.done .refl)
  | false =>
      simp only [Bool.false_eq_true, if_false]
      cases hlocate : Walk.locate? p env (s.target v) with
      | none => exact .of_step (.missing hdone hlocate) (.done .refl)
      | some a => exact follows_resolve hdeeper hdone (.inl (hlocate ▸ rfl)) (.inl hlocate)

theorem descends_visitor? (p : Plan) (env : Environment) (depth : Nat) :
    Descends p env depth (Walk.visitor? p env depth) := by
  induction depth with
  | zero => rfl
  | succ depth ih => exact follows_visitEdge ih

end Agenda

end ModuleResolution
