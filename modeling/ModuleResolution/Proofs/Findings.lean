import ModuleResolution.Proofs.Sources

namespace ModuleResolution

namespace Task

inductive Reports (p : Plan) (env : Environment) (s t : Session Walk) :
    Task → List Diagnostic → Prop
  | nothing {task : Task} : Reports p env s t task []
  | absent {v : Visit}
      (hlocate : Walk.locate? p env (s.target v) = none)
      (hlogged : t.client.outcomes = s.client.outcomes ++ [⟨v.importer, v.edge.target, none⟩]) :
      Reports p env s t (visit v) [⟨.error, .declaration v.trail.root v.edge.target,
        env.platform.reworded (s.target v).coordinates
          (.moduleNotFound (s.target v).name (s.target v).version)⟩]
  | skipped {v : Visit} {c : Conflict} {severity : Severity} :
      Reports p env s t (visit v) [⟨severity, .module v.trail.root, c.issue⟩]
  | loaded {v : Visit} {m : Module}
      (hsupplied : env.platform.supplies (s.target v).coordinates = false)
      (hcoordinates : m.coordinates = (s.target v).coordinates) :
      Reports p env s t (visit v) ((Engine.formatIssues env m).map
        fun issue => ⟨.error, .declaration v.trail.root v.edge.target, issue⟩)
  | declared {n : ModuleId} {trail : Trail} {d : Dependency} {e : Engine} :
      Reports p env s t (declare n trail d) ((e.importAdvice env n (s.declaredEdge env d)).map
        fun issue => ⟨.warning .importsOtherPlatform, .importOf n (s.declaredEdge env d).target,
          issue⟩)
  | refused {src : SourceModule} {id : ModuleId} {c : Conflict} {severity : Severity}
      (hfound : t.registry.find? src.coordinates = some id) :
      Reports p env s t (root src) [⟨severity, .module id, c.issue⟩]

end Task

theorem Session.found_ensure {env : Environment} {s : Session Walk} {c : Coordinates} {e : Engine}
    {id : ModuleId} (hr : s.registry.Indexed) (h : s.engine.ensure env c = (e, id)) :
    e.registry.find? c = some id := by
  obtain rfl : (s.engine.ensure env c).1 = e := congrArg Prod.fst h
  obtain rfl : (s.engine.ensure env c).2 = id := congrArg Prod.snd h
  exact Registry.find?_ensure_self hr

namespace Agenda

variable {p : Plan} {env : Environment} {s t : Session Walk} {task : Task} {left rest : List Task}

theorem Coherent.reports_of_step (h : Coherent p env ⟨s, task :: rest⟩)
    (hs : task.Step p env s t left) :
    ∃ new, t.engine.diagnostics = s.engine.diagnostics ++ new ∧ task.Reports p env s t new := by
  cases hs with
  | done | supplied | deferred | entered | finished =>
      exact ⟨[], (List.append_nil _).symm, .nothing⟩
  | missing _ hlocate => exact ⟨_, rfl, .absent hlocate rfl⟩
  | skipped => exact ⟨_, rfl, .skipped⟩
  | @loaded v a e l hdone hlocate hsource hsupplied hclear hneeded hload =>
      have hid := h.targets v List.mem_cons_self
      refine ⟨_, Engine.diagnostics_load hid hload, .loaded hsupplied ?_⟩
      exact (Engine.evolves_loadedRegistry env a hid).coordinates hid
  | declared => exact ⟨_, Engine.diagnostics_declareImport env _ _ _, .declared⟩
  | @present src e id hensure | @opened src declared e id hensure =>
      obtain rfl : (s.engine.ensure env src.coordinates).1 = e := congrArg Prod.fst hensure
      exact ⟨[], (List.append_nil _).symm, .nothing⟩
  | @refused src e id c hensure =>
      have hfound := Session.found_ensure h.session.indexed hensure
      obtain rfl : (s.engine.ensure env src.coordinates).1 = e := congrArg Prod.fst hensure
      exact ⟨_, rfl, .refused hfound⟩

end Agenda

end ModuleResolution
