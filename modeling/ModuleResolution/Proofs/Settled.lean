import ModuleResolution.Proofs.Report

namespace ModuleResolution

namespace Session

inductive Settles (p : Plan) (env : Environment) (s : Session Walk) (n : ModuleId) (i : Import) :
    Prop
  | loaded (h : i.target ∈ s.client.loaded)
  | compiled (h : i.target ∈ s.client.compiled)
  | absent (hlt : i.target < s.registry.size)
      (hloads : ¬ p.Loads env (s.registry.module i.target).coordinates)
      (hcompiles : ¬ p.Compiles env (s.registry.module i.target).coordinates)
      (hserved : p.Serves env (s.registry.module i.target).coordinates →
        (s.registry.module i.target).available = true)
  | skipped (c : Conflict) (h : ⟨n, i.target, some (.skipped c)⟩ ∈ s.client.outcomes)
  | deferred (h : ⟨n, i.target, some .deferred⟩ ∈ s.client.outcomes)
      (hpolicy : env.config.loadTransitive = false) (hlt : n < s.registry.size)
      (hsource : env.isSource (s.registry.module n).name = false) (hexported : i.exported = false)
      (htarget : i.target < s.registry.size)
      (hloads : p.Loads env (s.registry.module i.target).coordinates)

variable {p : Plan} {env : Environment} {s t : Session Walk} {n : ModuleId} {i : Import}

theorem Settles.extends (h : s.Settles p env n i) (hst : s.Extends t) : t.Settles p env n i := by
  cases h with
  | loaded h => exact .loaded (hst.loaded h)
  | compiled h => exact .compiled (hst.compiled h)
  | absent hlt hloads hcompiles hserved =>
      have hgrows := hst.grows _ hlt
      rw [← hgrows.coordinates] at hloads hcompiles hserved
      exact .absent (hst.later.lt_size hlt) hloads hcompiles
        fun hserves => hgrows.available (hserved hserves)
  | skipped c h => exact .skipped c (hst.outcomes.subset h)
  | deferred h hpolicy hlt hsource hexported htarget hloads =>
      rw [← (hst.grows _ hlt).name] at hsource
      rw [← (hst.grows _ htarget).coordinates] at hloads
      exact .deferred (hst.outcomes.subset h) hpolicy (hst.later.lt_size hlt) hsource hexported
        (hst.later.lt_size htarget) hloads

theorem mem_outcomes_answer {v : Visit} {e : Engine} {resolution : Option Resolution}
    {o : EdgeOutcome} (ho : o ∈ (s.answer v e resolution).client.outcomes) :
    o ∈ s.client.outcomes ∨ o = ⟨v.importer, v.edge.target, resolution⟩ :=
  (List.mem_append.mp ho).imp_right List.mem_singleton.mp

theorem mem_outcomes_enter {trail : Trail} {id : ModuleId} {o : EdgeOutcome}
    (ho : o ∈ (s.enter trail id).client.outcomes) :
    o ∈ s.client.outcomes ∨ o = ⟨trail.last, id, some .fromSource⟩ := by
  simp only [Session.enter] at ho
  split at ho
  · exact .inl ho
  · exact (List.mem_append.mp ho).imp_right List.mem_singleton.mp

theorem module_declare {d : Dependency} (hn : n < s.registry.size) :
    (s.declare env n d).registry.module n =
      ((s.registry.ensure env.platform d.coordinates).1.module n).addImport
        (s.declaredEdge env d) := by
  have hensure := Registry.evolves_ensure env.platform n s.registry d.coordinates
  rw [registry_declare, Registry.module_modify_self (hensure.lt_size hn)]

theorem coordinates_importedEdge {d : Dependency} (hr : s.registry.Indexed) :
    ((s.declare env n d).registry.module (s.importedEdge env n d).target).coordinates =
      d.coordinates := by
  have hlt : (s.declaredEdge env d).target <
      (s.registry.ensure env.platform d.coordinates).1.size := Registry.ensure_lt_size hr
  rw [importedEdge_target, (evolves_addEdge env s n d).coordinates hlt]
  exact Registry.coordinates_ensure hr

theorem importedEdge_mem {d : Dependency} (hn : n < s.registry.size) :
    s.importedEdge env n d ∈ ((s.declare env n d).registry.module n).imports := by
  rw [importedEdge, module_declare hn]
  generalize (s.registry.ensure env.platform d.coordinates).1.module n = m
  obtain ⟨j, hj⟩ := Option.isSome_iff_exists.mp (Module.imports?_addImport m (s.declaredEdge env d))
  rw [hj]
  exact List.mem_of_find?_eq_some hj

theorem mem_imports_declare {d : Dependency} (hn : n < s.registry.size)
    (hi : i ∈ ((s.declare env n d).registry.module n).imports) :
    i ∈ (s.registry.module n).imports ∨ i = s.importedEdge env n d := by
  have hself : (s.declare env n d).registry.module n = _ := module_declare hn
  have hold := Registry.imports_ensure s.registry env.platform d.coordinates n
  rw [importedEdge, hself]
  rw [hself] at hi
  generalize (s.registry.ensure env.platform d.coordinates).1.module n = m at hi hold ⊢
  cases him : m.imports? (s.declaredEdge env d).target with
  | true =>
      rw [Module.addImport_of_imports? him, hold] at hi
      exact .inl hi
  | false =>
      rw [Module.imports_addImport_of_not him, List.mem_append, hold, List.mem_singleton] at hi
      refine hi.imp_right fun hi => ?_
      have hnone : m.imports.find? (fun j => j.target == (s.declaredEdge env d).target) = none := by
        simpa [Module.imports?, Module.import?] using him
      simp [Module.import?, Module.imports_addImport_of_not him, hnone, hi]

end Session

namespace Agenda

variable {p : Plan} {env : Environment} {s t : Session Walk} {task : Task}
  {left rest above : List Task} {n : ModuleId} {i : Import}

def Due (tasks : List Task) (n : ModuleId) (i : Import) : Prop :=
  (∃ v, .visit v ∈ tasks ∧ v.importer = n ∧ v.edge = i) ∨ .finish i.target ∈ tasks

def Covered (p : Plan) (env : Environment) (members : ModuleId → Prop) (a : Agenda) : Prop :=
  ∀ n, members n → ∀ i ∈ (a.session.registry.module n).imports,
    a.session.Settles p env n i ∨ Due a.tasks n i

def OnPath (env : Environment) (a : Agenda) : Prop :=
  env.config.loadTransitive = false → ∀ v, .visit v ∈ a.tasks → v.onBuildPath = false →
    v.importer < a.session.registry.size ∧
      env.isSource (a.session.registry.module v.importer).name = false ∧ v.edge.exported = false

theorem due_append_left (h : Due left n i) : Due (left ++ above) n i :=
  h.imp (fun ⟨v, hv, hvisit⟩ => ⟨v, List.mem_append_left _ hv, hvisit⟩) (List.mem_append_left _)

theorem due_append_right (h : Due above n i) : Due (left ++ above) n i :=
  h.imp (fun ⟨v, hv, hvisit⟩ => ⟨v, List.mem_append_right _ hv, hvisit⟩) (List.mem_append_right _)

theorem Coherent.due_of_new_edge (h : Coherent p env ⟨s, task :: rest⟩)
    (hs : task.Step p env s t left) (hi : i ∈ (t.registry.module n).imports) :
    i ∈ (s.registry.module n).imports ∨ Due left n i := by
  cases hs with
  | done | missing | skipped | deferred | entered => exact .inl hi
  | supplied =>
      rw [(Session.quiet_supplied env s _ (h.targets _ List.mem_cons_self)).imports] at hi
      exact .inl hi
  | @loaded v a e l hdone hlocate hsource hsupplied hclear hneeded hload =>
      by_cases hne : n = v.edge.target
      · subst hne
        exact .inr (.inl ⟨_, List.mem_map_of_mem hi, rfl, rfl⟩)
      · have hev := Engine.evolves_load (h.targets v List.mem_cons_self) hload
        exact .inl (hev.imports_of_ne hne ▸ hi)
  | @declared importer trail d =>
      by_cases hne : n = importer
      · subst hne
        have hprogress := h.mem_inProgress.mp (List.mem_cons_of_mem _ h.nested.1)
        have hlt := (h.session.sources n (.inl hprogress)).1
        exact (Session.mem_imports_declare hlt hi).imp_right fun hi =>
          .inl ⟨_, List.mem_singleton_self _, rfl, hi.symm⟩
      · exact .inl (Session.imports_declare_of_ne hne ▸ hi)
  | finished =>
      rw [Session.imports_finish env s _ n] at hi
      exact .inl hi
  | present hensure | refused hensure | opened hensure =>
      exact .inl ((Session.quiet_ensure hensure).imports n ▸ hi)

theorem Coherent.settles_of_visit {v : Visit} (h : Coherent p env ⟨s, .visit v :: rest⟩)
    (hpath : OnPath env ⟨s, .visit v :: rest⟩) (hs : (Task.visit v).Step p env s t left) :
    t.Settles p env v.importer v.edge ∨ Due left v.importer v.edge := by
  have hid : v.edge.target < s.registry.size := h.targets v List.mem_cons_self
  cases hs with
  | done hdone => exact .inl ((Walk.isDone_eq_true.mp hdone).elim .loaded .compiled)
  | missing hdone hlocate =>
      have hnone (hsome : (Walk.locate? p env (s.target v)).isSome = true) : False := by
        rw [hlocate] at hsome
        cases hsome
      exact .inl (.absent hid (fun hloads => hnone (Walk.locate?_of_artifact hloads.1 hloads.2.2))
        (fun hcompiles => hnone (Walk.locate?_of_compiles hcompiles))
        fun hserves => (hnone (Walk.locate?_of_artifact hserves.1 hserves.2.2)).elim)
  | supplied hdone hlocate hsource hsupplied =>
      have hq := Session.quiet_supplied env s v hid
      refine .inl (.absent (hq.later.lt_size hid) ?_ ?_ fun _ => ?_)
      · rw [(hq.grows _ hid).coordinates]
        exact fun hloads => Bool.false_ne_true (hloads.2.1.symm.trans hsupplied)
      · rw [(hq.grows _ hid).coordinates]
        exact fun hcompiles => Bool.false_ne_true (hsource.symm.trans hcompiles.1)
      · have hself : (s.registry.modify v.edge.target env.platform.setUp).module v.edge.target =
            env.platform.setUp (s.target v) := Registry.module_modify_self hid
        exact (congrArg Module.available hself).trans (Platform.available_setUp hsupplied)
  | @skipped _ _ c => exact .inl (.skipped c (by simp [Session.answer, Walk.record]))
  | deferred hdone hlocate hsource hsupplied hoff hanyway =>
      have hpolicy : env.config.loadTransitive = false := by
        simp only [Engine.loadsAnyway, Bool.or_eq_false_iff] at hanyway
        exact hanyway.2
      obtain ⟨hlt, himporter, hexported⟩ := hpath hpolicy v List.mem_cons_self hoff
      have hloads : p.Loads env (s.target v).coordinates :=
        h.session.loads_of_locate? hid (Walk.isDone_eq_false.mp hdone).1 hlocate hsource hsupplied
      exact .inl (.deferred (by simp [Session.answer, Walk.record]) hpolicy hlt himporter hexported
        hid hloads)
  | loaded => exact .inl (.loaded List.mem_cons_self)
  | entered => exact .inr (.inr (by simp [Task.ofSource]))

theorem Coherent.settled_step (h : Coherent p env ⟨s, task :: rest⟩)
    (hpath : OnPath env ⟨s, task :: rest⟩) (hs : task.Step p env s t left)
    (hi : s.Settles p env n i ∨ Due (task :: above) n i) :
    t.Settles p env n i ∨ Due (left ++ above) n i := by
  -- only the first task moves, and it settles the edge that it is for
  rcases hi with hsettles | ⟨v, hv, hvisit⟩ | hfinish
  · exact .inl (hsettles.extends (h.extends hs))
  · rcases List.mem_cons.mp hv with hv | hv
    · obtain rfl : .visit v = task := hv
      obtain ⟨rfl, rfl⟩ := hvisit
      exact (h.settles_of_visit hpath hs).imp_right due_append_left
    · exact .inr (due_append_right (.inl ⟨v, hv, hvisit⟩))
  · rcases List.mem_cons.mp hfinish with hfinish | hfinish
    · obtain rfl : .finish i.target = task := hfinish
      cases hs
      exact .inl (.compiled List.mem_cons_self)
    · exact .inr (due_append_right (.inr hfinish))

theorem Coherent.covered_step {members members' : ModuleId → Prop}
    (h : Coherent p env ⟨s, task :: rest⟩) (hpath : OnPath env ⟨s, task :: rest⟩)
    (hs : task.Step p env s t left) (hc : Covered p env members ⟨s, task :: above⟩)
    (hmembers : ∀ n, members' n → members n ∨ (s.registry.module n).imports = []) :
    Covered p env members' ⟨t, left ++ above⟩ := by
  intro n hn i hi
  rcases h.due_of_new_edge hs hi with hi | hdue
  · rcases hmembers n hn with hn | hnil
    · exact h.settled_step hpath hs (hc n hn i hi)
    · rw [hnil] at hi
      cases hi
  · exact .inr (due_append_left hdue)

theorem reported_of_step {o : EdgeOutcome} {c : Conflict} (hs : task.Step p env s t left)
    (ho : o ∈ t.client.outcomes) (hskip : o.resolution = some (.skipped c)) :
    o ∈ s.client.outcomes ∨ ∃ d ∈ t.engine.diagnostics, d.issue.isConflict = true := by
  cases hs with
  | done | declared | finished | present | refused => exact .inl ho
  | missing | supplied | deferred =>
      rcases Session.mem_outcomes_answer ho with ho | rfl
      · exact .inl ho
      · cases hskip
  | entered | opened =>
      rcases Session.mem_outcomes_enter ho with ho | rfl
      · exact .inl ho
      · cases hskip
  | @loaded v a e l =>
      rcases Session.mem_outcomes_answer (e := e) ho with ho | rfl
      · exact .inl ho
      · cases l <;> cases hskip
  | @skipped v a c' =>
      refine .inr ⟨_, List.mem_append_right _ (List.mem_singleton_self _), ?_⟩
      exact c'.isConflict_issue

end Agenda

namespace Plan

variable {p : Plan} {config : Config} {overrides : Option Overrides} {a : Agenda}

theorem Reaches.onPath (h : p.Reaches config overrides a) :
    a.OnPath (p.environment config overrides) := by
  intro hpolicy
  induction h using Reaches.induction with
  | start =>
      intro v hv hoff
      rcases List.mem_append.mp hv with hv | hv
      · split at hv
        · cases List.mem_singleton.mp hv
          cases hoff
        · cases hv
      · obtain ⟨src, -, hsrc⟩ := List.mem_map.mp hv
        cases hsrc
  | step hreach hs ih =>
      have hc := hreach.coherent
      have hst := hc.extends hs
      intro v hv hoff
      rcases List.mem_append.mp hv with hleft | hrest
      · rcases hc.visit_of_step hs hleft with ⟨w, rfl, hdone, hloads, hneeded, -, i, hi, rfl⟩ |
          ⟨n, trail, d, rfl, -, -, rfl⟩
        · have hid := hc.targets w List.mem_cons_self
          have hpath := (hreach.loads_strictly hdone hloads hneeded).resolve_right
            fun hanyway => Bool.false_ne_true (hpolicy.symm.trans hanyway)
          refine ⟨hst.later.lt_size hid, (hst.grows _ hid).name ▸ hloads.1, ?_⟩
          simpa [hpath] using hoff
        · cases hoff
      · obtain ⟨hlt, hsource, hexported⟩ := ih v (List.mem_cons_of_mem _ hrest) hoff
        exact ⟨hst.later.lt_size hlt, (hst.grows _ hlt).name ▸ hsource, hexported⟩

theorem Reaches.covered (h : p.Reaches config overrides a) :
    a.Covered p (p.environment config overrides) fun _ => True := by
  induction h using Reaches.induction with
  | start =>
      intro n _ i hi
      rw [imports_agenda] at hi
      cases hi
  | step hreach hs ih =>
      exact hreach.coherent.covered_step hreach.onPath hs ih fun _ _ => .inl trivial

theorem Reaches.reported {o : EdgeOutcome} {c : Conflict} (h : p.Reaches config overrides a)
    (ho : o ∈ a.session.client.outcomes) (hskip : o.resolution = some (.skipped c)) :
    ∃ d ∈ a.session.engine.diagnostics, d.issue.isConflict = true := by
  induction h using Reaches.induction with
  | start => cases ho
  | step hreach hs ih =>
      rcases Agenda.reported_of_step hs ho hskip with ho | hreported
      · obtain ⟨d, hd, hconflict⟩ := ih ho
        exact ⟨d, (hreach.coherent.extends hs).diagnostics.subset hd, hconflict⟩
      · exact hreported

theorem Reaches.settles {t : Session Walk} (h : p.Reaches config overrides ⟨t, []⟩) {n : ModuleId}
    {i : Import} (hi : i ∈ (t.registry.module n).imports) :
    t.Settles p (p.environment config overrides) n i := by
  rcases h.covered n trivial i hi with hsettles | ⟨v, hv, -⟩ | hfinish
  · exact hsettles
  · cases hv
  · cases hfinish

end Plan

end ModuleResolution
