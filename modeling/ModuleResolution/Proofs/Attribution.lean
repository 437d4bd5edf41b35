import ModuleResolution.Proofs.Cycles
import ModuleResolution.Proofs.Findings

namespace ModuleResolution

structure Registry.Keeps (r r' : Registry) : Prop where
  found : ∀ c n, r.find? c = some n → r'.find? c = some n
  imports : ∀ n, (r.module n).imports ⊆ (r'.module n).imports
  coordinates : ∀ n < r.size, (r'.module n).coordinates = (r.module n).coordinates

def Plan.IsRoot (p : Plan) (r : Registry) (n : ModuleId) : Prop :=
  n = Registry.foundational ∨ ∃ src ∈ p.sources, r.find? src.coordinates = some n

structure Plan.LeadsTo (p : Plan) (r : Registry) (root n : ModuleId) : Prop where
  isRoot : p.IsRoot r root
  path : Relation.ReflTransGen r.Edge root n

def Target.Attributed (p : Plan) (r : Registry) : Target → Prop
  | .module root => p.IsRoot r root
  | .declaration root dependency => p.LeadsTo r root dependency
  | .importOf importer dependency =>
      p.HasSource (r.module importer).coordinates ∧ r.Edge importer dependency

namespace Registry.Keeps

variable {p : Plan} {r r' : Registry} {root n : ModuleId}

theorem isRoot (h : r.Keeps r') (hroot : p.IsRoot r root) : p.IsRoot r' root := by
  refine hroot.imp_right ?_
  rintro ⟨src, hsrc, hfound⟩
  exact ⟨src, hsrc, h.found _ _ hfound⟩

theorem leadsTo (h : r.Keeps r') (hl : p.LeadsTo r root n) : p.LeadsTo r' root n :=
  ⟨h.isRoot hl.isRoot, hl.path.lift id fun _ _ he => he.mono h.imports⟩

theorem attributed {target : Target} (h : r.Keeps r') (ht : target.Attributed p r) :
    target.Attributed p r' := by
  cases target with
  | module root => exact h.isRoot ht
  | declaration root dependency => exact h.leadsTo ht
  | importOf importer dependency =>
      obtain ⟨hsource, hedge⟩ := ht
      refine ⟨?_, hedge.mono h.imports⟩
      rwa [h.coordinates importer hedge.lt_size]

end Registry.Keeps

theorem Registry.keeps_withImplicitImports {r : Registry} (h : r.Indexed) :
    r.Keeps r.withImplicitImports where
  found := fun c n hn => by rwa [find?_withImplicitImports]
  imports := imports_subset_withImplicitImports h
  coordinates := fun n _ => (grows_withImplicitImports h n).coordinates

theorem Plan.LeadsTo.tail {p : Plan} {r : Registry} {root m n : ModuleId}
    (h : p.LeadsTo r root m) (he : r.Edge m n) : p.LeadsTo r root n :=
  ⟨h.isRoot, h.path.tail he⟩

def Task.Attributed (p : Plan) (r : Registry) : Task → Prop
  | visit v => p.LeadsTo r v.trail.root v.edge.target
  | declare importer trail _ => p.LeadsTo r trail.root importer
  | finish _ | root _ => True

theorem Registry.Keeps.task {p : Plan} {r r' : Registry} {task : Task} (h : r.Keeps r')
    (ht : task.Attributed p r) : task.Attributed p r' := by
  cases task with
  | visit | declare => exact h.leadsTo ht
  | finish | root => trivial

namespace Agenda

variable {p : Plan} {env : Environment} {s t : Session Walk} {task : Task} {left rest : List Task}

theorem Coherent.keeps_step (h : Coherent p env ⟨s, task :: rest⟩)
    (hs : task.Step p env s t left) : s.registry.Keeps t.registry := by
  obtain ⟨id, -, hev⟩ := h.evolves_step hs
  exact ⟨hev.found, (h.extends hs).imports, fun n hn => hev.coordinates hn⟩

theorem Coherent.attributed_left (h : Coherent p env ⟨s, task :: rest⟩)
    (hs : task.Step p env s t left) (ht : task.Attributed p s.registry) {next : Task}
    (hnext : next ∈ left) : next.Attributed p t.registry := by
  have hlater := (h.keeps_step hs).task ht
  cases hs with
  | @loaded v =>
      obtain ⟨i, hi, rfl⟩ := Task.mem_ofLoaded hnext
      rw [Task.Attributed, Task.root_extend]
      exact hlater.tail ⟨i, hi, rfl⟩
  | @entered v =>
      rcases Task.mem_ofSource hnext with ⟨d, -, rfl⟩ | rfl
      · rw [Task.Attributed, Task.root_extend]
        exact hlater
      · trivial
  | @opened src declared e id hensure =>
      rcases Task.mem_ofSource hnext with ⟨d, -, rfl⟩ | rfl
      · have hfound := Session.found_ensure h.session.indexed hensure
        rw [Task.Attributed, Task.root_extend]
        exact ⟨.inr ⟨src, h.roots src List.mem_cons_self, hfound⟩, .refl⟩
      · trivial
  | @declared n trail d =>
      obtain rfl := List.mem_singleton.mp hnext
      exact hlater.tail h.edge_declare
  | _ => cases hnext

theorem Coherent.attributed_new (h : Coherent p env ⟨s, task :: rest⟩)
    (hs : task.Step p env s t left) (ht : task.Attributed p s.registry) {new : List Diagnostic}
    (hnew : task.Reports p env s t new) : ∀ d ∈ new, d.target.Attributed p t.registry := by
  have hlater := (h.keeps_step hs).task ht
  intro diagnostic hd
  cases hnew with
  | nothing => cases hd
  | absent =>
      obtain rfl := List.mem_singleton.mp hd
      exact hlater
  | skipped =>
      obtain rfl := List.mem_singleton.mp hd
      exact hlater.isRoot
  | loaded =>
      obtain ⟨issue, -, rfl⟩ := List.mem_map.mp hd
      exact hlater
  | @declared n =>
      obtain ⟨issue, -, rfl⟩ := List.mem_map.mp hd
      have hn := h.mem_inProgress.mp (List.mem_cons_of_mem _ h.nested.1)
      have hsource := h.session.sources_later ((h.extends hs).later) (.inl hn)
      cases hs
      refine ⟨Plan.hasSource_iff.mpr hsource.2.2, ?_⟩
      rw [← Session.importedEdge_target]
      exact h.edge_declare
  | refused hfound =>
      obtain rfl := List.mem_singleton.mp hd
      exact .inr ⟨_, h.roots _ List.mem_cons_self, hfound⟩

end Agenda

namespace Plan

variable {p : Plan} {config : Config} {overrides : Option Overrides} {a : Agenda}
  {report : SessionReport}

theorem Reaches.attributed_tasks (h : p.Reaches config overrides a) :
    ∀ task ∈ a.tasks, task.Attributed p a.session.registry := by
  induction h using Reaches.induction with
  | start =>
      intro task htask
      rcases List.mem_append.mp htask with htask | htask
      · split at htask
        · obtain rfl := List.mem_singleton.mp htask
          exact ⟨.inl rfl, .refl⟩
        · cases htask
      · obtain ⟨src, -, rfl⟩ := List.mem_map.mp htask
        trivial
  | @step s t task left rest hreach hs ih =>
      intro next hnext
      rcases List.mem_append.mp hnext with hleft | hrest
      · exact hreach.coherent.attributed_left hs (ih task List.mem_cons_self) hleft
      · exact (hreach.coherent.keeps_step hs).task (ih next (List.mem_cons_of_mem _ hrest))

theorem Reaches.attributed (h : p.Reaches config overrides a) :
    ∀ d ∈ a.session.engine.diagnostics, d.target.Attributed p a.session.registry := by
  induction h using Reaches.induction with
  | start => exact fun d hd => absurd hd List.not_mem_nil
  | @step s t task left rest hreach hs ih =>
      have hc := hreach.coherent
      obtain ⟨new, hdiagnostics, hnew⟩ := hc.reports_of_step hs
      intro d hd
      rw [hdiagnostics, List.mem_append] at hd
      rcases hd with hd | hd
      · exact (hc.keeps_step hs).attributed (ih d hd)
      · exact hc.attributed_new hs (hreach.attributed_tasks task List.mem_cons_self) hnew d hd

theorem attributed_of_run (hrun : p.run config overrides = .ok report) :
    ∀ d ∈ report.diagnostics, d.target.Attributed p report.registry := by
  obtain ⟨t, ht, rfl⟩ := reaches_of_run hrun
  intro d hd
  exact (Registry.keeps_withImplicitImports ht.coherent.session.indexed).attributed
    (ht.attributed d hd)

def threeTargets : Plan where
  sources := [⟨⟨"app", "1"⟩, [⟨"lib", "1", false, false⟩, ⟨"lib", "2", false, false⟩,
    ⟨"host.sql", "9", false, false⟩]⟩]
  artifacts := [⟨⟨"lib", "1"⟩, some ⟨3, 2⟩, [⟨⟨"gone", "1"⟩, .normal⟩]⟩,
    ⟨⟨"lib", "2"⟩, some ⟨3, 2⟩, []⟩]

theorem attributed_of_run_threeTargets :
    ∃ report, threeTargets.run hostingSql none = .ok report ∧
      report.diagnostics.map (·.target) = [.declaration 2 4, .module 2, .importOf 2 6] ∧
      ∀ d ∈ report.diagnostics, d.target.Attributed threeTargets report.registry := by
  obtain ⟨report, hrun, htargets⟩ : ∃ report, threeTargets.run hostingSql none = .ok report ∧
      (report.diagnostics.map (·.target) ==
        [.declaration 2 4, .module 2, .importOf 2 6]) = true := exists_report (by decide +kernel)
  exact ⟨report, hrun, beq_iff_eq.mp htargets, attributed_of_run hrun⟩

end Plan

end ModuleResolution
