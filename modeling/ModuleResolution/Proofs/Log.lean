import Mathlib.Data.List.Nodup
import ModuleResolution.Proofs.Cycles

namespace ModuleResolution

namespace EdgeOutcome

def Enters (o : EdgeOutcome) : Prop :=
  o.resolution = some .fromSource ∨ o.Loads

instance (o : EdgeOutcome) : Decidable o.Loads :=
  inferInstanceAs (Decidable (_ ∨ _))

instance (o : EdgeOutcome) : Decidable o.Enters :=
  inferInstanceAs (Decidable (_ ∨ _))

@[simp] theorem loads_ofLoaded (importer module : ModuleId) (l : Loaded) :
    Loads ⟨importer, module, some (.ofLoaded l)⟩ := by
  cases l with
  | compiled => exact .inl rfl
  | nativeArchive => exact .inr rfl

end EdgeOutcome

theorem Trail.last_extend (trail : Trail) (n : ModuleId) : (trail.extend n).last = n := by
  unfold extend
  split
  · next h => exact beq_iff_eq.mp h
  · simp [push, last]

namespace Task

inductive Logs (p : Plan) (env : Environment) (s t : Session Walk) : Task → List EdgeOutcome → Prop
  | nothing {task : Task} (hloaded : t.client.loaded = s.client.loaded) : Logs p env s t task []
  | absent {v : Visit} {resolution : Option Resolution}
      (hloaded : t.client.loaded = s.client.loaded)
      (hresolution : resolution = none ∨ resolution = some .platform)
      (hloads : ¬ p.Loads env (s.target v).coordinates) :
      Logs p env s t (visit v) [⟨v.importer, v.edge.target, resolution⟩]
  | skipped {v : Visit} {c : Conflict} (hloaded : t.client.loaded = s.client.loaded)
      (hconflict : s.registry.conflict? v.edge.target = some c)
      (hloads : env.isSource (s.target v).name = false → p.Loads env (s.target v).coordinates) :
      Logs p env s t (visit v) [⟨v.importer, v.edge.target, some (.skipped c)⟩]
  | deferred {v : Visit} (hloaded : t.client.loaded = s.client.loaded) :
      Logs p env s t (visit v) [⟨v.importer, v.edge.target, some .deferred⟩]
  | loaded {v : Visit} {l : Loaded} (hloaded : t.client.loaded = v.edge.target :: s.client.loaded)
      (hfresh : ¬ s.Entered v.edge.target) :
      Logs p env s t (visit v) [⟨v.importer, v.edge.target, some (.ofLoaded l)⟩]
  | compiling {v : Visit} (hloaded : t.client.loaded = s.client.loaded)
      (hfresh : ¬ s.Entered v.edge.target) (hprogress : v.edge.target ∈ t.engine.inProgress)
      (hsource : env.isSource (s.target v).name = true) (hroot : v.edge.target ≠ v.trail.root) :
      Logs p env s t (visit v) [⟨v.trail.last, v.edge.target, some .fromSource⟩]

namespace Logs

variable {p : Plan} {env : Environment} {s t : Session Walk} {task : Task} {new : List EdgeOutcome}

theorem length_le (h : task.Logs p env s t new) : new.length ≤ 1 := by
  cases h <;> simp

theorem target_eq (h : task.Logs p env s t new) {o : EdgeOutcome} (ho : o ∈ new) :
    ∃ v, task = visit v ∧ o.module = v.edge.target := by
  cases h with
  | nothing => cases ho
  | _ =>
      obtain rfl := List.mem_singleton.mp ho
      exact ⟨_, rfl, rfl⟩

theorem loaded_eq (h : task.Logs p env s t new) :
    t.client.loaded.reverse =
      s.client.loaded.reverse ++ (new.filter (·.Loads)).map (·.module) := by
  cases h with
  | loaded hloaded => simp [hloaded]
  | absent hloaded hresolution =>
      rcases hresolution with rfl | rfl <;> simp [hloaded, EdgeOutcome.Loads]
  | _ hloaded => simp [hloaded, EdgeOutcome.Loads]

theorem enters (h : task.Logs p env s t new) {o : EdgeOutcome} (ho : o ∈ new) (he : o.Enters) :
    ¬ s.Entered o.module ∧ t.Entered o.module := by
  cases h with
  | nothing => cases ho
  | absent _ hresolution =>
      obtain rfl := List.mem_singleton.mp ho
      rcases hresolution with rfl | rfl <;> simp [EdgeOutcome.Enters, EdgeOutcome.Loads] at he
  | skipped | deferred =>
      obtain rfl := List.mem_singleton.mp ho
      simp [EdgeOutcome.Enters, EdgeOutcome.Loads] at he
  | loaded hloaded hfresh =>
      obtain rfl := List.mem_singleton.mp ho
      exact ⟨hfresh, Session.entered_of_done (.inl (hloaded ▸ List.mem_cons_self))⟩
  | compiling _ hfresh hprogress =>
      obtain rfl := List.mem_singleton.mp ho
      exact ⟨hfresh, .inr hprogress⟩

end Logs

end Task

namespace Agenda

variable {p : Plan} {env : Environment} {s t : Session Walk} {task : Task} {left rest : List Task}

theorem Coherent.logs_of_step (h : Coherent p env ⟨s, task :: rest⟩)
    (hs : task.Step p env s t left) :
    ∃ new, t.client.outcomes = s.client.outcomes ++ new ∧ task.Logs p env s t new := by
  cases hs with
  | done | declared | finished | present | refused =>
      exact ⟨[], (List.append_nil _).symm, .nothing rfl⟩
  | missing hdone hlocate =>
      refine ⟨_, rfl, .absent rfl (.inl rfl) fun hloads => ?_⟩
      cases hlocate ▸ Walk.locate?_of_artifact hloads.1 hloads.2.2
  | supplied _ _ _ hsupplied =>
      refine ⟨_, rfl, .absent rfl (.inr rfl) fun hloads => ?_⟩
      cases hloads.2.1.symm.trans hsupplied
  | @skipped v a c hdone hlocate hchecked hconflict =>
      refine ⟨_, rfl, .skipped rfl hconflict fun hsource => ?_⟩
      have hsupplied := (hchecked.resolve_left (Bool.not_eq_true _ ▸ hsource)).1
      exact h.session.loads_of_locate? (h.targets v List.mem_cons_self)
        (Walk.isDone_eq_false.mp hdone).1 hlocate hsource hsupplied
  | deferred => exact ⟨_, rfl, .deferred rfl⟩
  | loaded hdone _ hsource =>
      refine ⟨_, rfl, .loaded rfl (Session.not_entered hdone ?_)⟩
      exact (h.session.idle_of_not_source hsource).1
  | @entered v a src hdone hlocate hsource hclear hidle =>
      have hprogress : v.edge.target ∈ (s.enter v.trail v.edge.target).engine.inProgress := by
        simp [Session.enter, Engine.enter]
      by_cases hroot : v.edge.target = v.trail.root
      · exact ⟨[], by simp [Session.enter, hroot], .nothing (Session.loaded_enter _ _ _)⟩
      · refine ⟨[⟨v.trail.last, v.edge.target, some .fromSource⟩], ?_, ?_⟩
        · rw [Session.enter, if_neg hroot]
          rfl
        · exact .compiling (Session.loaded_enter _ _ _) (Session.not_entered hdone hidle) hprogress
            hsource hroot
  | opened =>
      exact ⟨[], by simp [Session.enter, Trail.start], .nothing (Session.loaded_enter _ _ _)⟩

structure Recorded (s : Session Walk) : Prop where
  loaded : (s.client.outcomes.filter (·.Loads)).map (·.module) = s.client.loaded.reverse
  once : ((s.client.outcomes.filter (·.Enters)).map (·.module)).Nodup
  entered : ∀ o ∈ s.client.outcomes, o.Enters → s.Entered o.module

theorem Coherent.recorded_step (h : Coherent p env ⟨s, task :: rest⟩)
    (hs : task.Step p env s t left) (hr : Recorded s) : Recorded t := by
  obtain ⟨new, hnew, hlogs⟩ := h.logs_of_step hs
  refine ⟨?loaded, ?once, fun o ho he => ?entered⟩
  case loaded =>
    rw [hnew, List.filter_append, List.map_append, hr.loaded, hlogs.loaded_eq]
  case once =>
    rw [hnew, List.filter_append, List.map_append]
    refine List.Nodup.append hr.once ?_ fun n hold hfresh => ?_
    -- no more than one edge is logged in a step
    · refine List.nodup_iff_count_le_one.mpr fun n => Nat.le_trans List.count_le_length ?_
      rw [List.length_map]
      exact Nat.le_trans (List.length_filter_le _ _) hlogs.length_le
    · obtain ⟨o, ho, rfl⟩ := List.mem_map.mp hold
      obtain ⟨o', ho', hmodule⟩ := List.mem_map.mp hfresh
      rw [List.mem_filter, decide_eq_true_eq] at ho ho'
      exact (hlogs.enters ho'.1 ho'.2).1 (hmodule ▸ hr.entered o ho.1 ho.2)
  case entered =>
    rw [hnew, List.mem_append] at ho
    rcases ho with ho | ho
    · exact h.entered_of_step hs (hr.entered o ho he)
    · exact (hlogs.enters ho he).2

end Agenda

namespace Task

def Linked (r : Registry) : Task → Prop
  | visit v => r.Edge v.importer v.edge.target ∧ v.trail.last = v.importer
  | declare n trail _ => trail.last = n
  | finish _ | root _ => True

variable {p : Plan} {env : Environment} {s t : Session Walk} {task : Task} {left : List Task}

theorem linked_of_trail? {r : Registry} (h : task.trail? = none) : task.Linked r := by
  cases task with
  | visit | declare => cases h
  | finish | root => trivial

theorem Linked.mono (h : task.Linked s.registry) (hst : s.Extends t) :
    task.Linked t.registry := by
  cases task with
  | visit v => exact ⟨h.1.mono hst.imports, h.2⟩
  | declare | finish | root => exact h

end Task

namespace Agenda

variable {p : Plan} {env : Environment} {s t : Session Walk} {task : Task} {left rest : List Task}

theorem Coherent.linked_of_mem_left (h : Coherent p env ⟨s, task :: rest⟩)
    (hs : task.Step p env s t left) (hdeclare : ∀ n trail d, task = .declare n trail d →
      trail.last = n) {next : Task} (hnext : next ∈ left) : next.Linked t.registry := by
  cases hs with
  | loaded =>
      obtain ⟨i, hi, rfl⟩ := Task.mem_ofLoaded hnext
      exact ⟨⟨i, hi, rfl⟩, Trail.last_extend _ _⟩
  | entered | opened =>
      rcases Task.mem_ofSource hnext with ⟨d, -, rfl⟩ | rfl
      · exact Trail.last_extend _ _
      · trivial
  | @declared n trail d =>
      obtain rfl := List.mem_singleton.mp hnext
      exact ⟨h.edge_declare, hdeclare n trail d rfl⟩
  | _ => cases hnext

end Agenda

def Plan.LogsEdges (p : Plan) (config : Config) (r : Registry) (outcomes : List EdgeOutcome) :
    Prop :=
  ∃ opening others, outcomes = opening ++ others ∧ opening.length ≤ 1 ∧
    (∀ o ∈ opening, o.importer = Registry.foundational ∧ o.module = Registry.foundational ∧
      (p.artifact? config.foundational).isSome = true) ∧
    ∀ o ∈ others, r.Edge o.importer o.module

structure SessionReport.Agrees (report : SessionReport) (p : Plan) (config : Config) : Prop where
  loaded : (report.outcomes.filter (·.Loads)).map (·.module) =
    report.registry.binaryInputs.map (·.1)
  distinct : (report.registry.binaryInputs.map (·.1)).Nodup
  once : ∀ n, report.outcomes.countP (fun o => o.module = n ∧ o.Enters) ≤ 1
  edges : p.LogsEdges config report.registry report.outcomes

namespace Plan

variable {p : Plan} {config : Config} {overrides : Option Overrides} {a : Agenda}
  {report : SessionReport}

theorem Reaches.recorded (h : p.Reaches config overrides a) : Agenda.Recorded a.session := by
  induction h using Reaches.induction with
  | start => exact ⟨rfl, List.nodup_nil, fun o ho => absurd ho List.not_mem_nil⟩
  | step hreach hs ih => exact hreach.coherent.recorded_step hs ih

theorem Reaches.linked (h : p.Reaches config overrides a) :
    a = p.agenda config ∨ ∀ task ∈ a.tasks, task.Linked a.session.registry := by
  induction h using Reaches.induction with
  | start => exact .inl rfl
  | @step s t task left rest hreach hs ih =>
      have hc := hreach.coherent
      -- a declaration is on the agenda only after the run has opened
      have hdeclare (n : ModuleId) (trail : Trail) (d : Dependency)
          (htask : task = .declare n trail d) : trail.last = n := by
        subst htask
        rcases ih with ha | hlinked
        · rcases (trail?_of_agenda ha.symm).1 with hd | hd <;> cases hd
        · exact hlinked _ List.mem_cons_self
      refine .inr fun next hnext => ?_
      rcases List.mem_append.mp hnext with hleft | hrest
      · exact hc.linked_of_mem_left hs hdeclare hleft
      · rcases ih with ha | hlinked
        · exact Task.linked_of_trail? ((trail?_of_agenda ha.symm).2 next hrest)
        · exact (hlinked next (List.mem_cons_of_mem _ hrest)).mono (hc.extends hs)

theorem LogsEdges.append {r r' : Registry} {outcomes new : List EdgeOutcome}
    (h : p.LogsEdges config r outcomes) (hr : ∀ n, (r.module n).imports ⊆ (r'.module n).imports)
    (hnew : ∀ o ∈ new, r'.Edge o.importer o.module) :
    p.LogsEdges config r' (outcomes ++ new) := by
  obtain ⟨opening, others, rfl, hlength, hopening, hothers⟩ := h
  refine ⟨opening, others ++ new, List.append_assoc _ _ _, hlength, hopening, fun o ho => ?_⟩
  rcases List.mem_append.mp ho with ho | ho
  · exact (hothers o ho).mono hr
  · exact hnew o ho

theorem artifact_of_agenda {s : Session Walk} {v : Visit} {rest : List Task}
    (ha : p.agenda config = ⟨s, .visit v :: rest⟩) :
    v = .foundational ∧ (p.artifact? config.foundational).isSome = true := by
  have htasks : (if (p.artifact? config.foundational).isSome then [.visit .foundational] else []) ++
      p.sources.map .root = .visit v :: rest := congrArg Agenda.tasks ha
  split at htasks
  · next hartifact =>
    cases (List.cons.inj htasks).1
    exact ⟨rfl, hartifact⟩
  · have hroot : .visit v ∈ p.sources.map Task.root := by
      rw [List.nil_append] at htasks
      exact htasks ▸ List.mem_cons_self
    obtain ⟨src, -, hsrc⟩ := List.mem_map.mp hroot
    cases hsrc

theorem logsEdges_of_opening {env : Environment} {s t : Session Walk} {task : Task}
    {rest : List Task} {new : List EdgeOutcome} (ha : p.agenda config = ⟨s, task :: rest⟩)
    (h : task.Logs p env s t new) (r : Registry) : p.LogsEdges config r new := by
  refine ⟨new, [], (List.append_nil _).symm, h.length_le, fun o ho => ?_,
    fun o ho => absurd ho List.not_mem_nil⟩
  cases h with
  | nothing => cases ho
  | absent | skipped | deferred | loaded =>
      obtain ⟨rfl, hartifact⟩ := artifact_of_agenda ha
      obtain rfl := List.mem_singleton.mp ho
      exact ⟨rfl, rfl, hartifact⟩
  | compiling _ _ _ _ hroot =>
      obtain ⟨rfl, -⟩ := artifact_of_agenda ha
      exact absurd rfl hroot

theorem Reaches.logsEdges (h : p.Reaches config overrides a) :
    p.LogsEdges config a.session.registry a.session.client.outcomes := by
  induction h using Reaches.induction with
  | start =>
      have hnone {q : EdgeOutcome → Prop} : ∀ o ∈ ([] : List EdgeOutcome), q o :=
        fun o ho => absurd ho List.not_mem_nil
      exact ⟨[], [], rfl, Nat.zero_le 1, hnone, hnone⟩
  | @step s t task left rest hreach hs ih =>
      have hst := hreach.coherent.extends hs
      obtain ⟨new, hnew, hlogs⟩ := hreach.coherent.logs_of_step hs
      rw [hnew]
      rcases hreach.linked with ha | hlinked
      · obtain rfl : (p.agenda config).session = s := congrArg Agenda.session ha.symm
        exact logsEdges_of_opening ha.symm hlogs _
      · refine ih.append hst.imports fun o ho => ?_
        have htask := (hlinked task List.mem_cons_self).mono hst
        cases hlogs with
        | nothing => cases ho
        | absent | skipped | deferred | loaded =>
            obtain rfl := List.mem_singleton.mp ho
            exact htask.1
        | compiling =>
            obtain rfl := List.mem_singleton.mp ho
            exact htask.2 ▸ htask.1

theorem log_of_run (hrun : p.run config overrides = .ok report) : report.Agrees p config := by
  obtain ⟨t, ht, rfl⟩ := reaches_of_run hrun
  have hc := ht.coherent.session
  have hr := ht.recorded
  have hinputs : t.registry.withImplicitImports.binaryInputs.map (·.1) =
      t.client.loaded.reverse := by
    rw [Registry.binaryInputs_withImplicitImports, hc.inputs]
  refine ⟨hr.loaded.trans hinputs.symm, ?_, fun n => ?_, ?_⟩
  · exact hinputs ▸ List.nodup_reverse.mpr hc.loadedNodup
  · have hcount := List.nodup_iff_count_le_one.mp hr.once n
    rw [List.count_eq_countP, List.countP_map, List.countP_filter] at hcount
    change t.client.outcomes.countP _ ≤ 1
    simpa [Function.comp_def, beq_eq_decide] using hcount
  · have hedges : p.LogsEdges config t.registry.withImplicitImports (t.client.outcomes ++ []) :=
      ht.logsEdges.append (Registry.imports_subset_withImplicitImports hc.indexed)
        fun o ho => absurd ho List.not_mem_nil
    rwa [List.append_nil] at hedges

def sharedLibrary : Plan where
  sources := [⟨⟨"app", "1"⟩, [⟨"core", "1", false, false⟩, ⟨"lib", "1", false, false⟩]⟩,
    ⟨⟨"core", "1"⟩, [⟨"lib", "1", false, false⟩]⟩]
  artifacts := [⟨⟨"vela.lang", "1.0.0"⟩, some ⟨3, 2⟩, []⟩,
    ⟨⟨"lib", "1"⟩, none, [⟨⟨"util", "1"⟩, .exported⟩]⟩]

theorem log_of_run_sharedLibrary :
    ∃ report, sharedLibrary.run .default none = .ok report ∧
      report.outcomes.map (fun o => (o.importer, o.module)) = [(0, 0), (2, 3), (3, 4), (4, 5)] ∧
      report.Agrees sharedLibrary .default := by
  obtain ⟨report, hrun, hlog⟩ : ∃ report, sharedLibrary.run .default none = .ok report ∧
      (report.outcomes.map (fun o => (o.importer, o.module)) ==
        [(0, 0), (2, 3), (3, 4), (4, 5)]) = true := exists_report (by decide +kernel)
  exact ⟨report, hrun, beq_iff_eq.mp hlog, log_of_run hrun⟩

end Plan

end ModuleResolution
