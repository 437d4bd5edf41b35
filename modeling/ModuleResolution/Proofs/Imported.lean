import ModuleResolution.Proofs.Faces

namespace ModuleResolution

def Plan.sourceImports (p : Plan) (c : Coordinates) : List Dependency :=
  ((p.source? c).map (·.imports)).getD []

namespace Task

def declares? (n : ModuleId) : Task → Option Dependency
  | declare m _ d => if m = n then some d else none
  | _ => none

def pending (n : ModuleId) (tasks : List Task) : List Dependency :=
  tasks.filterMap (declares? n)

variable {n id : ModuleId} {tasks left rest : List Task}

@[simp] theorem pending_append (n : ModuleId) (left rest : List Task) :
    pending n (left ++ rest) = pending n left ++ pending n rest :=
  List.filterMap_append

theorem pending_cons_of_none {task : Task} (h : task.declares? n = none) :
    pending n (task :: rest) = pending n rest :=
  List.filterMap_cons_none h

theorem pending_eq_nil (h : ∀ trail d, declare n trail d ∉ tasks) : pending n tasks = [] := by
  refine List.filterMap_eq_nil_iff.mpr fun task htask => ?_
  cases task with
  | declare m trail d =>
      refine if_neg ?_
      rintro rfl
      exact h trail d htask
  | visit | finish | root => rfl

theorem pending_ofLoaded (r : Registry) (trail : Trail) (path : Bool) :
    pending n (ofLoaded r id trail path) = [] := by
  refine pending_eq_nil fun trail' d h => ?_
  obtain ⟨i, -, hi⟩ := mem_ofLoaded h
  cases hi

theorem pending_ofSource_self (trail : Trail) (src : SourceModule) :
    pending id (ofSource id trail src) = src.imports := by
  simp [ofSource, pending, declares?, Function.comp_def]

theorem pending_ofSource_of_ne (trail : Trail) (src : SourceModule) (h : n ≠ id) :
    pending n (ofSource id trail src) = [] := by
  refine pending_eq_nil fun trail' d hd => ?_
  rcases mem_ofSource hd with ⟨d, -, hd⟩ | hd
  · cases hd
    exact h rfl
  · cases hd

end Task

namespace Agenda

variable {p : Plan} {env : Environment} {s t : Session Walk} {task : Task}
  {left rest : List Task} {n id : ModuleId}

theorem Coherent.pending_eq_nil (h : Coherent p env ⟨s, rest⟩) (hn : n ∉ s.engine.inProgress) :
    Task.pending n rest = [] :=
  Task.pending_eq_nil fun _ _ hd => hn (h.mem_inProgress.mp (Task.finish_mem_of_nested h.nested hd))

def Imported (p : Plan) (a : Agenda) (n : ModuleId) : Prop :=
  ∃ done, p.sourceImports (a.session.coordinates n) = done ++ Task.pending n a.tasks ∧
    a.session.registry.namedImports n = NamedImport.addAll [] (done.map .ofDependency)

theorem Imported.keep {tasks tasks' : List Task} (h : Imported p ⟨s, tasks⟩ n)
    (hc : s.Coherent p env) (hst : s.Extends t) (hn : n < s.registry.size)
    (himports : (t.registry.module n).imports = (s.registry.module n).imports)
    (hpending : Task.pending n tasks' = Task.pending n tasks) : Imported p ⟨t, tasks'⟩ n := by
  obtain ⟨done, hdone, hnames⟩ := h
  refine ⟨done, ?_, ?_⟩
  · rw [hpending, ← hdone]
    exact congrArg p.sourceImports (hst.grows n hn).coordinates
  · rw [← hnames]
    exact Registry.namedImports_eq hc.indexed (hc.linked _)
      (fun j hj => (hst.grows j hj).coordinates) himports

theorem Coherent.imported_enter {trail : Trail} {src : SourceModule}
    (h : Coherent p env ⟨s, rest⟩) (hidle : ¬ s.Entered id)
    (hsource : p.source? (s.coordinates id) = some src) :
    Imported p ⟨s.enter trail id, Task.ofSource id trail src ++ rest⟩ id := by
  have hprogress : id ∉ s.engine.inProgress := fun hp => hidle (.inr hp)
  have hbare := h.session.bare_of_not_entered hidle
  refine ⟨[], ?_, ?_⟩
  · have himports : p.sourceImports (s.coordinates id) = src.imports := by
      rw [Plan.sourceImports, hsource]
      rfl
    rw [Task.pending_append, Task.pending_ofSource_self, h.pending_eq_nil hprogress,
      List.append_nil, List.nil_append]
    exact himports
  · change (s.registry.module id).imports.map s.registry.named = []
    rw [hbare]
    rfl

theorem Coherent.imported_declare {trail : Trail} {d : Dependency}
    (h : Coherent p env ⟨s, .declare n trail d :: rest⟩) (hn : n < s.registry.size)
    (hi : Imported p ⟨s, .declare n trail d :: rest⟩ n) :
    Imported p ⟨s.declare env n d,
      [.visit ⟨n, s.importedEdge env n d, trail, true⟩] ++ rest⟩ n := by
  obtain ⟨done, hdone, hnames⟩ := hi
  have hc := h.session
  have hpending : Task.pending n (.declare n trail d :: rest) = d :: Task.pending n rest := by
    simp [Task.pending, Task.declares?]
  refine ⟨done ++ [d], ?_, ?_⟩
  · have hcoordinates : (s.declare env n d).coordinates n = s.coordinates n :=
      ((Session.extends_declare env n d).grows n hn).coordinates
    rw [hpending] at hdone
    rw [hcoordinates, Task.pending_append, List.append_assoc]
    exact hdone
  · have hnames : s.registry.namedImports n = _ := hnames
    rw [Session.registry_declare, List.map_append, List.map_singleton, NamedImport.addAll_concat,
      ← hnames]
    exact Registry.namedImports_addEdge hc.indexed (hc.linked _) hn

def AllImported (p : Plan) (a : Agenda) : Prop :=
  ∀ n, n ∈ a.session.engine.inProgress ∨ n ∈ a.session.client.compiled → Imported p a n

theorem AllImported.keep (hi : AllImported p ⟨s, task :: rest⟩) (hc : s.Coherent p env)
    (hst : s.Extends t) (hp : t.engine.inProgress = s.engine.inProgress)
    (hk : t.client.compiled = s.client.compiled)
    (himports : ∀ n, (t.registry.module n).imports = (s.registry.module n).imports)
    (htask : ∀ n, task.declares? n = none) : AllImported p ⟨t, rest⟩ := by
  intro n hn
  have hold : n ∈ s.engine.inProgress ∨ n ∈ s.client.compiled := by rwa [← hp, ← hk]
  exact (hi n hold).keep hc hst (hc.sources n hold).1 (himports n)
    (Task.pending_cons_of_none (htask n)).symm

theorem AllImported.enter {trail : Trail} {src : SourceModule} (hi : AllImported p ⟨s, rest⟩)
    (h : Coherent p env ⟨s, rest⟩) (hidle : ¬ s.Entered id)
    (hsource : p.source? (s.coordinates id) = some src) :
    AllImported p ⟨s.enter trail id, Task.ofSource id trail src ++ rest⟩ := by
  intro n hn
  by_cases hne : n = id
  · rw [hne]
    exact h.imported_enter hidle hsource
  · have hold : n ∈ s.engine.inProgress ∨ n ∈ s.client.compiled := by
      rw [Session.compiled_enter] at hn
      simpa [Session.enter, Engine.enter, hne] using hn
    refine (hi n hold).keep h.session (Session.extends_enter trail id)
      (h.session.sources n hold).1 rfl ?_
    rw [Task.pending_append, Task.pending_ofSource_of_ne _ _ hne, List.nil_append]

theorem Coherent.allImported_step (h : Coherent p env ⟨s, task :: rest⟩)
    (hs : task.Step p env s t left)
    (hi : AllImported p ⟨s, task :: rest⟩) : AllImported p ⟨t, left ++ rest⟩ := by
  have hc := h.session
  have hst := h.extends hs
  cases hs with
  | done | missing | skipped | deferred => exact hi.keep hc hst rfl rfl (fun _ => rfl) fun _ => rfl
  | supplied =>
      exact hi.keep hc hst rfl rfl
        (Session.quiet_supplied env s _ (h.targets _ List.mem_cons_self)).imports fun _ => rfl
  | @loaded v a e l hdone hlocate hsource hsupplied hclear hneeded hload =>
      have hev := Engine.evolves_load (h.targets v List.mem_cons_self) hload
      have hprogress := Engine.inProgress_load hload
      intro n hn
      have hold : n ∈ s.engine.inProgress ∨ n ∈ s.client.compiled :=
        hn.imp_left fun hp => hprogress ▸ hp
      refine (hi n hold).keep hc hst (hc.sources n hold).1 (hev.imports_of_ne ?_) ?_
      · rintro rfl
        exact Bool.false_ne_true (hsource.symm.trans (hc.sources _ hold).2.1)
      · rw [Task.pending_append, Task.pending_ofLoaded, List.nil_append,
          Task.pending_cons_of_none rfl]
  | entered hdone hlocate hsource hclear hidle hdeclared =>
      have hrest := h.quiet (Session.quiet_of_registry_eq rfl rfl rfl rfl) rfl
      exact (hi.keep hc (.refl s) rfl rfl (fun _ => rfl) fun _ => rfl).enter hrest
        (Session.not_entered hdone hidle) hdeclared
  | @declared importer trail d =>
      have hprogress : (s.declare env importer d).engine.inProgress = s.engine.inProgress :=
        Engine.inProgress_declareImport ..
      intro n hn
      have hold : n ∈ s.engine.inProgress ∨ n ∈ s.client.compiled :=
        hn.imp_left fun hp => hprogress ▸ hp
      by_cases hne : n = importer
      · subst hne
        exact h.imported_declare (hc.sources n hold).1 (hi n hold)
      · refine (hi n hold).keep hc hst (hc.sources n hold).1 ?_ ?_
        · exact Session.imports_declare_of_ne hne
        · have hother : (Task.declare importer trail d).declares? n = none := if_neg (Ne.symm hne)
          exact (Task.pending_cons_of_none hother).symm
  | @finished id =>
      have hid : id ∈ s.engine.inProgress := h.mem_inProgress.mp List.mem_cons_self
      intro n hn
      have hold : n ∈ s.engine.inProgress ∨ n ∈ s.client.compiled := by
        rcases hn with hn | hn
        · exact .inl (List.dropLast_subset _ hn)
        · rcases List.mem_cons.mp hn with rfl | hn
          · exact .inl hid
          · exact .inr hn
      exact (hi n hold).keep hc hst (hc.sources n hold).1 (Session.imports_finish env s id n)
        (Task.pending_cons_of_none rfl).symm
  | present hensure | refused hensure =>
      have hq := Session.quiet_ensure (s := s) hensure
      exact hi.keep hc hst hq.inProgress hq.compiled hq.imports fun _ => rfl
  | opened hensure havailable hsource hclear hidle hdeclared =>
      have hq := Session.quiet_ensure (s := s) hensure
      have hrest := h.quiet hq rfl
      have hkept := hi.keep hc (Session.extends_ensure hensure) hq.inProgress hq.compiled hq.imports
        fun _ => rfl
      exact hkept.enter hrest
        (Session.not_entered (hrest.session.isDone_of_unavailable havailable) hidle) hdeclared

end Agenda

namespace Plan

variable {p : Plan} {config : Config} {overrides : Option Overrides} {a : Agenda}

theorem Reaches.allImported (h : p.Reaches config overrides a) : a.AllImported p := by
  induction h using Reaches.induction with
  | start =>
      rintro n (hn | hn)
      · cases hn
      · cases hn
  | step hreach hs ih => exact hreach.coherent.allImported_step hs ih

theorem Reaches.namedImports_of_compiled {t : Session Walk} {n : ModuleId}
    (h : p.Reaches config overrides ⟨t, []⟩) (hn : n ∈ t.client.compiled) :
    t.registry.namedImports n =
      NamedImport.addAll [] ((p.sourceImports (t.coordinates n)).map .ofDependency) := by
  obtain ⟨done, hdone, hnames⟩ := h.allImported n (.inr hn)
  have hdone : p.sourceImports (t.coordinates n) = done ++ [] := hdone
  rw [hnames, hdone, List.append_nil]

end Plan

end ModuleResolution
