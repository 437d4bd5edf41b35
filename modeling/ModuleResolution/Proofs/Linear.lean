import Mathlib.Algebra.BigOperators.Group.List.Basic
import Mathlib.Algebra.GroupWithZero.Nat
import Mathlib.Algebra.Order.BigOperators.Group.List
import Mathlib.Algebra.Order.Group.Nat
import ModuleResolution.Proofs.Extent
import ModuleResolution.Proofs.Foundation
import ModuleResolution.Proofs.Limit
import ModuleResolution.Proofs.Log

namespace ModuleResolution

def Plan.importsAt (p : Plan) (c : Coordinates) : Nat :=
  ((p.source? c).map fun src => src.imports.length).getD 0

def Plan.importsTwice (p : Plan) (config : Config) : Nat :=
  if config.foundational = Registry.defaultCoordinates ∧
      (p.artifact? config.foundational).isSome = true then p.importsAt config.foundational
  else 0

def Session.allowance (p : Plan) (s : Session Walk) : Nat :=
  ((s.engine.inProgress ++ s.client.compiled).map fun n => p.importsAt (s.coordinates n)).sum +
    (s.client.loaded.map fun n => (s.registry.module n).imports.length).sum

def Task.isEdge : Task → Bool
  | visit _ | declare .. => true
  | finish _ | root _ => false

theorem Plan.importsAt_eq {p : Plan} {c : Coordinates} {src : SourceModule}
    (h : p.source? c = some src) : p.importsAt c = src.imports.length := by
  rw [importsAt, h]
  rfl

theorem sum_map_append_eq {f g : ModuleId → Nat} {old : List ModuleId} (new : List ModuleId)
    (h : ∀ n ∈ old, f n = g n) :
    ((new ++ old).map f).sum = (new.map f).sum + (old.map g).sum := by
  rw [List.map_append, List.sum_append, List.map_congr_left h]

theorem Session.begun_enter (s : Session Walk) (trail : Trail) (id : ModuleId) :
    ((s.enter trail id).engine.inProgress ++ (s.enter trail id).client.compiled).Perm
      ([id] ++ (s.engine.inProgress ++ s.client.compiled)) := by
  rw [Session.compiled_enter, ← List.append_assoc]
  exact List.perm_append_comm.append_right _

namespace Task

theorem countP_isEdge_ofLoaded (r : Registry) (id : ModuleId) (trail : Trail) (path : Bool) :
    (ofLoaded r id trail path).countP isEdge = (r.module id).imports.length := by
  rw [ofLoaded, List.countP_map, List.countP_eq_length]
  exact fun i _ => rfl

theorem countP_isEdge_ofSource (id : ModuleId) (trail : Trail) (src : SourceModule) :
    (ofSource id trail src).countP isEdge = src.imports.length := by
  rw [ofSource, List.countP_append, List.countP_map]
  exact List.countP_eq_length.mpr fun d _ => rfl

end Task

namespace Agenda

variable {p : Plan} {env : Environment} {s t : Session Walk} {task : Task} {left rest : List Task}

theorem Coherent.allowance_of_step (h : Coherent p env ⟨s, task :: rest⟩)
    (hs : task.Step p env s t left) (sources binaries : List ModuleId)
    (hsources : (t.engine.inProgress ++ t.client.compiled).Perm
      (sources ++ (s.engine.inProgress ++ s.client.compiled)))
    (hbinaries : t.client.loaded = binaries ++ s.client.loaded) :
    t.allowance p = (sources.map fun n => p.importsAt (t.coordinates n)).sum +
      (binaries.map fun n => (t.registry.module n).imports.length).sum + s.allowance p := by
  have hcompiled (n : ModuleId) (hn : n ∈ s.engine.inProgress ++ s.client.compiled) :
      p.importsAt (t.coordinates n) = p.importsAt (s.coordinates n) := by
    have hlt := (h.session.sources n (List.mem_append.mp hn)).1
    rw [Session.coordinates, (h.extends hs).later.coordinates hlt]
  have hloaded (n : ModuleId) (hn : n ∈ s.client.loaded) :
      (t.registry.module n).imports.length = (s.registry.module n).imports.length := by
    rw [h.module_of_done hs (Walk.isDone_eq_true.mpr (.inl hn))]
  rw [Session.allowance, (hsources.map _).sum_eq, sum_map_append_eq sources hcompiled, hbinaries,
    sum_map_append_eq binaries hloaded, Session.allowance]
  omega

theorem Coherent.allowance_of_entered {id : ModuleId} {src : SourceModule}
    (h : Coherent p env ⟨s, task :: rest⟩) (hs : task.Step p env s t left)
    (hbegun : (t.engine.inProgress ++ t.client.compiled).Perm
      ([id] ++ (s.engine.inProgress ++ s.client.compiled)))
    (hloaded : t.client.loaded = s.client.loaded)
    (hdeclared : p.source? (t.coordinates id) = some src) :
    t.allowance p = src.imports.length + s.allowance p := by
  rw [h.allowance_of_step hs [id] [] hbegun hloaded, List.map_singleton, List.sum_singleton,
    Plan.importsAt_eq hdeclared]
  rfl

theorem Coherent.spends_step (h : Coherent p env ⟨s, task :: rest⟩)
    (hs : task.Step p env s t left) :
    t.client.outcomes.length + left.countP Task.isEdge + s.allowance p ≤
      s.client.outcomes.length + [task].countP Task.isEdge + t.allowance p := by
  obtain ⟨new, hnew, hlogs⟩ := h.logs_of_step hs
  have hone := hlogs.length_le
  have hnone (hvisit : ∀ v, task ≠ .visit v) : new.length = 0 := by
    cases hlogs with
    | nothing => rfl
    | _ => exact absurd rfl (hvisit _)
  have hallowance := h.allowance_of_step hs
  have hquiet (hprogress : t.engine.inProgress = s.engine.inProgress)
      (hcompiled : t.client.compiled = s.client.compiled)
      (hloaded : t.client.loaded = s.client.loaded) : t.allowance p = s.allowance p := by
    simpa using hallowance [] [] (by rw [hprogress, hcompiled]; rfl) hloaded
  rw [hnew, List.length_append]
  cases hs with
  | done | missing | supplied | skipped | deferred =>
      rw [hquiet rfl rfl rfl]
      simp only [Task.isEdge, List.countP_nil, List.countP_singleton, if_true]
      omega
  | @loaded v a e l hdone hlocate hsource hsupplied hclear hneeded hload =>
      have hprogress := congrArg (· ++ s.client.compiled) (Engine.inProgress_load hload)
      have hbinary := hallowance [] [v.edge.target] (.of_eq hprogress) rfl
      simp only [List.map_nil, List.sum_nil, List.map_singleton, List.sum_singleton] at hbinary
      rw [Task.countP_isEdge_ofLoaded, hbinary]
      change _ ≤ _ + 1 + (0 + (e.registry.module v.edge.target).imports.length + _)
      omega
  | @entered v a src hdone hlocate hsource hclear hidle hdeclared =>
      have hcompiled := h.allowance_of_entered
        (.entered hdone hlocate hsource hclear hidle hdeclared) (s.begun_enter _ _)
        (Session.loaded_enter _ _ _) hdeclared
      rw [Task.countP_isEdge_ofSource, hcompiled]
      change _ ≤ _ + 1 + _
      omega
  | @declared importer trail d =>
      rw [hquiet (Engine.inProgress_declareImport ..) rfl rfl, hnone fun v hv => by cases hv]
      rfl
  | @finished id =>
      have hsame := hallowance [] [] (by
        change (s.engine.inProgress.dropLast ++ id :: s.client.compiled).Perm _
        rw [h.inProgress_of_finish, List.dropLast_concat, List.nil_append, List.append_assoc]
        exact .refl _) rfl
      rw [hnone (fun v hv => by cases hv), hsame]
      exact Nat.le_of_eq (by simp [Task.isEdge])
  | @present src e id hensure | @refused src e id c hensure =>
      have hprogress : e.inProgress = s.engine.inProgress :=
        congrArg (Engine.inProgress ·.1) hensure.symm
      rw [hquiet hprogress rfl rfl, hnone fun v hv => by cases hv]
      exact Nat.le_refl _
  | @opened src declared e id hensure havailable hsource hclear hidle hdeclared =>
      have hprogress : e.inProgress = s.engine.inProgress :=
        congrArg (Engine.inProgress ·.1) hensure.symm
      have hcompiled := h.allowance_of_entered
        (.opened hensure havailable hsource hclear hidle hdeclared)
        (hprogress ▸ Session.begun_enter ⟨e, s.client⟩ _ _) (Session.loaded_enter _ _ _) hdeclared
      rw [Task.countP_isEdge_ofSource, hcompiled, hnone fun v hv => by cases hv]
      change _ ≤ _ + 0 + _
      omega

def Afforded (p : Plan) (a : Agenda) : Prop :=
  a.session.client.outcomes.length + a.tasks.countP Task.isEdge ≤ 1 + a.session.allowance p

theorem Coherent.afforded_step (h : Coherent p env ⟨s, task :: rest⟩)
    (hs : task.Step p env s t left) (ha : Afforded p ⟨s, task :: rest⟩) :
    Afforded p ⟨t, left ++ rest⟩ := by
  have hspent := h.spends_step hs
  have htasks : (task :: rest).countP Task.isEdge =
      [task].countP Task.isEdge + rest.countP Task.isEdge := by
    rw [← List.countP_append]
    rfl
  simp only [Afforded, List.countP_append] at ha ⊢
  omega

end Agenda

namespace Trail

variable {trail : Trail} {m n : ModuleId}

theorem mem_extend (h : m ∈ (trail.extend n).path) : m ∈ trail.path ∨ m = n := by
  unfold extend at h
  split at h
  · exact .inl h
  · simpa [push, path, or_assoc] using h

theorem nodup_extend (h : trail.path.Nodup) (hn : n ∉ trail.path) :
    (trail.extend n).path.Nodup := by
  unfold extend
  split
  · exact h
  · change (trail.path ++ [n]).Nodup
    exact List.Nodup.append h (List.nodup_singleton n) (List.disjoint_singleton.mpr hn)

end Trail

namespace Agenda

variable {p : Plan} {env : Environment} {s t : Session Walk} {task : Task} {left rest : List Task}

structure Nests (s : Session Walk) (trail : Trail) : Prop where
  nodup : trail.path.Nodup
  entered : ∀ n ∈ trail.path, s.Entered n

theorem Nests.extend {trail : Trail} {n : ModuleId} (h : Nests s trail) (hn : ¬ s.Entered n)
    (hkept : ∀ m, s.Entered m → t.Entered m) (hentered : t.Entered n) :
    Nests t (trail.extend n) where
  nodup := Trail.nodup_extend h.nodup fun hmem => hn (h.entered n hmem)
  entered := fun m hm => (Trail.mem_extend hm).elim (fun hold => hkept m (h.entered m hold))
    fun heq => heq ▸ hentered

theorem nests_start {n : ModuleId} (h : s.Entered n) : Nests s (.start n) where
  nodup := List.nodup_singleton n
  entered := fun _ hm => List.mem_singleton.mp hm ▸ h

theorem Coherent.nests_of_mem_left (h : Coherent p env ⟨s, task :: rest⟩)
    (hs : task.Step p env s t left)
    (htask : ∀ trail, task.trail? = some trail → task = .visit .foundational ∨ Nests s trail)
    {next : Task} (hnext : next ∈ left) {trail : Trail} (htrail : next.trail? = some trail) :
    Nests t trail := by
  have hkept (m : ModuleId) (hm : s.Entered m) : t.Entered m := h.entered_of_step hs hm
  have hvisit (v : Visit) (hv : task = .visit v) (hfresh : ¬ s.Entered v.edge.target)
      (hentered : t.Entered v.edge.target) : Nests t (v.trail.extend v.edge.target) := by
    subst hv
    rcases htask v.trail rfl with hv | hnests
    · cases hv
      exact nests_start hentered
    · exact hnests.extend hfresh hkept hentered
  cases hs with
  | @loaded v a e l hdone hlocate hsource =>
      obtain ⟨i, -, rfl⟩ := Task.mem_ofLoaded hnext
      cases htrail
      refine hvisit v rfl (Session.not_entered hdone ?_)
        (Session.entered_of_done (.inl List.mem_cons_self))
      exact (h.session.idle_of_not_source hsource).1
  | @entered v a src hdone hlocate hsource hclear hidle =>
      rcases Task.mem_ofSource hnext with ⟨d, -, rfl⟩ | rfl
      · cases htrail
        exact hvisit v rfl (Session.not_entered hdone hidle)
          (.inr (by simp [Session.enter, Engine.enter]))
      · cases htrail
  | @opened src declared e id =>
      rcases Task.mem_ofSource hnext with ⟨d, -, rfl⟩ | rfl
      · cases htrail
        have hsame : (Trail.start id).extend id = .start id := by
          simp [Trail.extend, Trail.last, Trail.start]
        rw [hsame]
        exact nests_start (.inr (by simp [Session.enter, Engine.enter]))
      · cases htrail
  | @declared n old d =>
      obtain rfl := List.mem_singleton.mp hnext
      cases htrail
      rcases htask old rfl with hvisit | hnests
      · cases hvisit
      · exact ⟨hnests.nodup, fun m hm => hkept m (hnests.entered m hm)⟩
  | _ => cases hnext

theorem Coherent.entered_cases_of_step {n : ModuleId} (h : Coherent p env ⟨s, task :: rest⟩)
    (hs : task.Step p env s t left) (hn : t.Entered n) :
    s.Entered n ∨ (∃ v, task = .visit v ∧ v.edge.target = n) ∨ t.registry.Canonical n := by
  cases hs with
  | done | missing | supplied | skipped | deferred => exact .inl hn
  | @loaded v a e l hdone hlocate hsource hsupplied hclear hneeded hload =>
      exact (Session.entered_noteLoaded (Engine.inProgress_load hload) hn).imp_right
        fun htarget => .inl ⟨v, rfl, htarget.symm⟩
  | entered =>
      exact (Session.entered_enter hn).imp_right fun htarget => .inl ⟨_, rfl, htarget.symm⟩
  | @declared importer trail d =>
      have hprogress : (s.declare env importer d).engine.inProgress = s.engine.inProgress :=
        Engine.inProgress_declareImport ..
      exact .inl (hn.imp_right fun hmem => hprogress ▸ hmem)
  | @finished id =>
      exact .inl (Session.entered_finish (by simp [h.inProgress_of_finish]) hn)
  | present hensure | refused hensure =>
      obtain rfl := congrArg Prod.fst hensure
      exact .inl hn
  | @opened src declared e id hensure =>
      rcases Session.entered_enter hn with hold | rfl
      · obtain rfl := congrArg Prod.fst hensure
        exact .inl hold
      · refine .inr (.inr ?_)
        obtain rfl := congrArg Prod.fst hensure
        obtain rfl := congrArg Prod.snd hensure
        exact Registry.canonical_ensure h.session.indexed

end Agenda

namespace Plan

variable {p : Plan} {config : Config} {overrides : Option Overrides} {a : Agenda}
  {t : Session Walk} {report : SessionReport}

theorem Reaches.canonical_of_entered {n : ModuleId} (h : p.Reaches config overrides a)
    (hn : a.session.Entered n) :
    a.session.registry.Canonical n ∨ (p.artifact? config.foundational).isSome = true := by
  induction h using Reaches.induction with
  | start => exact hn.elim (fun hdone => by cases hdone) fun hprogress => by cases hprogress
  | @step s t task left rest hreach hs ih =>
      have hc := hreach.coherent
      have hkept (hold : s.registry.Canonical n) : t.registry.Canonical n := by
        obtain ⟨id, -, hev⟩ := hc.evolves_step hs
        exact hev.canonical hc.session.indexed hold
      rcases hc.entered_cases_of_step hs hn with hold | ⟨v, rfl, rfl⟩ | hroot
      · exact (ih hold).imp_left hkept
      · rcases hreach.linked with ha | hlinked
        · exact .inr (artifact_of_agenda ha.symm).2
        · obtain ⟨hedge, -⟩ := hlinked _ List.mem_cons_self
          exact .inl (hkept (hedge.canonical hc.session.linked))
      · exact .inl hroot

theorem Reaches.nests (h : p.Reaches config overrides a) :
    a = p.agenda config ∨
      ∀ task ∈ a.tasks, ∀ trail, task.trail? = some trail → Agenda.Nests a.session trail := by
  induction h using Reaches.induction with
  | start => exact .inl rfl
  | @step s t task left rest hreach hs ih =>
      have hc := hreach.coherent
      refine .inr fun next hnext trail htrail => ?_
      rcases List.mem_append.mp hnext with hleft | hrest
      · refine hc.nests_of_mem_left hs (fun old hold => ?_) hleft htrail
        rcases ih with ha | hnests
        · rcases (trail?_of_agenda ha.symm).1 with hvisit | hnone
          · exact .inl hvisit
          · cases hnone.symm.trans hold
        · exact .inr (hnests task List.mem_cons_self old hold)
      · rcases ih with ha | hnests
        · cases ((trail?_of_agenda ha.symm).2 next hrest).symm.trans htrail
        · have hold := hnests next (List.mem_cons_of_mem _ hrest) trail htrail
          exact ⟨hold.nodup, fun m hm => hc.entered_of_step hs (hold.entered m hm)⟩

theorem Reaches.nested_le (h : p.Reaches config overrides a) {task : Task}
    (htask : task ∈ a.tasks) {trail : Trail} (htrail : task.trail? = some trail) :
    trail.path.Nodup ∧ trail.length ≤ p.depth := by
  rcases h.nests with rfl | hnests
  · rcases List.mem_append.mp htask with hvisit | hroot
    · split at hvisit
      · obtain rfl := List.mem_singleton.mp hvisit
        cases htrail
        exact ⟨List.nodup_singleton _, Nat.succ_le_succ (Nat.zero_le _)⟩
      · cases hvisit
    · obtain ⟨src, -, rfl⟩ := List.mem_map.mp hroot
      cases htrail
  · have hold := hnests task htask trail htrail
    have hle := (List.subperm_of_subset hold.nodup fun n hn =>
      Session.mem_entered.mpr (hold.entered n hn)).length_le
    exact ⟨hold.nodup, Nat.le_trans hle (h.coherent.session.length_entered_le h.addressed)⟩

theorem Reaches.afforded (h : p.Reaches config overrides a) : Agenda.Afforded p a := by
  induction h using Reaches.induction with
  | start =>
      have hroots : (p.sources.map Task.root).countP Task.isEdge = 0 := by
        rw [List.countP_map]
        exact List.countP_eq_zero.mpr fun _ _ => Bool.false_ne_true
      have hopening : ((if (p.artifact? config.foundational).isSome then [Task.visit .foundational]
          else []).countP Task.isEdge) ≤ 1 := by
        split
        · exact Nat.le_refl 1
        · exact Nat.zero_le 1
      have hnothing : (p.agenda config).session.client.outcomes.length = 0 := rfl
      simp only [Agenda.Afforded, hnothing]
      simp only [agenda, List.countP_append, hroots]
      omega
  | step hreach hs ih => exact hreach.coherent.afforded_step hs ih

theorem sum_importsAt_le (p : Plan) {cs : List Coordinates} (hcs : cs.Nodup) :
    (cs.map p.importsAt).sum ≤ (p.sources.map fun src => src.imports.length).sum := by
  have hfound (c : Coordinates) (src : SourceModule) (h : src ∈ p.source? c) :
      src ∈ p.sources ∧ src.coordinates = c :=
    ⟨List.mem_of_find?_eq_some h, by simpa using List.find?_some h⟩
  have hsum : (cs.map p.importsAt).sum =
      ((cs.filterMap p.source?).map fun src => src.imports.length).sum := by
    clear hcs
    induction cs with
    | nil => rfl
    | cons c cs ih => cases hc : p.source? c <;> simp [importsAt, hc, ih]
  have hnodup : (cs.filterMap p.source?).Nodup := hcs.filterMap fun c c' src h h' =>
    (hfound c src h).2.symm.trans (hfound c' src h').2
  have hsubset : cs.filterMap p.source? ⊆ p.sources := by
    intro src hsrc
    obtain ⟨c, -, hc⟩ := List.mem_filterMap.mp hsrc
    exact (hfound c src hc).1
  obtain ⟨srcs, hperm, hsublist⟩ := List.subperm_of_subset hnodup hsubset
  rw [hsum, ← (hperm.map _).sum_eq]
  exact (hsublist.map _).sum_le_sum fun _ _ => Nat.zero_le _

theorem Reaches.sum_compiled_le (h : p.Reaches config overrides a) :
    (a.session.client.compiled.map fun n => p.importsAt (a.session.coordinates n)).sum ≤
      (p.sources.map fun src => src.imports.length).sum + p.importsTwice config := by
  have hc := h.coherent.session
  have hlt (n : ModuleId) (hn : n ∈ a.session.client.compiled) : n < a.session.registry.size :=
    (hc.sources n (.inr hn)).1
  have hmap (ns : List ModuleId) : ns.map (fun n => p.importsAt (a.session.coordinates n)) =
      (ns.map a.session.coordinates).map p.importsAt := by
    rw [List.map_map]
    rfl
  unfold importsTwice
  split
  · have hle := p.sum_importsAt_le (h.addressed.nodup_coordinates hc.compiledNodup hlt)
    rw [← hmap] at hle
    by_cases hmem : Registry.foundational ∈ a.session.client.compiled
    · rw [((List.perm_cons_erase hmem).map _).sum_eq, List.map_cons, List.sum_cons,
        Session.coordinates, h.coordinates_foundational]
      omega
    · rw [List.erase_of_not_mem hmem] at hle
      omega
  · next hnot =>
    have hnodup : (a.session.client.compiled.map a.session.coordinates).Nodup := by
      refine hc.compiledNodup.map_on fun m hm n hn heq => ?_
      by_cases hne : config.foundational = Registry.defaultCoordinates
      · have hcanonical (k : ModuleId) (hk : k ∈ a.session.client.compiled) :
            a.session.registry.Canonical k :=
          (h.canonical_of_entered (Session.entered_of_done (.inr hk))).resolve_right
            fun hartifact => hnot ⟨hne, hartifact⟩
        exact (hcanonical m hm).eq (hcanonical n hn) heq
      · exact (h.faced hne).distinct m (hlt m hm) n (hlt n hn) heq
    rw [hmap]
    exact p.sum_importsAt_le hnodup

theorem length_outcomes_le (hrun : p.run config overrides = .ok report) :
    report.outcomes.length ≤ 1 + (p.sources.map fun src => src.imports.length).sum +
      (report.registry.binaryInputs.map fun input =>
        (report.registry.module input.1).imports.length).sum + p.importsTwice config := by
  obtain ⟨t, ht, rfl⟩ := reaches_of_run hrun
  have hc := ht.coherent.session
  have hafforded : t.client.outcomes.length ≤ 1 + t.allowance p := ht.afforded
  have hcompiled : (t.client.compiled.map fun n => p.importsAt (t.coordinates n)).sum ≤ _ :=
    ht.sum_compiled_le
  have hloaded : (t.client.loaded.map fun n => (t.registry.module n).imports.length).sum ≤
      (t.registry.withImplicitImports.binaryInputs.map fun input =>
        (t.registry.withImplicitImports.module input.1).imports.length).sum := by
    have hinputs : t.client.loaded.reverse = t.registry.binaryInputs.map (·.1) := hc.inputs.symm
    rw [← ((List.reverse_perm _).map _).sum_eq, hinputs, List.map_map,
      Registry.binaryInputs_withImplicitImports]
    refine List.sum_le_sum fun input _ => ?_
    have himports := Registry.imports_withImplicitImports hc.indexed input.1
    rcases himports with himports | himports <;> simp [himports]
  rw [Session.allowance, ht.inProgress_end, List.nil_append] at hafforded
  change t.client.outcomes.length ≤ 1 + _ + (t.registry.withImplicitImports.binaryInputs.map
    fun input => (t.registry.withImplicitImports.module input.1).imports.length).sum + _
  omega

structure Bounded (p : Plan) (config : Config) (overrides : Option Overrides) : Prop where
  session : ∀ below, p.resolveAll (p.environment config overrides)
    (Walk.visitorOver p (p.environment config overrides) below
      (p.sources.length + p.artifacts.length + 1))
    ⟨Engine.start config.foundational, Walk.start⟩ = p.session config overrides
  returns : p.run config overrides ≠ .error .tooDeep
  entered : ∀ a, p.Reaches config overrides a → a.session.entered.Nodup ∧
    a.session.entered.length ≤ p.sources.length + p.artifacts.length + 1
  nested : ∀ a, p.Reaches config overrides a → ∀ task ∈ a.tasks, ∀ trail,
    task.trail? = some trail → trail.path.Nodup ∧
      trail.length ≤ p.sources.length + p.artifacts.length + 1
  logged : ∀ report, p.run config overrides = .ok report →
    report.outcomes.length ≤ 1 + (p.sources.map fun src => src.imports.length).sum +
      (report.registry.binaryInputs.map fun input =>
        (report.registry.module input.1).imports.length).sum + p.importsTwice config

theorem bounded (p : Plan) (config : Config) (overrides : Option Overrides) :
    p.Bounded config overrides where
  session := p.resolveAll_visitorOver config overrides
  returns := by
    rw [Ne, run_eq_error]
    rintro ⟨t, ht⟩
    exact p.session_ne_tooDeep config overrides (congrArg Prod.fst ht)
  entered := fun a ha =>
    ⟨ha.coherent.session.nodup_entered, ha.coherent.session.length_entered_le ha.addressed⟩
  nested := fun a ha task htask trail htrail => ha.nested_le htask htrail
  logged := fun report hrun => length_outcomes_le hrun

def twiceCompiled : Plan where
  sources := [⟨Registry.defaultCoordinates, [⟨"a", "1", false, false⟩, ⟨"b", "1", false, false⟩]⟩]
  artifacts := [⟨Registry.defaultCoordinates, some ⟨3, 2⟩, []⟩]

theorem excess_outcomes_twiceCompiled :
    twiceCompiled.validate = .ok () ∧ foundationalDefault.validate = .ok () ∧
      ∃ report, twiceCompiled.run foundationalDefault none = .ok report ∧
        1 + (twiceCompiled.sources.map fun src => src.imports.length).sum +
          (report.registry.binaryInputs.map fun input =>
            (report.registry.module input.1).imports.length).sum < report.outcomes.length := by
  obtain ⟨report, hrun, hcounts⟩ : ∃ report,
      twiceCompiled.run foundationalDefault none = .ok report ∧
        (report.registry.binaryInputs.isEmpty && report.outcomes.length == 4) = true :=
    exists_report (by decide +kernel)
  simp only [Bool.and_eq_true, List.isEmpty_iff, beq_iff_eq] at hcounts
  refine ⟨by decide +kernel, by decide +kernel, report, hrun, ?_⟩
  rw [hcounts.1, hcounts.2, List.map_nil]
  decide

end Plan

end ModuleResolution
