import Mathlib.Data.List.Basic
import ModuleResolution.Proofs.Extent

namespace ModuleResolution

theorem count_flatMap_of_mem {α β : Type} [BEq β] {l : List α} {f g : α → List β} {a : α}
    {extra : List β} (x : β) (ha : a ∈ l) (hnodup : l.Nodup) (hself : g a = f a ++ extra)
    (hothers : ∀ b ∈ l, b ≠ a → g b = f b) :
    (l.flatMap g).count x = (l.flatMap f).count x + extra.count x := by
  induction l with
  | nil => cases ha
  | cons b l ih =>
      obtain ⟨hb, hnodup⟩ := List.nodup_cons.mp hnodup
      rw [List.flatMap_cons, List.flatMap_cons, List.count_append, List.count_append]
      rcases List.mem_cons.mp ha with rfl | ha
      · have hrest : l.flatMap g = l.flatMap f := by
          refine List.flatMap_congr fun c hc => hothers c (List.mem_cons_of_mem _ hc) ?_
          rintro rfl
          exact hb hc
        rw [hself, hrest, List.count_append]
        omega
      · have hne : b ≠ a := by
          rintro rfl
          exact hb ha
        rw [hothers b List.mem_cons_self hne,
          ih ha hnodup fun c hc => hothers c (List.mem_cons_of_mem _ hc)]
        omega

namespace Plan

variable {p : Plan} {env : Environment} {c : Coordinates}

def locates (p : Plan) (env : Environment) (c : Coordinates) : Bool :=
  (if env.isSource c.name then (p.source? c).isSome else (p.artifact? c).isSome) ||
    (env.origin c).available

def absence (p : Plan) (env : Environment) (c : Coordinates) : List Issue :=
  if p.locates env c then [] else [env.platform.reworded c (.moduleNotFound c.name c.version)]

def loadIssues (p : Plan) (env : Environment) (c : Coordinates) : List Issue :=
  Engine.formatIssues env (p.loadedFace env c) ++
    (p.loadedImports env c).flatMap fun i => p.absence env i.target

def sourceIssues (p : Plan) (env : Environment) (c : Coordinates) : List Issue :=
  (p.sourceImports c).flatMap fun d => p.absence env d.coordinates

def openingIssues (p : Plan) (env : Environment) : List Issue :=
  if (p.artifact? env.config.foundational).isSome then p.absence env env.config.foundational
  else []

theorem absence_of_locates (h : p.locates env c = true) : p.absence env c = [] :=
  if_pos h

theorem absence_not_conflict {x : Issue} (h : x ∈ p.absence env c) : x.isConflict = false := by
  rw [absence] at h
  split at h
  · cases h
  · rw [List.mem_singleton.mp h]
    exact Platform.isConflict_reworded rfl

theorem sourceIssues_eq {src : SourceModule} (h : p.source? c = some src) :
    p.sourceIssues env c = src.imports.flatMap fun d => p.absence env d.coordinates := by
  rw [sourceIssues, sourceImports, h]
  rfl

theorem locates_of_loads (h : p.Loads env c) : p.locates env c = true := by
  simp [locates, h.1, h.2.2]

theorem locates_of_compiles (h : p.Compiles env c) : p.locates env c = true := by
  simp [locates, h.1, h.2]

end Plan

def Environment.lowerIssues (env : Environment) (imports : List NamedImport) : List Issue :=
  imports.flatMap fun i => (env.platform.lowerImport? i.target).toList

theorem Environment.lowerIssues_not_conflict {env : Environment} {is : List NamedImport}
    {x : Issue} (h : x ∈ env.lowerIssues is) : x.isConflict = false := by
  obtain ⟨i, -, hx⟩ := List.mem_flatMap.mp h
  rw [Option.mem_toList, Platform.lowerImport?] at hx
  split at hx
  · cases hx
    rfl
  · cases hx

def Environment.newLowerIssues (env : Environment) (imports : List NamedImport)
    (c : Coordinates) : List Issue :=
  if imports.any (·.target == c) then [] else (env.platform.lowerImport? c).toList

theorem Environment.lowerIssues_add (env : Environment) (is : List NamedImport)
    (i : NamedImport) :
    env.lowerIssues (NamedImport.add is i) =
      env.lowerIssues is ++ env.newLowerIssues is i.target := by
  cases h : is.any (·.target == i.target) with
  | true => simp [NamedImport.add_of_any h, newLowerIssues, h]
  | false => simp [NamedImport.add_of_not_any h, lowerIssues, newLowerIssues, h]

namespace Session

variable {p : Plan} {env : Environment} {s t : Session Walk} {n : ModuleId}

theorem Faced.locates_eq (h : s.Faced p env) (hn : n < s.registry.size)
    (hdone : s.client.isDone n = false) :
    (Walk.locate? p env (s.registry.module n)).isSome = p.locates env (s.coordinates n) := by
  obtain ⟨hl, hk⟩ := Walk.isDone_eq_false.mp hdone
  have hname : (s.registry.module n).name = (s.coordinates n).name := rfl
  have hface (hlook : (s.registry.module n).face = env.origin (s.coordinates n)) :
      ((s.registry.module n).fromPlatform && (s.registry.module n).available) =
        (env.origin (s.coordinates n)).available := by
    change ((s.registry.module n).face.fromPlatform && (s.registry.module n).face.available) = _
    rw [hlook, Environment.fromPlatform_origin, Bool.and_self]
  have horigin (hlook : (s.registry.module n).face = env.origin (s.coordinates n)) :
      (Walk.locate? p env (s.registry.module n)).isSome = p.locates env (s.coordinates n) := by
    rw [Walk.locate?, Plan.locates, hface hlook, ← hname, Option.isSome_or]
    split <;> split <;> simp_all
  cases h.looks n hn with
  | untouched _ hlook | inProgress _ hlook => exact horigin hlook
  | served _ hserves hlook =>
      rw [Walk.locate?_of_artifact hserves.1 hserves.2.2, Plan.locates, hserves.1, hserves.2.2]
      rfl
  | compiled hn => exact absurd hn hk
  | loaded hn => exact absurd hn hl

def issues (s : Session Walk) : List Issue :=
  s.engine.diagnostics.map (·.issue)

def sourceShare (p : Plan) (env : Environment) (s : Session Walk) (n : ModuleId) : List Issue :=
  p.sourceIssues env (s.coordinates n) ++ env.lowerIssues (s.registry.namedImports n)

def loadShare (p : Plan) (env : Environment) (s : Session Walk) (n : ModuleId) : List Issue :=
  p.loadIssues env (s.coordinates n)

def causedIssues (p : Plan) (env : Environment) (s : Session Walk) : List Issue :=
  p.openingIssues env ++ s.client.loaded.flatMap (s.loadShare p env) ++
    (s.client.compiled ++ s.engine.inProgress).flatMap (s.sourceShare p env)

theorem sourceShare_eq (hc : s.Coherent p env) (hst : s.Extends t) (hn : n < s.registry.size)
    (himports : (t.registry.module n).imports = (s.registry.module n).imports) :
    t.sourceShare p env n = s.sourceShare p env n := by
  have hnames := Registry.namedImports_eq hc.indexed (hc.linked _)
    (fun j hj => (hst.grows j hj).coordinates) himports
  rw [sourceShare, Session.coordinates, (hst.grows n hn).coordinates, hnames]
  rfl

theorem flatMap_loadShare_eq (hc : s.Coherent p env) (hst : s.Extends t) :
    s.client.loaded.flatMap (t.loadShare p env) = s.client.loaded.flatMap (s.loadShare p env) :=
  List.flatMap_congr fun n hn => by
    rw [loadShare, Session.coordinates, (hst.grows n (hc.binaries n hn).1).coordinates]
    rfl

theorem flatMap_sourceShare_eq (hc : s.Coherent p env) (hst : s.Extends t)
    (himports : ∀ n, n ∈ s.client.compiled ∨ n ∈ s.engine.inProgress →
      (t.registry.module n).imports = (s.registry.module n).imports) :
    (s.client.compiled ++ s.engine.inProgress).flatMap (t.sourceShare p env) =
      (s.client.compiled ++ s.engine.inProgress).flatMap (s.sourceShare p env) :=
  List.flatMap_congr fun n hn =>
    sourceShare_eq hc hst (hc.sources n (List.mem_append.mp hn).symm).1
      (himports n (List.mem_append.mp hn))

theorem causedIssues_not_conflict {x : Issue} (h : x ∈ s.causedIssues p env) :
    x.isConflict = false := by
  rcases List.mem_append.mp h with h | h
  · rcases List.mem_append.mp h with h | h
    · rw [Plan.openingIssues] at h
      split at h
      · exact Plan.absence_not_conflict h
      · cases h
    · obtain ⟨n, -, hx⟩ := List.mem_flatMap.mp h
      rcases List.mem_append.mp hx with hx | hx
      · exact Engine.formatIssues_not_conflict hx
      · obtain ⟨i, -, hx⟩ := List.mem_flatMap.mp hx
        exact Plan.absence_not_conflict hx
  · obtain ⟨n, -, hx⟩ := List.mem_flatMap.mp h
    rcases List.mem_append.mp hx with hx | hx
    · obtain ⟨d, -, hx⟩ := List.mem_flatMap.mp hx
      exact Plan.absence_not_conflict hx
    · exact Environment.lowerIssues_not_conflict hx

theorem causedIssues_eq (hc : s.Coherent p env) (hst : s.Extends t)
    (hl : t.client.loaded = s.client.loaded) (hk : t.client.compiled = s.client.compiled)
    (hp : t.engine.inProgress = s.engine.inProgress)
    (himports : ∀ n, (t.registry.module n).imports = (s.registry.module n).imports) :
    t.causedIssues p env = s.causedIssues p env := by
  rw [causedIssues, hl, hk, hp, flatMap_loadShare_eq hc hst,
    flatMap_sourceShare_eq hc hst fun n _ => himports n]
  rfl

theorem count_causedIssues_enter {trail : Trail} {id : ModuleId} {x : Issue}
    (hc : s.Coherent p env) (hnot : ¬ s.Entered id) :
    ((s.enter trail id).causedIssues p env).count x =
      (s.causedIssues p env).count x + (p.sourceIssues env (s.coordinates id)).count x := by
  have hshare : s.sourceShare p env id = p.sourceIssues env (s.coordinates id) := by
    rw [sourceShare, Registry.namedImports, hc.bare_of_not_entered hnot]
    exact List.append_nil _
  have hprogress : (s.enter trail id).engine.inProgress = s.engine.inProgress ++ [id] := rfl
  have hsame : (s.enter trail id).sourceShare p env = s.sourceShare p env := rfl
  have hsame' : (s.enter trail id).loadShare p env = s.loadShare p env := rfl
  rw [causedIssues, causedIssues, loaded_enter, compiled_enter, hprogress, hsame, hsame',
    ← List.append_assoc s.client.compiled, List.flatMap_append, List.flatMap_singleton, hshare]
  simp only [List.count_append]
  omega

theorem count_causedIssues_finish {outer : List ModuleId} {id : ModuleId} {x : Issue}
    (hc : s.Coherent p env) (hstack : s.engine.inProgress = outer ++ [id]) :
    ((s.finish id).causedIssues p env).count x = (s.causedIssues p env).count x := by
  have hleft : (s.finish id).engine.inProgress = outer := by
    simp [Session.finish, Engine.leave, Engine.modifyModule, hstack]
  have hst : s.Extends (s.finish id) := extends_finish env id
  have hsources := flatMap_sourceShare_eq (p := p) hc hst fun n _ => imports_finish env s id n
  have hloads := flatMap_loadShare_eq hc hst
  -- the module only moves from the end of the one list to the head of the other
  have hperm : ((s.finish id).client.compiled ++ (s.finish id).engine.inProgress).Perm
      (s.client.compiled ++ s.engine.inProgress) := by
    rw [hleft, hstack, ← List.append_assoc]
    exact (List.perm_append_singleton id _).symm
  have hcount := (hperm.flatMap_right ((s.finish id).sourceShare p env)).count_eq x
  rw [hsources] at hcount
  rw [causedIssues, causedIssues, show (s.finish id).client.loaded = s.client.loaded from rfl,
    hloads]
  simp only [List.count_append] at hcount ⊢
  omega

theorem namedImports_ensure (hc : s.Coherent p env) (c : Coordinates) :
    (s.registry.ensure env.platform c).1.namedImports n = s.registry.namedImports n :=
  Registry.namedImports_eq hc.indexed (hc.linked _)
    (fun _ hj => (Registry.evolves_ensure env.platform n s.registry c).coordinates hj)
    (Registry.imports_ensure s.registry env.platform c n)

theorem issues_declareImport (env : Environment) (e : Engine) (n : ModuleId) (i : Import) :
    (e.declareImport env n i).diagnostics.map (·.issue) =
      e.diagnostics.map (·.issue) ++ e.importAdvice env n i := by
  simp [Engine.diagnostics_declareImport, Function.comp_def]

theorem issues_declare (hc : s.Coherent p env) (d : Dependency) :
    (s.declare env n d).issues =
      s.issues ++ env.newLowerIssues (s.registry.namedImports n) d.coordinates := by
  have htarget := Registry.ensure_lt_size (p := env.platform) (c := d.coordinates) hc.indexed
  have hcoordinates := Registry.coordinates_ensure (p := env.platform) (c := d.coordinates)
    hc.indexed
  have hany : ((s.registry.ensure env.platform d.coordinates).1.module n).imports?
      (s.registry.ensure env.platform d.coordinates).2 =
        (s.registry.namedImports n).any (·.target == d.coordinates) := by
    rw [Module.imports?, Module.import?, List.isSome_find?, Registry.any_target_eq _
      (Registry.linked_ensure hc.indexed hc.linked n) (Registry.canonical_ensure hc.indexed),
      hcoordinates, ← namedImports_ensure hc]
    rfl
  have hmodify : Registry.Evolves env.platform n (s.registry.ensure env.platform d.coordinates).1
      ((s.registry.ensure env.platform d.coordinates).1.modify n
        (·.addImport (s.declaredEdge env d))) :=
    Registry.evolves_modify fun m => Module.grows_addImport m _
  have hissues := issues_declareImport env (s.engine.ensure env d.coordinates).1 n
    (s.declaredEdge env d)
  rw [Engine.importAdvice, show ((s.engine.ensure env d.coordinates).1.registry.module n).imports?
    (s.declaredEdge env d).target = _ from hany, show (((s.engine.ensure env
      d.coordinates).1.registry.modify n _).module (s.declaredEdge env d).target).coordinates = _
      from (hmodify.coordinates htarget).trans hcoordinates] at hissues
  exact hissues

theorem count_causedIssues_declare {d : Dependency} {x : Issue} (hc : s.Coherent p env)
    (hn : n ∈ s.engine.inProgress) :
    ((s.declare env n d).causedIssues p env).count x = (s.causedIssues p env).count x +
      (env.newLowerIssues (s.registry.namedImports n) d.coordinates).count x := by
  have hst : s.Extends (s.declare env n d) := extends_declare env n d
  have hlt := (hc.sources n (.inl hn)).1
  have hprogress : (s.declare env n d).engine.inProgress = s.engine.inProgress :=
    Engine.inProgress_declareImport ..
  have hnames : (s.declare env n d).registry.namedImports n =
      NamedImport.add (s.registry.namedImports n) (.ofDependency d) := by
    rw [registry_declare]
    exact Registry.namedImports_addEdge hc.indexed (hc.linked _) hlt
  have hself : (s.declare env n d).sourceShare p env n = s.sourceShare p env n ++
      env.newLowerIssues (s.registry.namedImports n) d.coordinates := by
    rw [sourceShare, hnames, Environment.lowerIssues_add, Session.coordinates,
      (hst.grows n hlt).coordinates, ← List.append_assoc]
    rfl
  have hothers (m : ModuleId) (hm : m ∈ s.client.compiled ++ s.engine.inProgress) (hne : m ≠ n) :
      (s.declare env n d).sourceShare p env m = s.sourceShare p env m := by
    exact sourceShare_eq hc hst (hc.sources m (List.mem_append.mp hm).symm).1
      (imports_declare_of_ne hne)
  have hnodup : (s.client.compiled ++ s.engine.inProgress).Nodup := by
    refine List.nodup_append.mpr ⟨hc.compiledNodup, hc.inProgressNodup, fun k hk m hm => ?_⟩
    rintro rfl
    exact hc.apart k hm hk
  have hcount := count_flatMap_of_mem x (List.mem_append_right _ hn) hnodup hself hothers
  rw [causedIssues, causedIssues, hprogress,
    show (s.declare env n d).client.loaded = s.client.loaded from rfl,
    show (s.declare env n d).client.compiled = s.client.compiled from rfl,
    flatMap_loadShare_eq hc hst]
  simp only [List.count_append] at hcount ⊢
  omega

theorem issues_ensure {c : Coordinates} {e : Engine} {id : ModuleId}
    (h : s.engine.ensure env c = (e, id)) : (⟨e, s.client⟩ : Session Walk).issues = s.issues := by
  obtain rfl : (s.engine.ensure env c).1 = e := congrArg Prod.fst h
  rfl

theorem formatIssues_face (env : Environment) (m : Module) :
    Engine.formatIssues env m.face = Engine.formatIssues env m := rfl

theorem LoadedAs.issues {v : Visit} {a : Artifact} {e : Engine} {l : Loaded}
    (h : s.LoadedAs p env e v.edge.target) (hid : v.edge.target < s.registry.size)
    (hload : s.engine.load env a v.edge.target v.edge v.trail = (e, l)) :
    e.diagnostics.map (·.issue) = s.issues ++
      Engine.formatIssues env (p.loadedFace env (s.coordinates v.edge.target)) := by
  have hdiagnostics := Engine.diagnostics_load hid hload
  have he : (s.engine.load env a v.edge.target v.edge v.trail).1 = e := congrArg Prod.fst hload
  have hmark : (e.registry.module v.edge.target) =
      ((Engine.loadedRegistry env s.registry v.edge.target a).module
        v.edge.target).markAvailable := by
    rw [← he, Engine.load_registry]
    exact Registry.module_modify_self
      ((Engine.evolves_loadedRegistry env a hid).lt_size hid)
  have hformat : Engine.formatIssues env ((Engine.loadedRegistry env s.registry v.edge.target
      a).module v.edge.target) =
        Engine.formatIssues env (p.loadedFace env (s.coordinates v.edge.target)) := by
    rw [← h.face, formatIssues_face, hmark]
    rfl
  rw [hformat] at hdiagnostics
  rw [hdiagnostics, List.map_append, List.map_map]
  exact congrArg _ (List.map_id _)

theorem count_causedIssues_load {v : Visit} {e : Engine} {l : Loaded} {x : Issue}
    (hc : s.Coherent p env) (h : s.LoadedAs p env e v.edge.target)
    (hst : s.Extends ((s.answer v e (some (.ofLoaded l))).noteLoaded v.edge.target))
    (hid : v.edge.target < s.registry.size)
    (hloads : p.Loads env (s.coordinates v.edge.target)) :
    (((s.answer v e (some (.ofLoaded l))).noteLoaded v.edge.target).causedIssues p env).count x =
      (s.causedIssues p env).count x +
        (p.loadIssues env (s.coordinates v.edge.target)).count x := by
  have hsources := flatMap_sourceShare_eq hc hst fun n hn => by
    refine h.evolves.imports_of_ne ?_
    rintro rfl
    exact hloads.not_compiles (hc.sources _ hn.symm).2
  have hself : ((s.answer v e (some (.ofLoaded l))).noteLoaded v.edge.target).loadShare p env
      v.edge.target = p.loadIssues env (s.coordinates v.edge.target) := by
    rw [loadShare]
    exact congrArg (p.loadIssues env) (h.evolves.coordinates hid)
  have hloaded := flatMap_loadShare_eq hc hst
  have hprogress : ((s.answer v e (some (.ofLoaded l))).noteLoaded
      v.edge.target).engine.inProgress = s.engine.inProgress := h.inProgress
  rw [causedIssues, causedIssues, hprogress, show ((s.answer v e (some (.ofLoaded l))).noteLoaded
      v.edge.target).client.loaded = v.edge.target :: s.client.loaded from rfl,
    show ((s.answer v e (some (.ofLoaded l))).noteLoaded v.edge.target).client.compiled =
      s.client.compiled from rfl, hsources, List.flatMap_cons, hself, hloaded]
  simp only [List.count_append]
  omega

end Session

namespace Task

def owes (p : Plan) (env : Environment) (s : Session Walk) : Task → List Issue
  | visit v => p.absence env (s.coordinates v.edge.target)
  | declare _ _ d => p.absence env d.coordinates
  | finish _ | root _ => []

variable (p : Plan) (env : Environment) (s : Session Walk) (id : ModuleId)

theorem owes_ofSource (trail : Trail) (src : SourceModule) :
    (ofSource id trail src).flatMap (owes p env s) =
      src.imports.flatMap fun d => p.absence env d.coordinates := by
  simp [ofSource, owes, List.flatMap_map]

theorem owes_ofLoaded (trail : Trail) (path : Bool) :
    (ofLoaded s.registry id trail path).flatMap (owes p env s) =
      (s.registry.namedImports id).flatMap fun i => p.absence env i.target := by
  simp [ofLoaded, owes, Registry.namedImports, List.flatMap_map, Registry.named]

end Task

namespace Agenda

variable {p : Plan} {env : Environment} {s t : Session Walk} {task : Task}
  {left rest : List Task}

def Balanced (p : Plan) (env : Environment) (a : Agenda) : Prop :=
  ∀ x : Issue, x.isConflict = false →
    a.session.issues.count x + (a.tasks.flatMap (Task.owes p env a.session)).count x =
      (a.session.causedIssues p env).count x

theorem Coherent.owes_rest (h : Coherent p env ⟨s, task :: rest⟩) (hst : s.Extends t) :
    rest.flatMap (Task.owes p env t) = rest.flatMap (Task.owes p env s) := by
  refine List.flatMap_congr fun next hnext => ?_
  cases next with
  | visit v =>
      have hlt := h.targets v (List.mem_cons_of_mem _ hnext)
      rw [Task.owes, Session.coordinates, (hst.grows _ hlt).coordinates]
      rfl
  | declare | finish | root => rfl

theorem Coherent.owes_located {v : Visit} {a : Artifact} (h : Coherent p env ⟨s, .visit v :: rest⟩)
    (hf : s.Faced p env) (hdone : s.client.isDone v.edge.target = false)
    (hlocate : Walk.locate? p env (s.target v) = some a) :
    Task.owes p env s (.visit v) = [] := by
  refine Plan.absence_of_locates ?_
  rw [← hf.locates_eq (h.targets v List.mem_cons_self) hdone,
    show Walk.locate? p env (s.registry.module v.edge.target) = some a from hlocate]
  rfl

theorem Coherent.owes_done {v : Visit} (h : Coherent p env ⟨s, .visit v :: rest⟩)
    (hdone : s.client.isDone v.edge.target = true) : Task.owes p env s (.visit v) = [] := by
  refine Plan.absence_of_locates ?_
  rcases Walk.isDone_eq_true.mp hdone with hl | hk
  · exact Plan.locates_of_loads (h.session.binaries _ hl).2
  · exact Plan.locates_of_compiles (h.session.sources _ (.inr hk)).2

theorem Coherent.owes_missing {v : Visit} (h : Coherent p env ⟨s, .visit v :: rest⟩)
    (hf : s.Faced p env) (hdone : s.client.isDone v.edge.target = false)
    (hlocate : Walk.locate? p env (s.target v) = none) :
    Task.owes p env s (.visit v) = [env.platform.reworded (s.coordinates v.edge.target)
      (.moduleNotFound (s.coordinates v.edge.target).name
        (s.coordinates v.edge.target).version)] := by
  have hlocates : p.locates env (s.coordinates v.edge.target) = false := by
    rw [← hf.locates_eq (h.targets v List.mem_cons_self) hdone,
      show Walk.locate? p env (s.registry.module v.edge.target) = none from hlocate]
    rfl
  rw [Task.owes, Plan.absence, hlocates]
  rfl

theorem count_issues_conflict {c : Conflict} {x : Issue} (hx : x.isConflict = false) :
    [c.issue].count x = 0 := by
  refine List.count_eq_zero.mpr fun h => ?_
  rw [List.mem_singleton.mp h] at hx
  exact Bool.false_ne_true (hx.symm.trans c.isConflict_issue)

def Pays (p : Plan) (env : Environment) (x : Issue) (s : Session Walk) (task : Task)
    (t : Session Walk) (left : List Task) : Prop :=
  t.issues.count x + (left.flatMap (Task.owes p env t)).count x +
      (s.causedIssues p env).count x =
    s.issues.count x + (Task.owes p env s task).count x + (t.causedIssues p env).count x

theorem pays_of_reports {x : Issue} {new : List Issue} (hissues : t.issues = s.issues ++ new)
    (howes : new.count x = (Task.owes p env s task).count x)
    (hcaused : (t.causedIssues p env).count x = (s.causedIssues p env).count x) :
    Pays p env x s task t [] := by
  rw [Pays, hissues, hcaused, List.count_append, howes]
  rfl

theorem Coherent.pays_loaded {v : Visit} {a : Artifact} {e : Engine} {l : Loaded} {x : Issue}
    (h : Coherent p env ⟨s, .visit v :: rest⟩)
    (hne : env.config.foundational ≠ Registry.defaultCoordinates) (hf : s.Faced p env)
    (hst : s.Extends ((s.answer v e (some (.ofLoaded l))).noteLoaded v.edge.target))
    (hdone : s.client.isDone v.edge.target = false)
    (hlocate : Walk.locate? p env (s.target v) = some a)
    (hsource : env.isSource (s.target v).name = false)
    (hsupplied : env.platform.supplies (s.target v).coordinates = false)
    (hload : s.engine.load env a v.edge.target v.edge v.trail = (e, l)) :
    Pays p env x s (.visit v) ((s.answer v e (some (.ofLoaded l))).noteLoaded v.edge.target)
      (Task.ofLoaded e.registry v.edge.target v.trail v.onBuildPath) := by
  have hc := h.session
  have hid := h.targets v List.mem_cons_self
  have hloads := hc.loads_of_locate? hid (Walk.isDone_eq_false.mp hdone).1 hlocate hsource
    hsupplied
  have hloaded := hf.loadedAs hne hc hid hdone hlocate hsource hsupplied hload
  have hissues : ((s.answer v e (some (.ofLoaded l))).noteLoaded v.edge.target).issues = _ :=
    hloaded.issues hid hload
  have himports : ((s.answer v e (some (.ofLoaded l))).noteLoaded
    v.edge.target).registry.namedImports v.edge.target = _ := hloaded.imports
  have howes := Task.owes_ofLoaded p env
    ((s.answer v e (some (.ofLoaded l))).noteLoaded v.edge.target) v.edge.target v.trail
    v.onBuildPath
  rw [himports] at howes
  rw [Pays, hissues, Session.count_causedIssues_load hc hloaded hst hid hloads,
    h.owes_located hf hdone hlocate, Plan.loadIssues,
    show (Task.ofLoaded e.registry v.edge.target v.trail v.onBuildPath).flatMap _ = _ from howes]
  simp only [List.count_append, List.count_nil]
  omega

theorem pays_enter {src : SourceModule} (trail : Trail) {id : ModuleId} {x : Issue}
    (hc : s.Coherent p env) (hnot : ¬ s.Entered id) (howes : Task.owes p env s task = [])
    (hdeclared : p.source? (s.coordinates id) = some src) :
    Pays p env x s task (s.enter trail id) (Task.ofSource id trail src) := by
  rw [Pays, Session.count_causedIssues_enter hc hnot, Task.owes_ofSource, howes,
    Plan.sourceIssues_eq hdeclared, List.count_nil,
    show (s.enter trail id).issues = s.issues from rfl]
  omega

theorem Coherent.pays_of_step {x : Issue} (h : Coherent p env ⟨s, task :: rest⟩)
    (hne : env.config.foundational ≠ Registry.defaultCoordinates) (hf : s.Faced p env)
    (hs : task.Step p env s t left) (hx : x.isConflict = false) :
    Pays p env x s task t left := by
  have hc : s.Coherent p env := h.session
  have hst := h.extends hs
  have hconflict (c : Conflict) := count_issues_conflict (c := c) hx
  cases hs with
  | done hdone =>
      rw [Pays, h.owes_done hdone]
      rfl
  | missing hdone hlocate =>
      have hcaused := Session.causedIssues_eq (p := p) hc hst rfl rfl rfl fun _ => rfl
      refine pays_of_reports List.map_append ?_ (congrArg _ hcaused)
      rw [h.owes_missing hf hdone hlocate]
      rfl
  | @supplied v a hdone hlocate =>
      have hq := Session.quiet_supplied env s v (h.targets v List.mem_cons_self)
      have hcaused := Session.causedIssues_eq (p := p) hc hst rfl rfl rfl hq.imports
      refine pays_of_reports (List.append_nil _).symm ?_ (congrArg _ hcaused)
      rw [h.owes_located hf hdone hlocate]
  | @skipped v a c hdone hlocate =>
      have hcaused := Session.causedIssues_eq (p := p) hc hst rfl rfl rfl fun _ => rfl
      refine pays_of_reports List.map_append ?_ (congrArg _ hcaused)
      rw [h.owes_located hf hdone hlocate]
      exact hconflict c
  | deferred hdone hlocate =>
      have hcaused := Session.causedIssues_eq (p := p) hc hst rfl rfl rfl fun _ => rfl
      refine pays_of_reports (List.append_nil _).symm ?_ (congrArg _ hcaused)
      rw [h.owes_located hf hdone hlocate]
  | loaded hdone hlocate hsource hsupplied _ _ hload =>
      exact h.pays_loaded hne hf hst hdone hlocate hsource hsupplied hload
  | entered hdone hlocate _ _ hidle hdeclared =>
      exact pays_enter _ hc (Session.not_entered hdone hidle) (h.owes_located hf hdone hlocate)
        hdeclared
  | @declared n trail d =>
      have hn := h.mem_inProgress.mp (List.mem_cons_of_mem _ h.nested.1)
      have hcoordinates : (s.declare env n d).coordinates (s.importedEdge env n d).target =
          d.coordinates := Session.coordinates_importedEdge hc.indexed
      rw [Pays, Session.count_causedIssues_declare hc hn,
        Session.issues_declare hc, List.flatMap_singleton, Task.owes, Task.owes,
        hcoordinates, List.count_append]
      omega
  | finished =>
      exact pays_of_reports (List.append_nil _).symm rfl
        (Session.count_causedIssues_finish hc h.inProgress_of_finish)
  | present hensure =>
      have hq := Session.quiet_ensure (s := s) hensure
      have hcaused := Session.causedIssues_eq hc hst hq.loaded hq.compiled hq.inProgress hq.imports
      refine pays_of_reports (Eq.trans ?_ (List.append_nil _).symm) rfl (congrArg _ hcaused)
      exact Session.issues_ensure hensure
  | @refused src e id c hensure =>
      have hq := Session.quiet_ensure (s := s) hensure
      have hcaused := Session.causedIssues_eq hc hst hq.loaded hq.compiled hq.inProgress hq.imports
      refine pays_of_reports ?_ (hconflict c) (congrArg _ hcaused)
      rw [← Session.issues_ensure hensure]
      exact List.map_append
  | @opened src declared e id hensure havailable hsource hclear hidle hdeclared =>
      have hq := Session.quiet_ensure (s := s) hensure
      have hensured := Session.extends_ensure hensure
      have hrest := hc.quiet hq
      have hpays : Pays p env x ⟨e, s.client⟩ (.root src) _ _ := pays_enter (.start id) hrest
        (Session.not_entered (hrest.isDone_of_unavailable havailable) hidle) rfl hdeclared
      -- the module is on record before it is entered, which changes none of the counts
      rw [Pays, Session.issues_ensure hensure, Session.causedIssues_eq hc hensured hq.loaded
        hq.compiled hq.inProgress hq.imports] at hpays
      exact hpays

theorem Coherent.balanced_step (h : Coherent p env ⟨s, task :: rest⟩)
    (hne : env.config.foundational ≠ Registry.defaultCoordinates) (hf : s.Faced p env)
    (hs : task.Step p env s t left) (hb : Balanced p env ⟨s, task :: rest⟩) :
    Balanced p env ⟨t, left ++ rest⟩ := by
  intro x hx
  have hpays : _ + _ = _ := h.pays_of_step hne hf hs hx
  have hold : s.issues.count x + ((task :: rest).flatMap (Task.owes p env s)).count x =
    (s.causedIssues p env).count x := hb x hx
  change t.issues.count x + ((left ++ rest).flatMap (Task.owes p env t)).count x =
    (t.causedIssues p env).count x
  rw [List.flatMap_cons, List.count_append] at hold
  rw [List.flatMap_append, List.count_append, h.owes_rest (h.extends hs)]
  omega

end Agenda

namespace Plan

variable {p : Plan} {config : Config} {overrides : Option Overrides} {a : Agenda}

theorem balanced_agenda (p : Plan) (config : Config) (overrides : Option Overrides) :
    (p.agenda config).Balanced p (p.environment config overrides) := by
  intro x _
  have hroots : (p.sources.map Task.root).flatMap (Task.owes p (p.environment config overrides)
      (p.agenda config).session) = [] := by
    rw [List.flatMap_map]
    exact List.flatMap_eq_nil_iff.mpr fun _ _ => rfl
  have hf : (p.agenda config).session.coordinates Visit.foundational.edge.target =
      config.foundational := Registry.coordinates_foundational_init _
  have hcaused : (p.agenda config).session.causedIssues p (p.environment config overrides) =
      p.openingIssues (p.environment config overrides) := by
    simp [Session.causedIssues, agenda, Engine.start, Walk.start]
  have howed : (p.agenda config).tasks.flatMap (Task.owes p (p.environment config overrides)
      (p.agenda config).session) = p.openingIssues (p.environment config overrides) := by
    rw [show (p.agenda config).tasks = _ ++ p.sources.map Task.root from rfl, List.flatMap_append,
      hroots, List.append_nil, openingIssues,
      show (p.environment config overrides).config.foundational = config.foundational from rfl]
    split
    · rw [List.flatMap_singleton, Task.owes, hf]
    · rfl
  rw [hcaused, howed]
  exact Nat.zero_add _

theorem Reaches.balanced (hne : config.foundational ≠ Registry.defaultCoordinates)
    (h : p.Reaches config overrides a) :
    a.Balanced p (p.environment config overrides) := by
  induction h using Reaches.induction with
  | start => exact balanced_agenda p config overrides
  | step hreach hs ih => exact hreach.coherent.balanced_step hne (hreach.faced hne) hs ih

theorem Reaches.issues_perm {t : Session Walk}
    (hne : config.foundational ≠ Registry.defaultCoordinates)
    (h : p.Reaches config overrides ⟨t, []⟩)
    (hclear : ∀ d ∈ t.engine.diagnostics, d.issue.isConflict = false) :
    t.issues.Perm (t.causedIssues p (p.environment config overrides)) := by
  refine List.perm_iff_count.mpr fun x => ?_
  cases hx : x.isConflict with
  | false => exact h.balanced hne x hx
  | true =>
      have hissues : x ∉ t.issues := by
        intro hmem
        obtain ⟨d, hd, rfl⟩ := List.mem_map.mp hmem
        exact Bool.false_ne_true ((hclear d hd).symm.trans hx)
      have hcaused : x ∉ t.causedIssues p (p.environment config overrides) := fun hmem =>
        Bool.false_ne_true ((Session.causedIssues_not_conflict hmem).symm.trans hx)
      rw [List.count_eq_zero.mpr hissues, List.count_eq_zero.mpr hcaused]

end Plan

end ModuleResolution
