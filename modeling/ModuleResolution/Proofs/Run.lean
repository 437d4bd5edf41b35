import ModuleResolution.Proofs.Coherent

namespace ModuleResolution

namespace Session

variable {p : Plan} {env : Environment} {s t u : Session Walk}

structure Extends (s t : Session Walk) : Prop where
  size_le : s.registry.size ≤ t.registry.size
  grows : ∀ j < s.registry.size, (s.registry.module j).Grows (t.registry.module j)
  imports : ∀ j, (s.registry.module j).imports ⊆ (t.registry.module j).imports
  loaded : s.client.loaded ⊆ t.client.loaded
  compiled : s.client.compiled ⊆ t.client.compiled
  outcomes : s.client.outcomes <+: t.client.outcomes
  diagnostics : s.engine.diagnostics <+: t.engine.diagnostics

theorem Extends.later (h : Extends s t) : s.registry.Later t.registry :=
  ⟨h.size_le, h.grows⟩

theorem Extends.refl (s : Session Walk) : Extends s s where
  size_le := Nat.le_refl _
  grows := fun _ _ => .refl _
  imports := fun _ => List.Subset.refl _
  loaded := List.Subset.refl _
  compiled := List.Subset.refl _
  outcomes := List.prefix_refl _
  diagnostics := List.prefix_refl _

theorem Extends.trans (h : Extends s t) (k : Extends t u) : Extends s u where
  size_le := Nat.le_trans h.size_le k.size_le
  grows := fun j hj => (h.grows j hj).trans (k.grows j (h.later.lt_size hj))
  imports := fun j => List.Subset.trans (h.imports j) (k.imports j)
  loaded := List.Subset.trans h.loaded k.loaded
  compiled := List.Subset.trans h.compiled k.compiled
  outcomes := h.outcomes.trans k.outcomes
  diagnostics := h.diagnostics.trans k.diagnostics

theorem Quiet.extends (h : Quiet env s t) (ho : s.client.outcomes <+: t.client.outcomes)
    (hd : s.engine.diagnostics <+: t.engine.diagnostics) : Extends s t where
  size_le := h.size_le
  grows := h.grows
  imports := fun j _ hi => (h.imports j).symm ▸ hi
  loaded := fun _ hn => h.loaded.symm ▸ hn
  compiled := fun _ hn => h.compiled.symm ▸ hn
  outcomes := ho
  diagnostics := hd

theorem extends_ensure {c : Coordinates} {e : Engine} {id : ModuleId}
    (h : s.engine.ensure env c = (e, id)) : Extends s ⟨e, s.client⟩ :=
  (quiet_ensure h).extends (List.prefix_refl _)
    (congrArg (Engine.diagnostics ·.1) h ▸ List.prefix_refl _)

theorem extends_answer {e : Engine} (v : Visit) (resolution : Option Resolution)
    (hr : (s.answer v e resolution).registry = s.registry)
    (hd : s.engine.diagnostics <+: e.diagnostics) : Extends s (s.answer v e resolution) where
  size_le := Nat.le_of_eq (congrArg Registry.size hr.symm)
  grows := fun _ _ => hr.symm ▸ .refl _
  imports := fun _ _ hi => hr.symm ▸ hi
  loaded := List.Subset.refl _
  compiled := List.Subset.refl _
  outcomes := List.prefix_append _ _
  diagnostics := hd

theorem extends_enter (trail : Trail) (id : ModuleId) : Extends s (s.enter trail id) := by
  refine ⟨Nat.le_refl _, fun _ _ => .refl _, fun _ => List.Subset.refl _, ?_, ?_, ?_,
    List.prefix_refl _⟩
  all_goals
    simp only [Session.enter]
    split
  · exact List.Subset.refl _
  · exact List.Subset.refl _
  · exact List.Subset.refl _
  · exact List.Subset.refl _
  · exact List.prefix_refl _
  · exact List.prefix_append _ _

theorem extends_declare (env : Environment) (n : ModuleId) (d : Dependency) :
    Extends s (s.declare env n d) := by
  have hensured : Extends s ⟨(s.engine.ensure env d.coordinates).1, s.client⟩ := extends_ensure rfl
  refine hensured.trans ?_
  have hev := evolves_addEdge env s n d
  refine ⟨hev.size_le, fun j hj => hev.grows hj, fun j i hi => ?_, List.Subset.refl _,
    List.Subset.refl _, List.prefix_refl _, ⟨_, (Engine.diagnostics_declareImport env _ n _).symm⟩⟩
  by_cases hne : j = n
  · have hn : j < (s.registry.ensure env.platform d.coordinates).1.size :=
      Registry.lt_size_of_mem hi
    rw [registry_declare, hne, Registry.module_modify_self (hne ▸ hn)]
    exact Module.imports_subset_addImport _ _ (hne ▸ hi)
  · exact (hev.imports_of_ne hne).symm ▸ hi

theorem extends_finish (env : Environment) (id : ModuleId) : Extends s (s.finish id) :=
  ⟨(evolves_finish env s id).size_le, fun _ hj => (evolves_finish env s id).grows hj,
    fun j _ hi => (imports_finish env s id j).symm ▸ hi, List.Subset.refl _,
    List.subset_cons_self _ _, List.prefix_refl _, List.prefix_refl _⟩

theorem Coherent.extends_load {v : Visit} {a : Artifact} {e : Engine} {l : Loaded}
    (h : s.Coherent p env) (hid : v.edge.target < s.registry.size)
    (hdone : s.client.isDone v.edge.target = false)
    (hsource : env.isSource (s.target v).name = false)
    (hload : s.engine.load env a v.edge.target v.edge v.trail = (e, l)) :
    Extends s ((s.answer v e (some (.ofLoaded l))).noteLoaded v.edge.target) := by
  obtain ⟨hl, hc⟩ := Walk.isDone_eq_false.mp hdone
  have hev := Engine.evolves_load hid hload
  have hdiagnostics := Engine.diagnostics_load hid hload
  refine ⟨hev.size_le, fun j hj => hev.grows hj, fun j => ?_, List.subset_cons_self _ _,
    List.Subset.refl _, List.prefix_append _ _, ⟨_, hdiagnostics.symm⟩⟩
  by_cases hne : j = v.edge.target
  · rw [hne, h.bare _ (h.idle_of_not_source hsource).1 hc hl]
    exact List.nil_subset _
  · exact fun i hi => (hev.imports_of_ne hne).symm ▸ hi

end Session

namespace Agenda

variable {p : Plan} {env : Environment} {s t : Session Walk} {task : Task} {left rest : List Task}

theorem Coherent.extends (h : Coherent p env ⟨s, task :: rest⟩) (hs : task.Step p env s t left) :
    Session.Extends s t := by
  cases hs with
  | done => exact .refl s
  | missing => exact Session.extends_answer _ _ rfl (List.prefix_append _ _)
  | supplied =>
      exact (Session.quiet_supplied env s _ (h.targets _ List.mem_cons_self)).extends
        (List.prefix_append _ _) (List.prefix_refl _)
  | skipped => exact Session.extends_answer _ _ rfl (List.prefix_append _ _)
  | deferred => exact Session.extends_answer _ _ rfl (List.prefix_refl _)
  | loaded hdone hlocate hsource hsupplied hclear hneeded hload =>
      exact h.session.extends_load (h.targets _ List.mem_cons_self) hdone hsource hload
  | entered => exact Session.extends_enter _ _
  | declared => exact Session.extends_declare env _ _
  | finished => exact Session.extends_finish env _
  | present hensure => exact Session.extends_ensure hensure
  | @refused src e id c hensure =>
      have hreport : Session.Quiet env ⟨e, s.client⟩ ⟨e.reportConflict c (.start id), s.client⟩ :=
        Session.quiet_of_registry_eq rfl rfl rfl rfl
      exact (Session.extends_ensure hensure).trans
        (hreport.extends (List.prefix_refl _) (List.prefix_append _ _))
  | opened hensure => exact (Session.extends_ensure hensure).trans (Session.extends_enter _ _)

theorem Coherent.evolves_step (h : Coherent p env ⟨s, task :: rest⟩)
    (hs : task.Step p env s t left) :
    ∃ id, s.client.isDone id = false ∧
      Registry.Evolves env.platform id s.registry t.registry := by
  have hc := h.session
  have hnew : s.client.isDone s.registry.size = false := by
    rw [← Bool.not_eq_true, Walk.isDone_eq_true]
    exact fun hdone => Nat.lt_irrefl _ (hc.done_lt_size hdone)
  cases hs with
  | done | missing | skipped | deferred | entered => exact ⟨_, hnew, .refl _ _ _⟩
  | supplied hdone =>
      exact ⟨_, hdone, Registry.evolves_modify fun m => Module.grows_setUp env.platform m⟩
  | @loaded v a e l hdone hlocate hsource hsupplied hclear hneeded hload =>
      exact ⟨_, hdone, Engine.evolves_load (h.targets v List.mem_cons_self) hload⟩
  | @declared importer trail d =>
      have hn := h.mem_inProgress.mp (List.mem_cons_of_mem _ h.nested.1)
      exact ⟨importer, hc.isDone_of_inProgress hn,
        Session.evolves_declare (hc.sources importer (.inl hn)).1⟩
  | @finished id =>
      have hn := h.mem_inProgress.mp List.mem_cons_self
      exact ⟨id, hc.isDone_of_inProgress hn, Session.evolves_finish env s id⟩
  | @present src e id hensure | @refused src e id c hensure | @opened src declared e id hensure =>
      obtain rfl : (s.engine.ensure env src.coordinates).1 = e := congrArg Prod.fst hensure
      exact ⟨_, hnew, Registry.evolves_ensure env.platform _ s.registry src.coordinates⟩

theorem Coherent.module_of_done {n : ModuleId} (h : Coherent p env ⟨s, task :: rest⟩)
    (hs : task.Step p env s t left) (hn : s.client.isDone n = true) :
    t.registry.module n = s.registry.module n := by
  obtain ⟨id, hid, hev⟩ := h.evolves_step hs
  refine hev.others n (h.session.done_lt_size (Walk.isDone_eq_true.mp hn)) ?_
  rintro rfl
  exact Bool.false_ne_true (hid.symm.trans hn)

theorem Leads.coherent {a b : Agenda} (h : Leads p env a b) (ha : a.Coherent p env) :
    b.Coherent p env := by
  induction h with
  | refl => exact ha
  | tail _ hn ih =>
      cases hn with
      | step hs => exact ih.step hs

theorem Leads.extends {a b : Agenda} (h : Leads p env a b) (ha : a.Coherent p env) :
    a.session.Extends b.session := by
  induction h with
  | refl => exact .refl _
  | tail hl hn ih =>
      cases hn with
      | step hs => exact ih.trans ((Leads.coherent hl ha).extends hs)

theorem Leads.found {a b : Agenda} {c : Coordinates} {n : ModuleId} (h : Leads p env a b)
    (ha : a.Coherent p env) (hf : a.session.registry.find? c = some n) :
    b.session.registry.find? c = some n := by
  induction h with
  | refl => exact hf
  | tail hl hn ih =>
      cases hn with
      | step hs =>
          obtain ⟨id, -, hev⟩ := (Leads.coherent hl ha).evolves_step hs
          exact hev.found _ _ ih

end Agenda

theorem ResolveM.discard_apply {ω α : Type} (m : ResolveM ω α) (s : Session ω) :
    (discard m : ResolveM ω Unit) s = ((m s).1.map fun _ => (), (m s).2) := by
  change (ExceptT.map (fun _ => ()) m : ResolveM ω Unit) s = _
  simp only [ExceptT.map, ExceptT.mk, bind, StateT.bind]
  rcases m s with ⟨result, t⟩
  cases result <;> rfl

namespace Registry

theorem indexed_init (c : Coordinates) : (init c).Indexed := by
  intro id hid
  match id, hid with
  | 0, _ | 1, _ => rfl

theorem coordinates_foundational_init (c : Coordinates) :
    ((init c).module foundational).coordinates = c :=
  Module.coordinates_fresh _ _ _

theorem find?_default_init (c : Coordinates) :
    (init c).find? defaultCoordinates = some defaultModule :=
  find?_append_self _ _ _

theorem find?_foundational_init (c : Coordinates) :
    (init c).find? c = some (if c = defaultCoordinates then defaultModule else foundational) := by
  rw [init, find?_append, find?_append, if_pos rfl]
  by_cases hc : c = defaultCoordinates
  · rw [if_pos hc.symm, if_pos hc]
    rfl
  · rw [if_neg (Ne.symm hc), if_neg hc]
    rfl

theorem imports_init (c : Coordinates) (id : ModuleId) : ((init c).module id).imports = [] := by
  match id with
  | 0 | 1 | _ + 2 => rfl

theorem fromPlatform_init (c : Coordinates) (id : ModuleId) :
    ((init c).module id).fromPlatform = false := by
  match id with
  | 0 | 1 | _ + 2 => rfl

theorem available_init (c : Coordinates) (id : ModuleId) :
    ((init c).module id).available = false := by
  match id with
  | 0 | 1 | _ + 2 => rfl

theorem fromBinary_init (c : Coordinates) (id : ModuleId) :
    ((init c).module id).fromBinary = false := by
  match id with
  | 0 | 1 | _ + 2 => rfl

theorem isDefault_init (c : Coordinates) (id : ModuleId) :
    ((init c).module id).isDefault = true ↔ id = defaultModule := by
  match id with
  | 0 | 1 | _ + 2 => simp [init, append, module, Module.fresh, defaultModule]

theorem binaryVersion_init (c : Coordinates) (id : ModuleId) :
    ((init c).module id).binaryVersion = none := by
  match id with
  | 0 | 1 | _ + 2 => rfl

theorem conflict?_init (c : Coordinates) (id : ModuleId) : (init c).conflict? id = none := by
  simp [conflict?, clashes, isBinaryInput, init, append]

end Registry

namespace Plan

variable {p : Plan} {config : Config} {overrides : Option Overrides} {t : Session Walk}

def agenda (p : Plan) (config : Config) : Agenda where
  session := ⟨Engine.start config.foundational, Walk.start⟩
  tasks := (if (p.artifact? config.foundational).isSome then [.visit .foundational] else []) ++
    p.sources.map .root

theorem imports_agenda (p : Plan) (config : Config) (n : ModuleId) :
    ((p.agenda config).session.registry.module n).imports = [] :=
  Registry.imports_init _ n

abbrev Reaches (p : Plan) (config : Config) (overrides : Option Overrides) : Agenda → Prop :=
  Agenda.Leads p (p.environment config overrides) (p.agenda config)

theorem isSource_environment (config : Config) (overrides : Option Overrides) {src : SourceModule}
    (h : src ∈ p.sources) :
    (p.environment config overrides).isSource src.coordinates.name = true := by
  simp only [environment, Environment.isSource, List.contains_iff_mem]
  exact List.mem_map_of_mem h

theorem coherent_agenda (p : Plan) (config : Config) (overrides : Option Overrides) :
    (p.agenda config).Coherent p (p.environment config overrides) := by
  have hnil {α : Type} {a : α} : a ∉ ([] : List α) := List.not_mem_nil
  have htask {task : Task} (h : task ∈ (p.agenda config).tasks) :
      task = .visit .foundational ∨ ∃ src ∈ p.sources, task = .root src := by
    rcases List.mem_append.mp h with h | h
    · split at h
      · exact .inl (List.mem_singleton.mp h)
      · cases h
    · obtain ⟨src, hsrc, rfl⟩ := List.mem_map.mp h
      exact .inr ⟨src, hsrc, rfl⟩
  have hsession : (p.agenda config).session.Coherent p (p.environment config overrides) :=
    { indexed := Registry.indexed_init _
      linked := fun n i hi => absurd (imports_agenda p config n ▸ hi) hnil
      builtIn := Nat.le_refl 2
      inProgressNodup := List.nodup_nil
      loadedNodup := List.nodup_nil
      compiledNodup := List.nodup_nil
      apart := fun n hn => absurd hn hnil
      sources := fun n hn => hn.elim (absurd · hnil) (absurd · hnil)
      binaries := fun n hn => absurd hn hnil
      inputs := rfl
      artifacts := fun n hn => absurd hn hnil
      bare := fun n _ _ _ => imports_agenda p config n
      fromPlatform := fun n _ hn => absurd ((Registry.fromPlatform_init _ n).symm.trans hn)
        Bool.false_ne_true
      available := fun n hn => hn.elim (absurd · hnil) (absurd · hnil) }
  refine ⟨hsession, fun v hv => ?targets, ?nested, ?stack, fun src hsrc => ?roots⟩
  case targets =>
    rcases htask hv with hv | ⟨src, -, hv⟩
    · cases hv
      exact Nat.zero_lt_two
    · cases hv
  case nested =>
    rw [agenda]
    split <;> induction p.sources with
      | nil => trivial
      | cons src sources ih => exact ih
  case stack =>
    change List.filterMap Task.finishes? _ = []
    refine List.filterMap_eq_nil_iff.mpr fun task h => ?_
    rcases htask h with rfl | ⟨src, -, rfl⟩ <;> rfl
  case roots =>
    rcases htask hsrc with h | ⟨src', hmem, h⟩
    · cases h
    · cases h
      exact hmem

variable {env : Environment} {s : Session Walk} {deeper : Option Visitor} {depth : Nat}

theorem follows_resolveFoundational (rest : List Task)
    (hdeeper : Agenda.Descends p (p.environment config overrides) depth deeper) :
    Agenda.Follows p (p.environment config overrides) (depth + 1)
      ⟨(p.agenda config).session,
        (if (p.artifact? config.foundational).isSome then [.visit .foundational] else []) ++ rest⟩
      rest
      (p.resolveFoundational (p.environment config overrides) deeper
        (p.agenda config).session) := by
  rw [resolveFoundational, show (p.environment config overrides).config.foundational =
    config.foundational from rfl]
  cases ha : p.artifact? config.foundational with
  | none => exact .done .refl
  | some a =>
      have hc : ((p.agenda config).session.target .foundational).coordinates =
          config.foundational := Registry.coordinates_foundational_init _
      refine Agenda.follows_resolve hdeeper rfl (.inr ⟨rfl, by rw [hc, ha]; rfl⟩) ?_
      cases hsource : (p.environment config overrides).isSource
          ((p.agenda config).session.target .foundational).name with
      | true => exact .inr ⟨rfl, Registry.conflict?_init _ _⟩
      | false =>
          refine .inl ?_
          simp [Walk.locate?, hsource, hc, ha]

theorem follows_resolveSource {src : SourceModule} (rest : List Task)
    (hdeeper : Agenda.Descends p env depth deeper) (hindexed : s.registry.Indexed)
    (hidle : s.engine.inProgress = []) (hcompiles : p.Compiles env src.coordinates) :
    Agenda.Follows p env (depth + 1) ⟨s, .root src :: rest⟩ rest
      (p.resolveSource env deeper src s) := by
  rcases hensure : s.engine.ensure env src.coordinates with ⟨e, id⟩
  have hcoordinates : (e.registry.module id).coordinates = src.coordinates :=
    (Session.ensured hindexed hensure).2
  have hname : (e.registry.module id).name = src.coordinates.name :=
    congrArg Coordinates.name hcoordinates
  -- rules out the decisions on binary modules
  have hnot (hs : env.isSource (e.registry.module id).name = false) : False :=
    Bool.false_ne_true (hs.symm.trans (hname ▸ hcompiles.1))
  have he : e = (s.engine.ensure env src.coordinates).1 := congrArg Prod.fst hensure.symm
  have hidle : e.inProgress = [] := by
    rw [he]
    exact hidle
  simp only [resolveSource, ResolveM.bind_apply, ResolveM.ensure, ResolveM.registry,
    ResolveM.get_apply, ResolveM.modify_apply, ResolveM.pure_apply, hensure]
  cases havailable : (e.registry.module id).available with
  | true =>
      simp only [Session.onEngine, havailable]
      exact .of_step (.present hensure havailable) (.done .refl)
  | false =>
      simp only [Session.onEngine, havailable, Bool.false_eq_true, if_false]
      rw [ResolveM.discard_apply, ResolveM.resolve_apply]
      have hdecides := Engine.decides_step env e
        ⟨src.artifact, id, ⟨id, false, false, none⟩, .start id, true⟩
      generalize e.step env ⟨src.artifact, id, ⟨id, false, false, none⟩, .start id, true⟩ =
        decided at hdecides ⊢
      cases hdecides with
      | supplied hs => exact (hnot hs).elim
      | skipped hchecked hconflict =>
          exact .of_step (.refused hensure havailable hconflict) (.done .refl)
      | cycle hs hclear hbusy => exact absurd hbusy (hidle ▸ List.not_mem_nil)
      | delegate hs hclear hfree =>
          obtain ⟨declared, hdeclared⟩ := Option.isSome_iff_exists.mp hcompiles.2
          rw [← hcoordinates] at hdeclared
          have hbelow := Agenda.follows_delegate (s := ⟨e, s.client⟩) hdeeper
            ⟨src.artifact, id, ⟨id, false, false, none⟩, .start id, true⟩ rest hdeclared
          have hbegins : ((⟨e, s.client⟩ : Session Walk).enter (.start id) id).entered.length =
              s.entered.length + 1 := by
            rw [Session.length_entered_enter, he]
            rfl
          have hfollows := hbelow.enter
            (.opened hensure havailable hs hclear hfree hdeclared) hbegins
          generalize ResolveM.delegate _ _ _ = result at hfollows ⊢
          cases hfollows with
          | done h => exact .done h
          | failed h hfails ht => exact .failed h hfails ht
          | tooDeep h => exact .tooDeep h
      | load hs => exact (hnot hs).elim
      | deferred hs => exact (hnot hs).elim

theorem follows_sources (sources : List SourceModule)
    (hdeeper : Agenda.Descends p (p.environment config overrides) depth deeper)
    (hc : Agenda.Coherent p (p.environment config overrides) ⟨s, sources.map .root⟩) :
    Agenda.Follows p (p.environment config overrides) (depth + 1) ⟨s, sources.map .root⟩ []
      (sources.forM (p.resolveSource (p.environment config overrides) deeper) s) := by
  induction sources generalizing s with
  | nil => exact .done .refl
  | cons src sources ih =>
      have hsrc : src ∈ p.sources := hc.roots src List.mem_cons_self
      have hidle : s.engine.inProgress = [] := by
        have hnone : ((src :: sources).map Task.root).filterMap Task.finishes? = [] := by
          rw [List.filterMap_map]
          exact List.filterMap_eq_nil_iff.mpr fun _ _ => rfl
        exact List.reverse_eq_nil_iff.mp (hc.stack.symm.trans hnone)
      have hcompiles : p.Compiles (p.environment config overrides) src.coordinates :=
        ⟨isSource_environment config overrides hsrc, hasSource_iff.mp ⟨src, hsrc, rfl⟩⟩
      change Agenda.Follows _ _ _ _ [] ((p.resolveSource _ deeper src >>=
        fun _ => sources.forM (p.resolveSource _ deeper)) s)
      exact (follows_resolveSource (sources.map .root) hdeeper hc.session.indexed hidle
        hcompiles).bind fun t ht => ih (ht.coherent hc)

theorem follows_session (p : Plan) (config : Config) (overrides : Option Overrides) :
    Agenda.Follows p (p.environment config overrides) (p.depth + 1) (p.agenda config) []
      (p.session config overrides) := by
  have hdeeper := Agenda.descends_visitor? p (p.environment config overrides) p.depth
  exact (follows_resolveFoundational (p.sources.map .root) hdeeper).bind fun t ht =>
    follows_sources p.sources hdeeper (ht.coherent (coherent_agenda p config overrides))

theorem reaches_of_session (h : p.session config overrides = (.ok (), t)) :
    p.Reaches config overrides ⟨t, []⟩ := by
  have hfollows := follows_session p config overrides
  rw [h] at hfollows
  cases hfollows with
  | done h => exact h

def Opened (p : Plan) (config : Config) (overrides : Option Overrides) (s : Session Walk) : Prop :=
  Registry.foundational ∈ s.client.loaded ∨
    ¬ p.Loads (p.environment config overrides) config.foundational

variable {a : Agenda}

@[elab_as_elim]
theorem Reaches.induction {motive : (a : Agenda) → p.Reaches config overrides a → Prop}
    (start : motive (p.agenda config) .refl)
    (step : ∀ {s t : Session Walk} {task : Task} {left rest : List Task}
      (hreach : p.Reaches config overrides ⟨s, task :: rest⟩)
      (hs : task.Step p (p.environment config overrides) s t left),
      motive ⟨s, task :: rest⟩ hreach → motive ⟨t, left ++ rest⟩ (hreach.tail (.step hs)))
    (h : p.Reaches config overrides a) : motive a h := by
  induction h with
  | refl => exact start
  | tail hreach hn ih =>
      cases hn with
      | step hs => exact step hreach hs ih

theorem Reaches.coherent (h : p.Reaches config overrides a) :
    a.Coherent p (p.environment config overrides) :=
  Agenda.Leads.coherent h (coherent_agenda p config overrides)

theorem Reaches.inProgress_end (h : p.Reaches config overrides ⟨t, []⟩) :
    t.engine.inProgress = [] :=
  List.reverse_eq_nil_iff.mp h.coherent.stack.symm

theorem Reaches.coordinates_foundational (h : p.Reaches config overrides a) :
    (a.session.registry.module Registry.foundational).coordinates = config.foundational := by
  have hgrows := (Agenda.Leads.extends h (coherent_agenda p config overrides)).grows
    Registry.foundational Nat.zero_lt_two
  exact hgrows.coordinates.trans (Registry.coordinates_foundational_init _)

theorem Reaches.find?_foundational (h : p.Reaches config overrides a) :
    a.session.registry.find? config.foundational =
      some (if config.foundational = Registry.defaultCoordinates then Registry.defaultModule
        else Registry.foundational) :=
  Agenda.Leads.found h (coherent_agenda p config overrides)
    (Registry.find?_foundational_init config.foundational)

theorem opened_of_step {s : Session Walk} {task : Task} {left rest : List Task}
    (ha : p.agenda config = ⟨s, task :: rest⟩)
    (hartifact : (p.artifact? config.foundational).isSome = true)
    (hs : task.Step p (p.environment config overrides) s t left) :
    p.Opened config overrides t := by
  by_cases hloads : p.Loads (p.environment config overrides) config.foundational
  · refine .inl ?_
    obtain rfl : (p.agenda config).session = s := congrArg Agenda.session ha
    obtain rfl : .visit .foundational = task := by
      have htasks := congrArg Agenda.tasks ha
      simp only [agenda, hartifact] at htasks
      exact (List.cons.inj htasks).1
    have hc : ((p.agenda config).session.target .foundational).coordinates = config.foundational :=
      Registry.coordinates_foundational_init _
    have hsource : (p.environment config overrides).isSource
        ((p.agenda config).session.target .foundational).name = false := by
      have hname : ((p.agenda config).session.target .foundational).name =
        config.foundational.name := congrArg Coordinates.name hc
      rw [hname]
      exact hloads.1
    cases hs with
    | done hdone => cases hdone
    | missing _ hlocate =>
        obtain ⟨a, ha⟩ := Option.isSome_iff_exists.mp hartifact
        rw [← hc] at ha
        simp [Walk.locate?, hsource, ha] at hlocate
    | supplied _ _ _ hsupplied =>
        rw [hc] at hsupplied
        cases hloads.2.1.symm.trans hsupplied
    | skipped _ _ _ hconflict => cases (Registry.conflict?_init _ _).symm.trans hconflict
    | deferred _ _ _ _ hpath => cases hpath
    | loaded => exact List.mem_cons_self
    | entered _ _ hentered => cases hsource.symm.trans hentered
  · exact .inr hloads

theorem Reaches.opened (h : p.Reaches config overrides a) :
    a = p.agenda config ∧ (p.artifact? config.foundational).isSome = true ∨
      p.Opened config overrides a.session := by
  induction h using Reaches.induction with
  | start =>
      cases ha : (p.artifact? config.foundational).isSome with
      | true => exact .inl ⟨rfl, rfl⟩
      | false => exact .inr (.inr fun hl => Bool.false_ne_true (ha.symm.trans hl.2.2))
  | step hreach hs ih =>
      rcases ih with ⟨ha, hartifact⟩ | hopened
      · exact .inr (opened_of_step ha.symm hartifact hs)
      · exact .inr (hopened.imp_left fun hm => (hreach.coherent.extends hs).loaded hm)

theorem Reaches.loads_strictly {s : Session Walk} {v : Visit} {rest : List Task}
    (h : p.Reaches config overrides ⟨s, .visit v :: rest⟩)
    (hdone : s.client.isDone v.edge.target = false)
    (hloads : p.Loads (p.environment config overrides) (s.target v).coordinates)
    (hneeded : v.onBuildPath = true ∨
      Engine.loadsAnyway (p.environment config overrides) v.edge.target = true) :
    v.onBuildPath = true ∨ config.loadTransitive = true := by
  rcases hneeded with hpath | hanyway
  · exact .inl hpath
  · simp only [Engine.loadsAnyway, Bool.or_eq_true, beq_iff_eq] at hanyway
    rcases hanyway with htarget | hpolicy
    -- the foundational module: its first visit is on the build path, and after that it is loaded
    · rcases h.opened with ⟨ha, hartifact⟩ | hmem | hnot
      · have htasks := congrArg Agenda.tasks ha
        simp only [agenda, hartifact] at htasks
        cases (List.cons.inj htasks).1
        exact .inl rfl
      · exact absurd (htarget.symm ▸ hmem) (Walk.isDone_eq_false.mp hdone).1
      · have hc := h.coordinates_foundational
        rw [← htarget] at hc
        exact absurd (hc ▸ hloads) hnot
    · exact .inr hpolicy

end Plan

end ModuleResolution
