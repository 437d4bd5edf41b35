import ModuleResolution.Proofs.Agenda

namespace ModuleResolution

namespace Plan

def HasSource (p : Plan) (c : Coordinates) : Prop :=
  ∃ src ∈ p.sources, src.coordinates = c

theorem hasSource_iff {p : Plan} {c : Coordinates} :
    p.HasSource c ↔ (p.source? c).isSome = true := by
  simp [HasSource, source?, List.find?_isSome]

def Compiles (p : Plan) (env : Environment) (c : Coordinates) : Prop :=
  env.isSource c.name = true ∧ (p.source? c).isSome = true

def Loads (p : Plan) (env : Environment) (c : Coordinates) : Prop :=
  env.isSource c.name = false ∧ env.platform.supplies c = false ∧ (p.artifact? c).isSome = true

def Serves (p : Plan) (env : Environment) (c : Coordinates) : Prop :=
  env.isSource c.name = false ∧ env.platform.supplies c = true ∧ (p.artifact? c).isSome = true

theorem Loads.not_compiles {p : Plan} {env : Environment} {c : Coordinates}
    (h : p.Loads env c) : ¬ p.Compiles env c := by
  intro hc
  exact Bool.false_ne_true (h.1.symm.trans hc.1)

end Plan

theorem Walk.locate?_of_artifact {p : Plan} {env : Environment} {m : Module}
    (hsource : env.isSource m.name = false)
    (hartifact : (p.artifact? m.coordinates).isSome = true) :
    (locate? p env m).isSome = true := by
  obtain ⟨a, ha⟩ := Option.isSome_iff_exists.mp hartifact
  simp [locate?, hsource, ha]

theorem Walk.locate?_of_compiles {p : Plan} {env : Environment} {m : Module}
    (h : p.Compiles env m.coordinates) : (locate? p env m).isSome = true := by
  obtain ⟨src, hsrc⟩ := Option.isSome_iff_exists.mp h.2
  rw [Agenda.locate?_of_source h.1 hsrc]
  rfl

theorem Walk.isDone_eq_false {w : Walk} {id : ModuleId} :
    w.isDone id = false ↔ id ∉ w.loaded ∧ id ∉ w.compiled := by
  simp [isDone]

theorem Walk.isDone_eq_true {w : Walk} {id : ModuleId} :
    w.isDone id = true ↔ id ∈ w.loaded ∨ id ∈ w.compiled := by
  simp [isDone]

namespace Registry

variable {r : Registry} {id : ModuleId} {i : Import}

theorem modify_addImport_of_imports? (h : (r.module id).imports? i.target = true) :
    r.modify id (·.addImport i) = r :=
  modify_eq_self (by simp [Module.addImport_eq, h])

end Registry

namespace Engine

theorem registry_declareImport (env : Environment) (e : Engine) (n : ModuleId) (i : Import) :
    (e.declareImport env n i).registry = e.registry.modify n (·.addImport i) := by
  cases h : (e.registry.module n).imports? i.target with
  | true => simp [declareImport, defineImport, h, Registry.modify_addImport_of_imports? h]
  | false =>
      simp only [declareImport, defineImport, Module.insertImport_snd, h, Bool.not_false, if_true]
      split <;> rfl

theorem inProgress_declareImport (env : Environment) (e : Engine) (n : ModuleId) (i : Import) :
    (e.declareImport env n i).inProgress = e.inProgress := by
  simp only [declareImport, defineImport]
  split
  · split <;> rfl
  · rfl

def importAdvice (env : Environment) (e : Engine) (n : ModuleId) (i : Import) : List Issue :=
  if (e.registry.module n).imports? i.target then []
  else (env.platform.lowerImport?
    ((e.registry.modify n (·.addImport i)).module i.target).coordinates).toList

theorem diagnostics_declareImport (env : Environment) (e : Engine) (n : ModuleId) (i : Import) :
    (e.declareImport env n i).diagnostics = e.diagnostics ++ (e.importAdvice env n i).map
      fun issue => ⟨.warning .importsOtherPlatform, .importOf n i.target, issue⟩ := by
  cases h : (e.registry.module n).imports? i.target with
  | true => simp [declareImport, defineImport, importAdvice, h]
  | false =>
      simp only [declareImport, defineImport, Module.insertImport_snd, importAdvice, h,
        Bool.not_false, if_true, Bool.false_eq_true, if_false, modifyModule]
      split
      · next issue hissue => simp [report, hissue]
      · next hissue => simp [hissue]

end Engine

namespace Session

variable {p : Plan} {env : Environment} {s t : Session Walk} {id n : ModuleId}

@[simp] theorem loaded_enter (s : Session Walk) (trail : Trail) (id : ModuleId) :
    (s.enter trail id).client.loaded = s.client.loaded := by
  simp only [Session.enter]
  split <;> rfl

@[simp] theorem compiled_enter (s : Session Walk) (trail : Trail) (id : ModuleId) :
    (s.enter trail id).client.compiled = s.client.compiled := by
  simp only [Session.enter]
  split <;> rfl

structure Quiet (env : Environment) (s t : Session Walk) : Prop where
  size_le : s.registry.size ≤ t.registry.size
  grows : ∀ j < s.registry.size, (s.registry.module j).Grows (t.registry.module j)
  indexed : s.registry.Indexed → t.registry.Indexed
  found : ∀ c n, s.registry.find? c = some n → t.registry.find? c = some n
  imports : ∀ j, (t.registry.module j).imports = (s.registry.module j).imports
  fromPlatform : ∀ j, (t.registry.module j).fromPlatform = true →
    (s.registry.module j).fromPlatform = true ∨
      env.platform.supplies (t.registry.module j).coordinates = true
  binaryInputs : t.registry.binaryInputs = s.registry.binaryInputs
  inProgress : t.engine.inProgress = s.engine.inProgress
  loaded : t.client.loaded = s.client.loaded
  compiled : t.client.compiled = s.client.compiled

theorem quiet_of_registry_eq (hr : t.registry = s.registry)
    (hp : t.engine.inProgress = s.engine.inProgress) (hl : t.client.loaded = s.client.loaded)
    (hc : t.client.compiled = s.client.compiled) : Quiet env s t where
  size_le := Nat.le_of_eq (by rw [hr])
  grows := fun j _ => by
    rw [hr]
    exact .refl _
  indexed := fun h => by rwa [hr]
  found := fun _ _ h => by rwa [hr]
  imports := fun j => by rw [hr]
  fromPlatform := fun j h => .inl (by rwa [hr] at h)
  binaryInputs := by rw [hr]
  inProgress := hp
  loaded := hl
  compiled := hc

theorem Quiet.later (h : Quiet env s t) : s.registry.Later t.registry :=
  ⟨h.size_le, h.grows⟩

theorem Quiet.canonical (h : Quiet env s t) (hr : s.registry.Indexed)
    (hn : s.registry.Canonical n) : t.registry.Canonical n := by
  rw [Registry.Canonical, (h.grows n (hn.lt_size hr)).coordinates]
  exact h.found _ _ hn

theorem quiet_supplied (env : Environment) (s : Session Walk) (v : Visit)
    (hv : v.edge.target < s.registry.size) :
    Quiet env s
      (s.answer v (s.engine.modifyModule v.edge.target env.platform.setUp) (some .platform)) := by
  have h : Registry.Evolves env.platform v.edge.target s.registry
      (s.registry.modify v.edge.target env.platform.setUp) :=
    Registry.evolves_modify fun m => Module.grows_setUp env.platform m
  refine ⟨h.size_le, fun j hj => h.grows hj, h.indexed, h.found, fun j => ?_, fun j hj => ?_, rfl,
    rfl, rfl, rfl⟩
  · by_cases hne : j = v.edge.target
    · subst hne
      exact (congrArg Module.imports (Registry.module_modify_self hv)).trans
        (Module.imports_setUp _ _)
    · exact h.imports_of_ne hne
  · by_cases hne : j = v.edge.target
    · subst hne
      change ((s.registry.modify v.edge.target env.platform.setUp).module _).fromPlatform = true
        at hj
      rw [Registry.module_modify_self hv] at hj
      refine (Module.fromPlatform_setUp hj).imp_right fun hsup => ?_
      exact (h.coordinates hv).symm ▸ hsup
    · exact h.fromPlatform_of_ne hne hj

theorem quiet_ensure {c : Coordinates} {e : Engine} (h : s.engine.ensure env c = (e, id)) :
    Quiet env s ⟨e, s.client⟩ := by
  obtain rfl : (s.engine.ensure env c).1 = e := congrArg Prod.fst h
  have he (j : ModuleId) := Registry.evolves_ensure env.platform (j + 1) s.registry c
  have hne (j : ModuleId) : j ≠ j + 1 := Nat.ne_of_lt (Nat.lt_succ_self j)
  exact ⟨(he 0).size_le, fun j hj => (he 0).grows hj, (he 0).indexed, (he 0).found,
    fun j => (he j).imports_of_ne (hne j), fun j hj => (he j).fromPlatform_of_ne (hne j) hj,
    Registry.binaryInputs_ensure _ _ _, rfl, rfl, rfl⟩

theorem ensured {c : Coordinates} {e : Engine} (hr : s.registry.Indexed)
    (h : s.engine.ensure env c = (e, id)) :
    id < e.registry.size ∧ (e.registry.module id).coordinates = c := by
  obtain rfl : (s.engine.ensure env c).1 = e := congrArg Prod.fst h
  obtain rfl : (s.engine.ensure env c).2 = id := congrArg Prod.snd h
  exact ⟨Registry.ensure_lt_size hr, Registry.coordinates_ensure hr⟩

structure Coherent (p : Plan) (env : Environment) (s : Session Walk) : Prop where
  indexed : s.registry.Indexed
  linked : s.registry.Linked
  builtIn : 2 ≤ s.registry.size
  inProgressNodup : s.engine.inProgress.Nodup
  loadedNodup : s.client.loaded.Nodup
  compiledNodup : s.client.compiled.Nodup
  apart : ∀ n ∈ s.engine.inProgress, n ∉ s.client.compiled
  sources : ∀ n, n ∈ s.engine.inProgress ∨ n ∈ s.client.compiled →
    n < s.registry.size ∧ p.Compiles env (s.registry.module n).coordinates
  binaries : ∀ n ∈ s.client.loaded,
    n < s.registry.size ∧ p.Loads env (s.registry.module n).coordinates
  inputs : s.registry.binaryInputs.map (·.1) = s.client.loaded.reverse
  artifacts : ∀ input ∈ s.registry.binaryInputs,
    (p.artifact? (s.registry.module input.1).coordinates).map PlannedArtifact.artifact =
      some input.2
  bare : ∀ n, n ∉ s.engine.inProgress → n ∉ s.client.compiled → n ∉ s.client.loaded →
    (s.registry.module n).imports = []
  fromPlatform : ∀ n < s.registry.size, (s.registry.module n).fromPlatform = true →
    n ∈ s.client.loaded ∨ env.platform.supplies (s.registry.module n).coordinates = true
  available : ∀ n, n ∈ s.client.loaded ∨ n ∈ s.client.compiled →
    (s.registry.module n).available = true

theorem Coherent.target_lt {i : Import} (h : s.Coherent p env)
    (hi : i ∈ (s.registry.module n).imports) : i.target < s.registry.size :=
  h.linked.lt_size h.indexed hi

theorem Coherent.foundational_lt (h : s.Coherent p env) :
    Registry.foundational < s.registry.size :=
  Nat.lt_of_lt_of_le Nat.zero_lt_two h.builtIn

theorem Coherent.isBinaryInput_iff (h : s.Coherent p env) :
    s.registry.isBinaryInput id = true ↔ id ∈ s.client.loaded := by
  rw [← List.mem_reverse, ← h.inputs]
  simp [Registry.isBinaryInput]

theorem Coherent.input_lt_size (h : s.Coherent p env) {input : ModuleId × Artifact}
    (hi : input ∈ s.registry.binaryInputs) : input.1 < s.registry.size := by
  refine (h.binaries _ ?_).1
  rw [← List.mem_reverse, ← h.inputs]
  exact List.mem_map_of_mem hi

theorem Coherent.done_lt_size (h : s.Coherent p env)
    (hn : n ∈ s.client.loaded ∨ n ∈ s.client.compiled) : n < s.registry.size := by
  rcases hn with hn | hn
  · exact (h.binaries n hn).1
  · exact (h.sources n (.inr hn)).1

theorem Coherent.not_loaded_of_inProgress (h : s.Coherent p env) (hn : n ∈ s.engine.inProgress) :
    n ∉ s.client.loaded :=
  fun hl => (h.binaries n hl).2.not_compiles (h.sources n (.inl hn)).2

theorem Coherent.isDone_of_inProgress (h : s.Coherent p env) (hn : n ∈ s.engine.inProgress) :
    s.client.isDone n = false :=
  Walk.isDone_eq_false.mpr ⟨h.not_loaded_of_inProgress hn, h.apart n hn⟩

theorem Coherent.isDone_of_unavailable (h : s.Coherent p env)
    (hn : (s.registry.module n).available = false) : s.client.isDone n = false := by
  rw [← Bool.not_eq_true, Walk.isDone_eq_true]
  intro hdone
  exact Bool.false_ne_true (hn.symm.trans (h.available n hdone))

theorem Coherent.not_fromPlatform (h : s.Coherent p env) (hid : id < s.registry.size)
    (hl : id ∉ s.client.loaded)
    (hsupplied : env.platform.supplies (s.registry.module id).coordinates = false) :
    (s.registry.module id).fromPlatform = false := by
  rw [← Bool.not_eq_true]
  intro hp
  rcases h.fromPlatform id hid hp with hin | hsup
  · exact hl hin
  · exact Bool.false_ne_true (hsupplied.symm.trans hsup)

theorem Coherent.artifact_of_locate? {a : Artifact} (h : s.Coherent p env)
    (hid : id < s.registry.size) (hl : id ∉ s.client.loaded)
    (hlocate : Walk.locate? p env (s.registry.module id) = some a)
    (hsource : env.isSource (s.registry.module id).name = false)
    (hsupplied : env.platform.supplies (s.registry.module id).coordinates = false) :
    (p.artifact? (s.registry.module id).coordinates).map PlannedArtifact.artifact = some a := by
  simpa [Walk.locate?, hsource, h.not_fromPlatform hid hl hsupplied] using hlocate

theorem Coherent.loads_of_locate? {a : Artifact} (h : s.Coherent p env)
    (hid : id < s.registry.size) (hl : id ∉ s.client.loaded)
    (hlocate : Walk.locate? p env (s.registry.module id) = some a)
    (hsource : env.isSource (s.registry.module id).name = false)
    (hsupplied : env.platform.supplies (s.registry.module id).coordinates = false) :
    p.Loads env (s.registry.module id).coordinates := by
  refine ⟨hsource, hsupplied, ?_⟩
  rw [← Option.isSome_map, h.artifact_of_locate? hid hl hlocate hsource hsupplied]
  rfl

section

variable {r : Registry} (h : s.Coherent p env) (hr : s.registry.Later r)

include h hr

theorem Coherent.sources_later (hn : n ∈ s.engine.inProgress ∨ n ∈ s.client.compiled) :
    n < r.size ∧ p.Compiles env (r.module n).coordinates := by
  obtain ⟨hlt, hc⟩ := h.sources n hn
  rw [hr.coordinates hlt]
  exact ⟨hr.lt_size hlt, hc⟩

theorem Coherent.binaries_later (hn : n ∈ s.client.loaded) :
    n < r.size ∧ p.Loads env (r.module n).coordinates := by
  obtain ⟨hlt, hl⟩ := h.binaries n hn
  rw [hr.coordinates hlt]
  exact ⟨hr.lt_size hlt, hl⟩

theorem Coherent.artifacts_later {input : ModuleId × Artifact}
    (hi : input ∈ s.registry.binaryInputs) :
    (p.artifact? (r.module input.1).coordinates).map PlannedArtifact.artifact = some input.2 := by
  rw [hr.coordinates (h.input_lt_size hi)]
  exact h.artifacts input hi

theorem Coherent.available_later (hn : n ∈ s.client.loaded ∨ n ∈ s.client.compiled) :
    (r.module n).available = true :=
  (hr.grows n (h.done_lt_size hn)).available (h.available n hn)

end

theorem Coherent.fromPlatform_of_ne {r : Registry} (h : s.Coherent p env)
    (hev : Registry.Evolves env.platform id s.registry r) (hne : n ≠ id)
    (hn : (r.module n).fromPlatform = true) :
    n ∈ s.client.loaded ∨ env.platform.supplies (r.module n).coordinates = true := by
  by_cases hlt : n < s.registry.size
  · rw [hev.coordinates hlt]
    rw [hev.others n hlt hne] at hn
    exact h.fromPlatform n hlt hn
  · refine .inr ((hev.fromPlatform_of_ne hne hn).resolve_left fun hold => ?_)
    rw [Registry.module_of_size_le (Nat.le_of_not_lt hlt)] at hold
    cases hold

theorem Coherent.quiet (h : s.Coherent p env) (hq : Quiet env s t) : t.Coherent p env where
  indexed := hq.indexed h.indexed
  linked := by
    intro n i hi
    rw [hq.imports] at hi
    exact hq.canonical h.indexed (h.linked n i hi)
  builtIn := Nat.le_trans h.builtIn hq.size_le
  inProgressNodup := hq.inProgress ▸ h.inProgressNodup
  loadedNodup := hq.loaded ▸ h.loadedNodup
  compiledNodup := hq.compiled ▸ h.compiledNodup
  apart := by
    rw [hq.inProgress, hq.compiled]
    exact h.apart
  sources := by
    intro n hn
    rw [hq.inProgress, hq.compiled] at hn
    exact h.sources_later hq.later hn
  binaries := by
    intro n hn
    rw [hq.loaded] at hn
    exact h.binaries_later hq.later hn
  inputs := by rw [hq.binaryInputs, hq.loaded, h.inputs]
  artifacts := by
    intro input hi
    rw [hq.binaryInputs] at hi
    exact h.artifacts_later hq.later hi
  bare := by
    intro n hp hc hl
    rw [hq.imports]
    exact h.bare n (hq.inProgress ▸ hp) (hq.compiled ▸ hc) (hq.loaded ▸ hl)
  fromPlatform := by
    intro n _ hn
    rcases hq.fromPlatform n hn with hn | hsup
    · by_cases hlt : n < s.registry.size
      · rw [hq.loaded, (hq.grows n hlt).coordinates]
        exact h.fromPlatform n hlt hn
      · rw [Registry.module_of_size_le (Nat.le_of_not_lt hlt)] at hn
        cases hn
    · exact .inr hsup
  available := by
    intro n hn
    rw [hq.loaded, hq.compiled] at hn
    exact h.available_later hq.later hn

theorem Coherent.enter {trail : Trail} (h : s.Coherent p env) (hid : id < s.registry.size)
    (hdone : s.client.isDone id = false) (hidle : id ∉ s.engine.inProgress)
    (hc : p.Compiles env (s.registry.module id).coordinates) :
    (s.enter trail id).Coherent p env := by
  obtain ⟨hl, hcompiled⟩ := Walk.isDone_eq_false.mp hdone
  have hloaded := loaded_enter s trail id
  have hcomp := compiled_enter s trail id
  have hmem (n : ModuleId) : n ∈ (s.enter trail id).engine.inProgress ↔
      n ∈ s.engine.inProgress ∨ n = id := by simp [Session.enter, Engine.enter]
  refine ⟨h.indexed, h.linked, h.builtIn, ?inProgressNodup, hloaded ▸ h.loadedNodup,
    hcomp ▸ h.compiledNodup, ?apart, ?sources, hloaded ▸ h.binaries, hloaded ▸ h.inputs,
    h.artifacts, ?bare, hloaded ▸ h.fromPlatform, ?available⟩
  case inProgressNodup =>
    exact List.nodup_append.mpr ⟨h.inProgressNodup, by simp, by
      intro n hn m hm
      rw [List.mem_singleton.mp hm]
      rintro rfl
      exact hidle hn⟩
  case apart =>
    intro n hn
    rw [hcomp]
    rcases (hmem n).mp hn with hn | rfl
    · exact h.apart n hn
    · exact hcompiled
  case sources =>
    intro n hn
    rw [hcomp, hmem] at hn
    rcases hn with (hn | rfl) | hn
    · exact h.sources n (.inl hn)
    · exact ⟨hid, hc⟩
    · exact h.sources n (.inr hn)
  case bare =>
    intro n hp hcn hln
    rw [hmem, not_or] at hp
    exact h.bare n hp.1 (hcomp ▸ hcn) (hloaded ▸ hln)
  case available =>
    rw [hloaded, hcomp]
    exact h.available

theorem Coherent.idle_of_not_source (h : s.Coherent p env)
    (hsource : env.isSource (s.registry.module id).name = false) :
    id ∉ s.engine.inProgress ∧ id ∉ s.client.compiled := by
  constructor <;> intro hn
  · exact Bool.false_ne_true (hsource.symm.trans (h.sources id (.inl hn)).2.1)
  · exact Bool.false_ne_true (hsource.symm.trans (h.sources id (.inr hn)).2.1)

theorem Coherent.load {v : Visit} {a : Artifact} {e : Engine} {l : Loaded}
    (h : s.Coherent p env) (hid : v.edge.target < s.registry.size)
    (hdone : s.client.isDone v.edge.target = false)
    (hlocate : Walk.locate? p env (s.target v) = some a)
    (hsource : env.isSource (s.target v).name = false)
    (hsupplied : env.platform.supplies (s.target v).coordinates = false)
    (hload : s.engine.load env a v.edge.target v.edge v.trail = (e, l)) :
    ((s.answer v e (some (.ofLoaded l))).noteLoaded v.edge.target).Coherent p env := by
  obtain ⟨hl, -⟩ := Walk.isDone_eq_false.mp hdone
  have hartifact := h.artifact_of_locate? hid hl hlocate hsource hsupplied
  have hev := Engine.evolves_load hid hload
  have hlinked := Engine.linked_load hid hload h.indexed h.linked
  have hinputs := Engine.binaryInputs_load hload
  have hprogress := Engine.inProgress_load hload
  -- so the list of binary inputs grows by this one
  have hnew : s.registry.isBinaryInput v.edge.target = false := by
    rw [← Bool.not_eq_true, h.isBinaryInput_iff]
    exact hl
  rw [Registry.addBinaryInput_eq, if_neg (Bool.not_eq_true _ ▸ hnew)] at hinputs
  refine ⟨hev.indexed h.indexed, hlinked, Nat.le_trans h.builtIn hev.size_le,
    hprogress ▸ h.inProgressNodup, List.nodup_cons.mpr ⟨hl, h.loadedNodup⟩, h.compiledNodup,
    hprogress ▸ h.apart, ?sources, ?binaries, ?inputs, ?artifacts, ?bare, ?fromPlatform, ?available⟩
  case sources =>
    exact fun n hn => h.sources_later hev.later (hprogress ▸ hn)
  case binaries =>
    intro n hn
    rcases List.mem_cons.mp hn with rfl | hn
    · refine ⟨hev.lt_size hid, ?_⟩
      exact (hev.coordinates hid).symm ▸ h.loads_of_locate? hid hl hlocate hsource hsupplied
    · exact h.binaries_later hev.later hn
  case inputs =>
    change e.registry.binaryInputs.map (·.1) = (v.edge.target :: s.client.loaded).reverse
    rw [hinputs, List.map_append, h.inputs, List.reverse_cons]
    rfl
  case artifacts =>
    intro input hi
    change input ∈ e.registry.binaryInputs at hi
    change (p.artifact? (e.registry.module input.1).coordinates).map _ = _
    rw [hinputs] at hi
    rcases List.mem_append.mp hi with hi | hi
    · exact h.artifacts_later hev.later hi
    · rw [List.mem_singleton.mp hi, hev.coordinates hid]
      exact hartifact
  case bare =>
    intro n hp hc hln
    obtain ⟨hne, hln⟩ := not_or.mp (mt List.mem_cons.mpr hln)
    refine (hev.imports_of_ne hne).trans (h.bare n ?_ hc hln)
    exact hprogress ▸ hp
  case fromPlatform =>
    intro n hlt hn
    by_cases hne : n = v.edge.target
    · exact .inl (hne ▸ List.mem_cons_self)
    · exact (h.fromPlatform_of_ne hev hne hn).imp_left (List.mem_cons_of_mem _)
  case available =>
    intro n hn
    by_cases hne : n = v.edge.target
    · have hself := Engine.available_load hid hload
      exact hne ▸ hself
    · have hn : n ∈ s.client.loaded ∨ n ∈ s.client.compiled :=
        hn.imp_left fun hl => (List.mem_cons.mp hl).resolve_left hne
      exact h.available_later hev.later hn

theorem Coherent.declareImport {i : Import} (h : s.Coherent p env) (hn : n ∈ s.engine.inProgress)
    (hi : s.registry.Canonical i.target) :
    (⟨s.engine.declareImport env n i, s.client⟩ : Session Walk).Coherent p env := by
  have hev : Registry.Evolves env.platform n s.registry (s.registry.modify n (·.addImport i)) :=
    Registry.evolves_modify fun m => Module.grows_addImport m i
  have hlinked : (s.registry.modify n (·.addImport i)).Linked :=
    Registry.linked_addImport h.indexed h.linked hi
  have hsize : (s.registry.modify n (·.addImport i)).size = s.registry.size :=
    Registry.size_modify _ _ _
  have hinputs : (s.registry.modify n (·.addImport i)).binaryInputs = s.registry.binaryInputs := rfl
  have hregistry := Engine.registry_declareImport env s.engine n i
  have hprogress := Engine.inProgress_declareImport env s.engine n i
  generalize s.engine.declareImport env n i = e at hregistry hprogress ⊢
  rw [← hregistry] at hev hlinked hsize hinputs
  refine ⟨hev.indexed h.indexed, hlinked, Nat.le_trans h.builtIn hev.size_le,
    hprogress ▸ h.inProgressNodup, h.loadedNodup, h.compiledNodup, hprogress ▸ h.apart, ?sources,
    ?binaries, hinputs ▸ h.inputs, ?artifacts, ?bare, ?fromPlatform,
    fun m hm => h.available_later hev.later hm⟩
  case sources =>
    exact fun m hm => h.sources_later hev.later (hprogress ▸ hm)
  case binaries =>
    exact fun m hm => h.binaries_later hev.later hm
  case artifacts =>
    exact fun input hm => h.artifacts_later hev.later (hinputs ▸ hm)
  case bare =>
    intro m hp hc hl
    have hp : m ∉ s.engine.inProgress := hprogress ▸ hp
    have hne : m ≠ n := by
      rintro rfl
      exact hp hn
    exact (hev.imports_of_ne hne).trans (h.bare m hp hc hl)
  case fromPlatform =>
    intro m hlt hm
    by_cases hne : m = n
    · have hlt : m < s.registry.size := hsize ▸ hlt
      have hself : (e.registry.module n).fromPlatform = (s.registry.module n).fromPlatform := by
        rw [hregistry, Registry.module_modify_self (hne ▸ hlt), Module.fromPlatform_addImport]
      rw [hev.coordinates hlt]
      refine h.fromPlatform m hlt ?_
      rw [hne] at hm ⊢
      exact hself ▸ hm
    · exact h.fromPlatform_of_ne hev hne hm

theorem registry_declare (env : Environment) (s : Session Walk) (n : ModuleId) (d : Dependency) :
    (s.declare env n d).registry = (s.registry.ensure env.platform d.coordinates).1.modify n
      (·.addImport (s.declaredEdge env d)) :=
  Engine.registry_declareImport ..

theorem evolves_addEdge (env : Environment) (s : Session Walk) (n : ModuleId) (d : Dependency) :
    Registry.Evolves env.platform n (s.registry.ensure env.platform d.coordinates).1
      (s.declare env n d).registry := by
  rw [registry_declare]
  exact Registry.evolves_modify fun m => Module.grows_addImport m _

theorem evolves_declare {d : Dependency} (hn : n < s.registry.size) :
    Registry.Evolves env.platform n s.registry (s.declare env n d).registry :=
  (Registry.evolves_ensure env.platform n s.registry d.coordinates).trans hn
    (evolves_addEdge env s n d)

theorem imports_declare_of_ne {d : Dependency} (hne : id ≠ n) :
    ((s.declare env n d).registry.module id).imports = (s.registry.module id).imports := by
  rw [registry_declare, Registry.module_modify_of_ne hne, Registry.imports_ensure]

theorem Coherent.declare {d : Dependency} (h : s.Coherent p env) (hn : n ∈ s.engine.inProgress) :
    (s.declare env n d).Coherent p env := by
  have hq : Quiet env s ⟨(s.engine.ensure env d.coordinates).1, s.client⟩ := quiet_ensure rfl
  refine (h.quiet hq).declareImport ?_ (Registry.canonical_ensure h.indexed)
  exact hq.inProgress.symm ▸ hn

theorem evolves_finish (env : Environment) (s : Session Walk) (id : ModuleId) :
    Registry.Evolves env.platform id s.registry (s.finish id).registry :=
  Registry.evolves_modify fun m => Module.grows_markAvailable m

theorem module_finish (hid : id < s.registry.size) :
    (s.finish id).registry.module id = (s.registry.module id).markAvailable :=
  Registry.module_modify_self hid

theorem imports_finish (env : Environment) (s : Session Walk) (id j : ModuleId) :
    ((s.finish id).registry.module j).imports = (s.registry.module j).imports := by
  by_cases hne : j = id
  · subst hne
    by_cases hj : j < s.registry.size
    · rw [module_finish hj]
      rfl
    · have hsize : (s.finish j).registry.size = s.registry.size := Registry.size_modify _ _ _
      rw [Registry.module_of_size_le (Nat.le_of_not_lt hj),
        Registry.module_of_size_le (hsize ▸ Nat.le_of_not_lt hj)]
  · exact (evolves_finish env s id).imports_of_ne hne

theorem Coherent.finish {outer : List ModuleId} (h : s.Coherent p env)
    (hstack : s.engine.inProgress = outer ++ [id]) : (s.finish id).Coherent p env := by
  have hid : id ∈ s.engine.inProgress := by simp [hstack]
  have hnodup := h.inProgressNodup
  rw [hstack, List.nodup_append] at hnodup
  have hleft : (s.finish id).engine.inProgress = outer := by
    simp [Session.finish, Engine.leave, Engine.modifyModule, hstack]
  have hmem (n : ModuleId) (hn : n ∈ outer) : n ∈ s.engine.inProgress := by simp [hstack, hn]
  have hev := evolves_finish env s id
  have hself := module_finish (h.sources id (.inl hid)).1
  have hsize : (s.finish id).registry.size = s.registry.size := Registry.size_modify _ _ _
  refine ⟨hev.indexed h.indexed, ?linked, hsize ▸ h.builtIn, hleft ▸ hnodup.1, h.loadedNodup,
    ?compiledNodup, ?apart, ?sources, ?binaries, h.inputs, ?artifacts, ?bare, ?fromPlatform,
    ?available⟩
  case linked =>
    intro n i hi
    rw [imports_finish env] at hi
    exact hev.canonical h.indexed (h.linked n i hi)
  case compiledNodup =>
    exact List.nodup_cons.mpr ⟨h.apart id hid, h.compiledNodup⟩
  case apart =>
    intro n hn
    rw [hleft] at hn
    intro hc
    rcases List.mem_cons.mp hc with rfl | hc
    · exact hnodup.2.2 n hn n (List.mem_singleton_self n) rfl
    · exact h.apart n (hmem n hn) hc
  case sources =>
    intro n hn
    have hsrc : n ∈ s.engine.inProgress ∨ n ∈ s.client.compiled := by
      rcases hn with hn | hn
      · exact .inl (hmem n (hleft ▸ hn))
      · rcases List.mem_cons.mp hn with rfl | hn
        · exact .inl hid
        · exact .inr hn
    exact h.sources_later hev.later hsrc
  case binaries =>
    exact fun n hn => h.binaries_later hev.later hn
  case artifacts =>
    exact fun input hm => h.artifacts_later hev.later hm
  case bare =>
    intro n hp hc hl
    obtain ⟨hne, hc⟩ := not_or.mp (mt List.mem_cons.mpr hc)
    rw [imports_finish env]
    refine h.bare n ?_ hc hl
    rw [hleft] at hp
    simp [hstack, hp, hne]
  case fromPlatform =>
    intro n hlt hn
    by_cases hne : n = id
    · have hlt : n < s.registry.size := hsize ▸ hlt
      rw [hev.coordinates hlt]
      refine h.fromPlatform n hlt ?_
      rw [hne, hself] at hn
      exact hne ▸ hn
    · exact h.fromPlatform_of_ne hev hne hn
  case available =>
    intro n hn
    by_cases hne : n = id
    · rw [hne, hself]
      rfl
    · have hn : n ∈ s.client.loaded ∨ n ∈ s.client.compiled :=
        hn.imp_right fun hc => (List.mem_cons.mp hc).resolve_left hne
      exact h.available_later hev.later hn

end Session

namespace Task

def finishes? : Task → Option ModuleId
  | finish id => some id
  | _ => none

theorem finishes?_ofSource (id : ModuleId) (trail : Trail) (src : SourceModule) :
    (ofSource id trail src).filterMap finishes? = [id] := by
  simp [ofSource, finishes?, Function.comp_def]

def Nested : List Task → Prop
  | [] => True
  | declare n _ _ :: rest => finish n ∈ rest ∧ Nested rest
  | _ :: rest => Nested rest

theorem Nested.tail {task : Task} {rest : List Task} (h : Nested (task :: rest)) : Nested rest := by
  cases task with
  | declare => exact h.2
  | visit | finish | root => exact h

theorem nested_visits {left rest : List Task} (h : Nested rest)
    (hleft : ∀ task ∈ left, ∃ v, task = visit v) : Nested (left ++ rest) := by
  induction left with
  | nil => exact h
  | cons task left ih =>
      obtain ⟨v, rfl⟩ := hleft task List.mem_cons_self
      exact ih fun task htask => hleft task (List.mem_cons_of_mem _ htask)

theorem nested_ofSource {rest : List Task} (id : ModuleId) (trail : Trail) (src : SourceModule)
    (h : Nested rest) : Nested (ofSource id trail src ++ rest) := by
  rw [ofSource]
  induction src.imports with
  | nil => exact h
  | cons d ds ih => exact ⟨by simp, ih⟩

theorem finish_mem_of_nested {tasks : List Task} {n : ModuleId} {trail : Trail} {d : Dependency}
    (h : Nested tasks) (hm : declare n trail d ∈ tasks) : finish n ∈ tasks := by
  induction tasks with
  | nil => cases hm
  | cons task rest ih =>
      rcases List.mem_cons.mp hm with rfl | hm
      · exact List.mem_cons_of_mem _ h.1
      · exact List.mem_cons_of_mem _ (ih h.tail hm)

theorem mem_ofLoaded {r : Registry} {id : ModuleId} {trail : Trail} {path : Bool} {task : Task}
    (h : task ∈ ofLoaded r id trail path) : ∃ i ∈ (r.module id).imports,
      task = visit ⟨id, i, trail.extend id, path && i.exported⟩ := by
  obtain ⟨i, hi, rfl⟩ := List.mem_map.mp h
  exact ⟨i, hi, rfl⟩

theorem mem_ofSource {id : ModuleId} {trail : Trail} {src : SourceModule} {task : Task}
    (h : task ∈ ofSource id trail src) :
    (∃ d ∈ src.imports, task = declare id (trail.extend id) d) ∨ task = finish id := by
  rcases List.mem_append.mp h with h | h
  · obtain ⟨d, hd, rfl⟩ := List.mem_map.mp h
    exact .inl ⟨d, hd, rfl⟩
  · exact .inr (List.mem_singleton.mp h)

end Task

theorem Session.importedEdge_target (env : Environment) (s : Session Walk) (n : ModuleId)
    (d : Dependency) :
    (s.importedEdge env n d).target = (s.declaredEdge env d).target := by
  cases h : ((s.declare env n d).registry.module n).import? (s.declaredEdge env d).target with
  | none => simp [importedEdge, h]
  | some i => simpa [importedEdge, h] using List.find?_some h

namespace Agenda

variable {p : Plan} {env : Environment} {s t : Session Walk} {task : Task} {left rest : List Task}

structure Coherent (p : Plan) (env : Environment) (a : Agenda) : Prop where
  session : a.session.Coherent p env
  targets : ∀ v, .visit v ∈ a.tasks → v.edge.target < a.session.registry.size
  nested : Task.Nested a.tasks
  stack : a.tasks.filterMap Task.finishes? = a.session.engine.inProgress.reverse
  roots : ∀ src, .root src ∈ a.tasks → src ∈ p.sources

theorem Coherent.mem_inProgress {a : Agenda} {n : ModuleId} (h : a.Coherent p env) :
    .finish n ∈ a.tasks ↔ n ∈ a.session.engine.inProgress := by
  have hmem : n ∈ a.session.engine.inProgress ↔ n ∈ a.tasks.filterMap Task.finishes? := by
    rw [h.stack, List.mem_reverse]
  rw [hmem, List.mem_filterMap]
  constructor
  · intro hn
    exact ⟨_, hn, rfl⟩
  · rintro ⟨task, htask, hn⟩
    cases task with
    | finish id => exact Option.some.inj hn ▸ htask
    | visit | declare | root => cases hn

theorem Coherent.replace (left : List Task) (h : Coherent p env ⟨s, task :: rest⟩)
    (ht : t.Coherent p env) (hsize : s.registry.size ≤ t.registry.size)
    (hprogress : t.engine.inProgress = s.engine.inProgress) (hfinish : task.finishes? = none)
    (hleft : ∀ task ∈ left, ∃ v, task = .visit v ∧ v.edge.target < t.registry.size) :
    Coherent p env ⟨t, left ++ rest⟩ := by
  have hnone : left.filterMap Task.finishes? = [] := by
    refine List.filterMap_eq_nil_iff.mpr fun task htask => ?_
    obtain ⟨v, rfl, -⟩ := hleft task htask
    rfl
  refine ⟨ht, fun v hv => ?targets, ?nested, ?stack, fun src hsrc => ?roots⟩
  case targets =>
    rcases List.mem_append.mp hv with hv | hv
    · obtain ⟨w, hw, hlt⟩ := hleft _ hv
      cases hw
      exact hlt
    · exact Nat.lt_of_lt_of_le (h.targets v (List.mem_cons_of_mem _ hv)) hsize
  case nested =>
    exact Task.nested_visits h.nested.tail fun task htask =>
      (hleft task htask).imp fun _ hv => hv.1
  case stack =>
    have hstack := h.stack
    rw [List.filterMap_cons, hfinish] at hstack
    change (left ++ rest).filterMap Task.finishes? = t.engine.inProgress.reverse
    rw [List.filterMap_append, hnone, hprogress]
    exact hstack
  case roots =>
    rcases List.mem_append.mp hsrc with hsrc | hsrc
    · obtain ⟨v, hv, -⟩ := hleft _ hsrc
      cases hv
    · exact h.roots src (List.mem_cons_of_mem _ hsrc)

theorem Coherent.quiet (h : Coherent p env ⟨s, task :: rest⟩) (hq : Session.Quiet env s t)
    (hfinish : task.finishes? = none) : Coherent p env ⟨t, rest⟩ :=
  Coherent.replace [] h (h.session.quiet hq) hq.size_le hq.inProgress hfinish
    fun _ hm => absurd hm List.not_mem_nil

theorem Coherent.enter {id : ModuleId} {trail : Trail} {src : SourceModule}
    (h : Coherent p env ⟨s, rest⟩) (hid : id < s.registry.size)
    (hdone : s.client.isDone id = false) (hidle : id ∉ s.engine.inProgress)
    (hc : p.Compiles env (s.registry.module id).coordinates) :
    Coherent p env ⟨s.enter trail id, Task.ofSource id trail src ++ rest⟩ := by
  refine ⟨h.session.enter hid hdone hidle hc, fun v hv => ?targets, ?nested, ?stack,
    fun src hsrc => ?roots⟩
  case targets =>
    rcases List.mem_append.mp hv with hv | hv
    · rcases Task.mem_ofSource hv with ⟨d, -, hd⟩ | hd <;> cases hd
    · exact h.targets v hv
  case nested =>
    exact Task.nested_ofSource id trail src h.nested
  case stack =>
    change (Task.ofSource id trail src ++ rest).filterMap Task.finishes? =
      (s.engine.inProgress ++ [id]).reverse
    rw [List.filterMap_append, Task.finishes?_ofSource, List.reverse_append]
    exact congrArg (id :: ·) h.stack
  case roots =>
    rcases List.mem_append.mp hsrc with hsrc | hsrc
    · rcases Task.mem_ofSource hsrc with ⟨d, -, hd⟩ | hd <;> cases hd
    · exact h.roots src hsrc

theorem Coherent.inProgress_of_finish {id : ModuleId}
    (h : Coherent p env ⟨s, .finish id :: rest⟩) :
    s.engine.inProgress = (rest.filterMap Task.finishes?).reverse ++ [id] := by
  have hstack : id :: rest.filterMap Task.finishes? = s.engine.inProgress.reverse := h.stack
  rw [← List.reverse_reverse s.engine.inProgress, ← hstack, List.reverse_cons]

theorem Coherent.finish {id : ModuleId} (h : Coherent p env ⟨s, .finish id :: rest⟩) :
    Coherent p env ⟨s.finish id, rest⟩ := by
  have hprogress := h.inProgress_of_finish
  refine ⟨h.session.finish hprogress, fun v hv => ?targets, h.nested.tail, ?stack,
    fun src hsrc => h.roots src (List.mem_cons_of_mem _ hsrc)⟩
  case targets =>
    refine Nat.lt_of_lt_of_le (h.targets v (List.mem_cons_of_mem _ hv)) (Nat.le_of_eq ?_)
    exact (Registry.size_modify _ _ _).symm
  case stack =>
    change rest.filterMap Task.finishes? = s.engine.inProgress.dropLast.reverse
    rw [hprogress, List.dropLast_concat, List.reverse_reverse]

theorem Coherent.declare {n : ModuleId} {trail : Trail} {d : Dependency}
    (h : Coherent p env ⟨s, .declare n trail d :: rest⟩) :
    Coherent p env ⟨s.declare env n d,
      [.visit ⟨n, s.importedEdge env n d, trail, true⟩] ++ rest⟩ := by
  have hn : n ∈ s.engine.inProgress :=
    h.mem_inProgress.mp (List.mem_cons_of_mem _ h.nested.1)
  have hensure := Registry.evolves_ensure env.platform n s.registry d.coordinates
  have hsize : (s.declare env n d).registry.size =
      (s.registry.ensure env.platform d.coordinates).1.size := by
    rw [Session.registry_declare, Registry.size_modify]
  refine Coherent.replace _ h (h.session.declare hn) ?_ ?_ rfl fun task htask => ?_
  · rw [hsize]
    exact hensure.size_le
  · exact Engine.inProgress_declareImport ..
  · refine ⟨_, List.mem_singleton.mp htask, ?_⟩
    rw [Session.importedEdge_target, hsize]
    exact Registry.ensure_lt_size h.session.indexed

theorem Coherent.step (h : Coherent p env ⟨s, task :: rest⟩) (hs : task.Step p env s t left) :
    Coherent p env ⟨t, left ++ rest⟩ := by
  cases hs with
  | done => exact h.quiet (Session.quiet_of_registry_eq rfl rfl rfl rfl) rfl
  | missing => exact h.quiet (Session.quiet_of_registry_eq rfl rfl rfl rfl) rfl
  | supplied => exact h.quiet (Session.quiet_supplied env s _ (h.targets _ List.mem_cons_self)) rfl
  | skipped => exact h.quiet (Session.quiet_of_registry_eq rfl rfl rfl rfl) rfl
  | deferred => exact h.quiet (Session.quiet_of_registry_eq rfl rfl rfl rfl) rfl
  | @loaded v a e l hdone hlocate hsource hsupplied hclear hneeded hload =>
      have hid := h.targets _ List.mem_cons_self
      have ht := h.session.load hid hdone hlocate hsource hsupplied hload
      refine Coherent.replace _ h ht ?_ ?_ rfl fun task htask => ?_
      · exact (Engine.evolves_load hid hload).size_le
      · exact Engine.inProgress_load hload
      · obtain ⟨i, hi, rfl⟩ := Task.mem_ofLoaded htask
        exact ⟨_, rfl, ht.target_lt hi⟩
  | entered hdone hlocate hsource hclear hidle hdeclared =>
      refine Coherent.enter ?_ (h.targets _ List.mem_cons_self) hdone hidle
        ⟨hsource, Option.isSome_of_eq_some hdeclared⟩
      exact h.quiet (Session.quiet_of_registry_eq rfl rfl rfl rfl) rfl
  | declared => exact h.declare
  | finished => exact h.finish
  | present hensure => exact h.quiet (Session.quiet_ensure hensure) rfl
  | refused hensure =>
      have hq := Session.quiet_ensure (s := s) hensure
      refine Coherent.replace [] h ((h.session.quiet hq).quiet
        (Session.quiet_of_registry_eq rfl rfl rfl rfl)) hq.size_le hq.inProgress rfl ?_
      exact fun _ hm => absurd hm List.not_mem_nil
  | @opened src declared e id hensure havailable hsource hclear hidle hdeclared =>
      have hq := h.quiet (Session.quiet_ensure hensure) rfl
      exact Coherent.enter hq (Session.ensured h.session.indexed hensure).1
        (hq.session.isDone_of_unavailable havailable) hidle
        ⟨hsource, Option.isSome_of_eq_some hdeclared⟩

theorem Coherent.loaded_cases (h : Coherent p env ⟨s, task :: rest⟩)
    (hs : task.Step p env s t left) :
    t.client.loaded = s.client.loaded ∨
      ∃ v, task = .visit v ∧ t.client.loaded = v.edge.target :: s.client.loaded ∧
        s.client.isDone v.edge.target = false ∧ p.Loads env (s.target v).coordinates ∧
        (v.onBuildPath = true → s.registry.conflict? v.edge.target = none) ∧
        (v.onBuildPath = true ∨ Engine.loadsAnyway env v.edge.target = true) := by
  cases hs with
  | @loaded v a e l hdone hlocate hsource hsupplied hclear hneeded hload =>
      refine .inr ⟨v, rfl, rfl, hdone, ?_, hclear, hneeded⟩
      exact h.session.loads_of_locate? (h.targets v List.mem_cons_self)
        (Walk.isDone_eq_false.mp hdone).1 hlocate hsource hsupplied
  | entered | opened => exact .inl (Session.loaded_enter _ _ _)
  | _ => exact .inl rfl

theorem Coherent.visit_of_step (h : Coherent p env ⟨s, task :: rest⟩)
    (hs : task.Step p env s t left) {v : Visit} (hv : .visit v ∈ left) :
    (∃ w, task = .visit w ∧ s.client.isDone w.edge.target = false ∧
      p.Loads env (s.target w).coordinates ∧
        (w.onBuildPath = true ∨ Engine.loadsAnyway env w.edge.target = true) ∧
          w.edge.target ∈ t.client.loaded ∧ ∃ i ∈ (t.registry.module w.edge.target).imports,
            v = ⟨w.edge.target, i, w.trail.extend w.edge.target, w.onBuildPath && i.exported⟩) ∨
    ∃ n trail d, task = .declare n trail d ∧ n ∈ s.engine.inProgress ∧ t = s.declare env n d ∧
      v = ⟨n, s.importedEdge env n d, trail, true⟩ := by
  cases hs with
  | @loaded w a e l hdone hlocate hsource hsupplied hclear hneeded hload =>
      obtain ⟨i, hi, hvisit⟩ := Task.mem_ofLoaded hv
      cases hvisit
      have hloads := h.session.loads_of_locate? (h.targets w List.mem_cons_self)
        (Walk.isDone_eq_false.mp hdone).1 hlocate hsource hsupplied
      exact .inl ⟨w, rfl, hdone, hloads, hneeded, List.mem_cons_self, i, hi, rfl⟩
  | entered | opened => rcases Task.mem_ofSource hv with ⟨d, -, hvisit⟩ | hvisit <;> cases hvisit
  | @declared n trail d =>
      cases List.mem_singleton.mp hv
      have hn := h.mem_inProgress.mp (List.mem_cons_of_mem _ h.nested.1)
      exact .inr ⟨n, trail, d, rfl, hn, rfl, rfl⟩
  | _ => cases hv

end Agenda

end ModuleResolution
