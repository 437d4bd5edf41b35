import ModuleResolution.Proofs.Report
import ModuleResolution.Proofs.VersionOrder

namespace ModuleResolution

namespace Platform

variable {p : Platform} {c : Coordinates} {id : ModuleId}

theorem setUp_fresh_of_supplies (h : p.supplies c = true) : p.setUp (Module.fresh id c false) =
    (Module.fresh id c false).markAvailable.markFromPlatform.restrictTo .host := by
  rw [setUp, Module.coordinates_fresh, if_pos h]

theorem setUp_fresh_of_not_supplies (h : p.supplies c = false) :
    p.setUp (Module.fresh id c false) = Module.fresh id c false := by
  rw [setUp, Module.coordinates_fresh, h]
  rfl

theorem lowerImport?_of_isLower (hhosts : p.hosts c.name = true)
    (hlower : p.isLower c.version = true) :
    p.lowerImport? c = some (.platformVersionLower c.version p.version) := by
  rw [lowerImport?, hhosts, hlower]
  rfl

theorem supplies_iff_of_isLower (hhosts : p.hosts c.name = true)
    (hlower : p.isLower c.version = true) :
    p.supplies c = true ↔ Version.compare p.oldest c.version ≠ .gt := by
  have hupper : Version.compare c.version p.version = .lt := by simpa [isLower] using hlower
  rw [supplies, hhosts, Bool.true_and, provides_iff, hupper]
  simp

theorem supplies_eq_false_of_isLower (hhosts : p.hosts c.name = true)
    (hlower : p.isLower c.version = true) (hold : Version.compare p.oldest c.version = .gt) :
    p.supplies c = false := by
  rw [← Bool.not_eq_true, supplies_iff_of_isLower hhosts hlower]
  exact fun h => h hold

theorem usable_setUp_fresh_iff (p : Platform) (id : ModuleId) (c : Coordinates) :
    let m := p.setUp (Module.fresh id c false)
    m.available = true ∧ m.fromPlatform = true ∧ m.backend = some .host ↔ p.supplies c = true := by
  intro m
  cases h : p.supplies c with
  | true =>
      rw [show m = _ from setUp_fresh_of_supplies h]
      exact ⟨fun _ => rfl, fun _ => ⟨rfl, rfl, rfl⟩⟩
  | false =>
      rw [show m = _ from setUp_fresh_of_not_supplies h]
      exact ⟨fun husable => husable.1, fun habsurd => absurd habsurd Bool.false_ne_true⟩

end Platform

namespace Registry

variable {r : Registry} {p : Platform} {c : Coordinates} {n : ModuleId}

theorem ensure_of_find?_eq_none (h : r.find? c = none) :
    r.ensure p c = ((r.append c false).modify r.size p.setUp, r.size) := by
  rcases ensure_cases r p c with ⟨id, hfound, -⟩ | ⟨-, hcreated⟩
  · cases hfound.symm.trans h
  · exact hcreated

theorem module_ensure_of_find?_eq_none (h : r.find? c = none) :
    (r.ensure p c).1.module (r.ensure p c).2 = p.setUp (Module.fresh r.size c false) := by
  rw [ensure_of_find?_eq_none h, module_modify_self (by simp), module_append_size]

theorem not_imports?_created (h : r.find? c = none)
    (hedges : ∀ i ∈ (r.module n).imports, i.target < r.size) :
    ((r.ensure p c).1.module n).imports? (r.ensure p c).2 = false := by
  have hid : (r.ensure p c).2 = r.size := by rw [ensure_of_find?_eq_none h]
  have htarget : ∀ i ∈ (r.module n).imports, i.target ≠ r.size :=
    fun i hi => Nat.ne_of_lt (hedges i hi)
  simpa [Module.imports?, Module.import?, imports_ensure, hid] using htarget

theorem exists_module_addImport (r : Registry) (n id : ModuleId) (i : Import) :
    ∃ is, (r.modify n (·.addImport i)).module id = (r.module id).setImports is := by
  by_cases hid : id < r.size
  · by_cases hne : id = n
    · subst hne
      rw [module_modify_self hid]
      exact Module.exists_addImport_eq _ i
    · exact ⟨_, module_modify_of_ne hne⟩
  · have hsize := Nat.le_of_not_lt hid
    rw [module_of_size_le hsize, module_of_size_le (by simpa using hsize)]
    exact ⟨_, rfl⟩

end Registry

namespace Engine

variable {env : Environment} {e : Engine} {n id : ModuleId} {c : Coordinates} {i : Import}
  {is : List Import}

def declareAll (env : Environment) (e : Engine) (importer : ModuleId) (is : List Import) : Engine :=
  is.foldl (fun e i => e.declareImport env importer i) e

theorem declareImport_of_imports? (h : (e.registry.module n).imports? i.target = true) :
    e.declareImport env n i = e := by
  simp [declareImport, defineImport, h]

theorem declareAll_of_imports? (h : (e.registry.module n).imports? id = true)
    (his : ∀ i ∈ is, i.target = id) : e.declareAll env n is = e := by
  induction is with
  | nil => rfl
  | cons i is ih =>
      rw [List.forall_mem_cons] at his
      have hfirst : e.declareImport env n i = e := declareImport_of_imports? (his.1.symm ▸ h)
      change (e.declareImport env n i).declareAll env n is = e
      rw [hfirst]
      exact ih his.2

theorem imports?_declareImport (hn : n < e.registry.size) :
    ((e.declareImport env n i).registry.module n).imports? i.target = true := by
  rw [registry_declareImport, Registry.module_modify_self hn]
  exact Module.imports?_addImport _ i

theorem exists_declareAll_eq (hn : n < e.registry.size) (hdeclared : is ≠ [])
    (his : ∀ i ∈ is, i.target = id) :
    ∃ i ∈ is, e.declareAll env n is = e.declareImport env n i := by
  cases is with
  | nil => exact absurd rfl hdeclared
  | cons i is =>
      rw [List.forall_mem_cons] at his
      obtain ⟨rfl, hrest⟩ := his
      exact ⟨i, List.mem_cons_self, declareAll_of_imports? (imports?_declareImport hn) hrest⟩

theorem diagnostics_declareImport_of_isLower
    (hlacks : (e.registry.module n).imports? i.target = false)
    (hhosts : env.platform.hosts (e.registry.module i.target).coordinates.name = true)
    (hlower : env.platform.isLower (e.registry.module i.target).coordinates.version = true) :
    (e.declareImport env n i).diagnostics = e.diagnostics ++
      [⟨.warning .importsOtherPlatform, .importOf n i.target,
        .platformVersionLower (e.registry.module i.target).coordinates.version
          env.platform.version⟩] := by
  obtain ⟨is, hmodule⟩ := Registry.exists_module_addImport e.registry n i.target i
  have hcoordinates : ((e.registry.modify n (·.addImport i)).module i.target).coordinates =
      (e.registry.module i.target).coordinates := by rw [hmodule]; rfl
  rw [diagnostics_declareImport, importAdvice, hlacks, hcoordinates,
    Platform.lowerImport?_of_isLower hhosts hlower]
  rfl

theorem warned_and_usable_iff (env : Environment) (e : Engine) {importer : ModuleId}
    {c : Coordinates} {is : List Import} (hnew : e.registry.find? c = none)
    (hhosts : env.platform.hosts c.name = true) (hlower : env.platform.isLower c.version = true)
    (himporter : importer < (e.ensure env c).1.registry.size)
    (hedges : ∀ i ∈ (e.registry.module importer).imports, i.target < e.registry.size)
    (hdeclared : is ≠ []) (his : ∀ i ∈ is, i.target = (e.ensure env c).2) :
    let id := (e.ensure env c).2
    let f := (e.ensure env c).1.declareAll env importer is
    let m := f.registry.module id
    m.coordinates = c ∧
    f.diagnostics = e.diagnostics ++ [⟨.warning .importsOtherPlatform, .importOf importer id,
      .platformVersionLower c.version env.platform.version⟩] ∧
    (m.available = true ∧ m.fromPlatform = true ∧ m.backend = some .host ↔
      Version.compare env.platform.oldest c.version ≠ .gt) ∧
    (Version.compare env.platform.oldest c.version = .gt →
      m.available = false ∧ m.fromPlatform = false ∧ m.backend = none) := by
  intro id f m
  obtain ⟨i, hi, hf⟩ : ∃ i ∈ is, f = (e.ensure env c).1.declareImport env importer i :=
    exists_declareAll_eq himporter hdeclared his
  have htarget : i.target = id := his i hi
  have hcreated : (e.ensure env c).1.registry.module id =
      env.platform.setUp (Module.fresh e.registry.size c false) :=
    Registry.module_ensure_of_find?_eq_none hnew
  have hc : ((e.ensure env c).1.registry.module id).coordinates = c := by
    rw [hcreated, (Module.grows_setUp _ _).coordinates, Module.coordinates_fresh]
  obtain ⟨edges, hm⟩ : ∃ edges, m =
      (env.platform.setUp (Module.fresh e.registry.size c false)).setImports edges := by
    rw [← hcreated, show m = f.registry.module id from rfl, hf, registry_declareImport]
    exact Registry.exists_module_addImport _ importer id i
  refine ⟨?_, ?_, ?_, fun hold => ?_⟩
  · rw [hm, (Module.grows_setImports _ _).coordinates, ← hcreated, hc]
  · have hlacks : ((e.ensure env c).1.registry.module importer).imports? i.target = false :=
      htarget ▸ Registry.not_imports?_created hnew hedges
    rw [hf, diagnostics_declareImport_of_isLower hlacks, htarget, hc]
    · rfl
    · rwa [htarget, hc]
    · rwa [htarget, hc]
  · rw [← Platform.supplies_iff_of_isLower hhosts hlower, hm]
    exact Platform.usable_setUp_fresh_iff env.platform e.registry.size c
  · rw [hm, Platform.setUp_fresh_of_not_supplies
      (Platform.supplies_eq_false_of_isLower hhosts hlower hold)]
    exact ⟨rfl, rfl, rfl⟩

def hostedEnvironment : Environment :=
  ⟨.default, ⟨"11", "8", ["host.base"]⟩, [], none, []⟩

def hostedEngine : Engine :=
  ((start Config.default.foundational).ensure hostedEnvironment ⟨"app", "1"⟩).1

def plainImport : Import :=
  ⟨3, false, false, none⟩

theorem warned_and_usable_iff_oldestVersion :
    let c : Coordinates := ⟨"host.base", "8"⟩
    let f := (hostedEngine.ensure hostedEnvironment c).1.declareAll hostedEnvironment 2
      [plainImport, plainImport]
    hostedEngine.registry.find? c = none ∧ hostedEnvironment.platform.hosts c.name = true ∧
      hostedEnvironment.platform.isLower c.version = true ∧
      2 < (hostedEngine.ensure hostedEnvironment c).1.registry.size ∧
      (∀ i ∈ (hostedEngine.registry.module 2).imports,
        i.target < hostedEngine.registry.size) ∧
      [plainImport, plainImport] ≠ [] ∧
      (∀ i ∈ [plainImport, plainImport], i.target = 3) ∧
      f.diagnostics =
        [⟨.warning .importsOtherPlatform, .importOf 2 3, .platformVersionLower "8" "11"⟩] ∧
      (f.registry.module 3).available = true ∧ (f.registry.module 3).fromPlatform = true ∧
      (f.registry.module 3).backend = some .host := by
  intro c f
  have hnew : hostedEngine.registry.find? c = none := by decide +kernel
  have hlower : hostedEnvironment.platform.isLower c.version = true := by decide +kernel
  have himporter : 2 < (hostedEngine.ensure hostedEnvironment c).1.registry.size := by
    decide +kernel
  have hedges : ∀ i ∈ (hostedEngine.registry.module 2).imports,
      i.target < hostedEngine.registry.size := by decide +kernel
  have his : ∀ i ∈ [plainImport, plainImport],
      i.target = (hostedEngine.ensure hostedEnvironment c).2 := by decide +kernel
  obtain ⟨-, hwarned, husable, -⟩ := warned_and_usable_iff hostedEnvironment hostedEngine
    hnew rfl hlower himporter hedges (List.cons_ne_nil _ _) his
  exact ⟨hnew, rfl, hlower, himporter, hedges, List.cons_ne_nil _ _, by decide, hwarned,
    husable.mpr (by decide +kernel)⟩

theorem unusable_import_belowOldest :
    let c : Coordinates := ⟨"host.base", "7"⟩
    let f := (hostedEngine.ensure hostedEnvironment c).1.declareAll hostedEnvironment 2
      [plainImport]
    hostedEngine.registry.find? c = none ∧ hostedEnvironment.platform.hosts c.name = true ∧
      hostedEnvironment.platform.isLower c.version = true ∧
      (hostedEngine.ensure hostedEnvironment c).2 = 3 ∧
      f.diagnostics =
        [⟨.warning .importsOtherPlatform, .importOf 2 3, .platformVersionLower "7" "11"⟩] ∧
      ¬ ((f.registry.module 3).available = true ∧ (f.registry.module 3).fromPlatform = true ∧
        (f.registry.module 3).backend = some .host) := by
  decide +kernel

end Engine

end ModuleResolution
