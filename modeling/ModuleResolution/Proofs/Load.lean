import ModuleResolution.Engine.Load
import ModuleResolution.Proofs.Registry

namespace ModuleResolution

namespace Registry

variable {r : Registry} {p : Platform} {id : ModuleId} {b : Option Backend}

theorem declareDependencies_cons (r : Registry) (p : Platform) (id : ModuleId)
    (b : Option Backend) (d : ArtifactDependency) (deps : List ArtifactDependency) :
    r.declareDependencies p id b (d :: deps) =
      ((r.ensure p d.coordinates).1.modify id
        (·.addImport ⟨(r.ensure p d.coordinates).2, d.kind.isOptional, d.kind.isExported, b⟩)
        ).declareDependencies p id b deps := rfl

theorem evolves_declareDependencies (hid : id < r.size) (deps : List ArtifactDependency) :
    Evolves p id r (r.declareDependencies p id b deps) := by
  induction deps generalizing r with
  | nil => exact .refl p id r
  | cons d deps ih =>
      rw [declareDependencies_cons]
      have he := evolves_ensure p id r d.coordinates
      have hs := he.lt_size hid
      refine he.trans hid (Evolves.trans hs ?_ (ih (by simpa using hs)))
      exact evolves_modify fun m => Module.grows_addImport m _

theorem linked_addImport {i : Import} (hr : r.Indexed) (hl : r.Linked)
    (hi : r.Canonical i.target) : (r.modify id (·.addImport i)).Linked := by
  refine linked_modify hr hl (fun m => Module.grows_addImport m i) fun _ j hj => ?_
  rcases Module.mem_addImport hj with hj | rfl
  · exact hl id j hj
  · exact hi

theorem linkedAt_addImport {i : Import} (hr : r.Indexed) (hl : r.LinkedAt id)
    (hid : id < r.size) (hi : r.Canonical i.target) :
    (r.modify id (·.addImport i)).LinkedAt id := by
  refine linkedAt_modify hr (fun m => Module.grows_addImport m i) hid fun j hj => ?_
  rcases Module.mem_addImport hj with hj | rfl
  · exact hl j hj
  · exact hi

theorem linked_declareDependencies (hr : r.Indexed) (hl : r.Linked)
    (deps : List ArtifactDependency) : (r.declareDependencies p id b deps).Linked := by
  induction deps generalizing r with
  | nil => exact hl
  | cons d deps ih =>
      have hindexed := (evolves_ensure p id r d.coordinates).indexed hr
      rw [declareDependencies_cons]
      refine ih ?_ (linked_addImport hindexed (linked_ensure hr hl) (canonical_ensure hr))
      exact (evolves_modify (p := p) fun m => Module.grows_addImport m _).indexed hindexed

@[simp] theorem binaryInputs_declareDependencies (r : Registry) (p : Platform) (id : ModuleId)
    (b : Option Backend) (deps : List ArtifactDependency) :
    (r.declareDependencies p id b deps).binaryInputs = r.binaryInputs := by
  induction deps generalizing r with
  | nil => rfl
  | cons d deps ih =>
      rw [declareDependencies_cons, ih]
      exact binaryInputs_ensure r p _

theorem link_fst (built : Registry × List Import) (d : Dependency) :
    (link p built d).1 = (built.1.ensure p d.coordinates).1 := by
  simp only [link]
  split <;> rfl

theorem mem_link {built : Registry × List Import} {d : Dependency} {i : Import}
    (h : i ∈ (link p built d).2) :
    i ∈ built.2 ∨ i = ⟨(built.1.ensure p d.coordinates).2, d.optional, d.exported, none⟩ := by
  simp only [link] at h
  split at h
  · exact .inl h
  · simpa using h

theorem evolves_foldl_link (id : ModuleId) (ds : List Dependency)
    (built : Registry × List Import) (hid : id < built.1.size) :
    Evolves p id built.1 (ds.foldl (link p) built).1 := by
  induction ds generalizing built with
  | nil => exact .refl p id _
  | cons d ds ih =>
      have he := evolves_ensure p id built.1 d.coordinates
      have hl := ih (link p built d) (by rw [link_fst]; exact he.lt_size hid)
      rw [link_fst] at hl
      exact he.trans hid hl

theorem linked_foldl_link (ds : List Dependency) (built : Registry × List Import)
    (hr : built.1.Indexed) (hl : built.1.Linked) : (ds.foldl (link p) built).1.Linked := by
  induction ds generalizing built with
  | nil => exact hl
  | cons d ds ih =>
      refine ih (link p built d) ?_ ?_
      · rw [link_fst]
        exact (evolves_ensure p 0 built.1 d.coordinates).indexed hr
      · rw [link_fst]
        exact linked_ensure hr hl

theorem canonical_foldl_link (ds : List Dependency) (built : Registry × List Import)
    (hr : built.1.Indexed) (hb : ∀ i ∈ built.2, built.1.Canonical i.target) :
    (ds.foldl (link p) built).1.Indexed ∧
      ∀ i ∈ (ds.foldl (link p) built).2, (ds.foldl (link p) built).1.Canonical i.target := by
  induction ds generalizing built with
  | nil => exact ⟨hr, hb⟩
  | cons d ds ih =>
      have he := evolves_ensure p 0 built.1 d.coordinates
      refine ih (link p built d) ?_ ?_
      · rw [link_fst]
        exact he.indexed hr
      · intro i hi
        rw [link_fst]
        rcases mem_link hi with hi | rfl
        · exact he.canonical hr (hb i hi)
        · exact canonical_ensure hr

theorem binaryInputs_foldl_link (ds : List Dependency) (built : Registry × List Import) :
    (ds.foldl (link p) built).1.binaryInputs = built.1.binaryInputs := by
  induction ds generalizing built with
  | nil => rfl
  | cons d ds ih =>
      rw [List.foldl_cons, ih, link_fst, binaryInputs_ensure]

theorem module_foldl_link {j : ModuleId} (ds : List Dependency) (built : Registry × List Import)
    (hj : j < built.1.size) : (ds.foldl (link p) built).1.module j = built.1.module j := by
  induction ds generalizing built with
  | nil => rfl
  | cons d ds ih =>
      have hs : j < (link p built d).1.size := by
        rw [link_fst]
        exact (evolves_ensure p j built.1 d.coordinates).lt_size hj
      rw [List.foldl_cons, ih _ hs, link_fst, module_ensure_of_lt hj]

theorem overrideImports_of_hasRule {o : Overrides} {c : Coordinates} (h : o.hasRule c = true) :
    r.overrideImports p o id c =
      (r.linkAll p (o.apply c (r.declared id))).1.modify id
        (·.setImports (r.linkAll p (o.apply c (r.declared id))).2) := by
  simp only [overrideImports, h, if_true]

theorem overrideImports_of_not_hasRule {o : Overrides} {c : Coordinates}
    (h : o.hasRule c = false) : r.overrideImports p o id c = r := by
  simp [overrideImports, h]

theorem module_overrideImports (hid : id < r.size) (o : Overrides) (c : Coordinates) :
    ∃ is, (r.overrideImports p o id c).module id = (r.module id).setImports is := by
  cases h : o.hasRule c with
  | false => exact ⟨(r.module id).imports, by rw [overrideImports_of_not_hasRule h]; rfl⟩
  | true =>
      have hs : id < (r.linkAll p (o.apply c (r.declared id))).1.size :=
        (evolves_foldl_link id _ (r, []) hid).lt_size hid
      refine ⟨(r.linkAll p (o.apply c (r.declared id))).2, ?_⟩
      rw [overrideImports_of_hasRule h, module_modify_self hs]
      exact congrArg (Module.setImports · _) (module_foldl_link _ (r, []) hid)

theorem evolves_overrideImports (hid : id < r.size) (o : Overrides) (c : Coordinates) :
    Evolves p id r (r.overrideImports p o id c) := by
  cases h : o.hasRule c with
  | false =>
      rw [overrideImports_of_not_hasRule h]
      exact .refl p id r
  | true =>
      rw [overrideImports_of_hasRule h]
      exact (evolves_foldl_link id _ (r, []) hid).trans hid
        (evolves_modify fun m => Module.grows_setImports m _)

theorem linked_overrideImports (hr : r.Indexed) (hl : r.Linked) (o : Overrides)
    (c : Coordinates) : (r.overrideImports p o id c).Linked := by
  cases h : o.hasRule c with
  | false =>
      rw [overrideImports_of_not_hasRule h]
      exact hl
  | true =>
      rw [overrideImports_of_hasRule h]
      obtain ⟨hindexed, hnew⟩ := canonical_foldl_link (p := p)
        (o.apply c (r.declared id)).toList (r, []) hr fun i hi => absurd hi List.not_mem_nil
      exact linked_modify hindexed (linked_foldl_link _ (r, []) hr hl)
        (fun m => Module.grows_setImports m _) fun _ => hnew

@[simp] theorem binaryInputs_overrideImports (r : Registry) (p : Platform) (o : Overrides)
    (id : ModuleId) (c : Coordinates) :
    (r.overrideImports p o id c).binaryInputs = r.binaryInputs := by
  cases h : o.hasRule c with
  | false => rw [overrideImports_of_not_hasRule h]
  | true =>
      rw [overrideImports_of_hasRule h]
      exact binaryInputs_foldl_link _ _

@[simp] theorem binaryInputs_readArtifact (r : Registry) (env : Environment) (id : ModuleId)
    (a : Artifact) : (r.readArtifact env id a).1.binaryInputs = r.binaryInputs := by
  simp only [readArtifact]
  split
  · rfl
  · split <;> exact binaryInputs_declareDependencies _ _ _ _ _

end Registry

def Issue.isConflict : Issue → Bool
  | .versionConflict .. => true
  | .similarVersionConflict .. => true
  | _ => false

theorem Conflict.isConflict_issue (c : Conflict) : c.issue.isConflict = true := by
  cases c <;> rfl

theorem Issue.eq_binaryFormat {found : Option BinaryVersion} {supported : BinaryVersion}
    {issue : Issue} (h : ofBinaryVersion? found supported = some issue) :
    ∃ v, issue = .binaryFormat v supported := by
  simp only [ofBinaryVersion?] at h
  split at h
  · cases h
  · split at h
    · cases h
    · exact ⟨_, (Option.some.inj h).symm⟩

def Platform.reworded (p : Platform) (c : Coordinates) (issue : Issue) : Issue :=
  (p.unavailable? c).getD issue

theorem Platform.isConflict_reworded {p : Platform} {c : Coordinates} {issue : Issue}
    (h : issue.isConflict = false) : (p.reworded c issue).isConflict = false := by
  simp only [reworded, unavailable?]
  split
  · rfl
  · exact h

namespace Engine

variable {env : Environment} {e f : Engine} {a : Artifact} {id : ModuleId} {i : Import}
  {trail : Trail} {l : Loaded}

def inputRegistry (r : Registry) (id : ModuleId) (a : Artifact) : Registry :=
  (r.addBinaryInput id a).modify id (·.markFromBinary)

def declaredRegistry (env : Environment) (r : Registry) (id : ModuleId) (a : Artifact)
    (f : Module → Module) (b : Option Backend) : Registry :=
  ((inputRegistry r id a).modify id f).declareDependencies env.platform id b a.dependencies

def readRegistry (env : Environment) (r : Registry) (id : ModuleId) (a : Artifact) : Registry :=
  ((inputRegistry r id a).readArtifact env id a).1

def loadedRegistry (env : Environment) (r : Registry) (id : ModuleId) (a : Artifact) : Registry :=
  match env.overrides with
  | some o => if ((readRegistry env r id a).module id).isCompiled then
      (readRegistry env r id a).overrideImports env.platform o id a.coordinates
    else readRegistry env r id a
  | none => readRegistry env r id a

theorem registry_checkFormat : (e.checkFormat env i id trail).registry = e.registry := by
  simp only [checkFormat]
  split <;> rfl

theorem overrideCompiled_readRegistry
    (h : ((readRegistry env e.registry id a).module id).isCompiled = true) :
    overrideCompiled env { e with registry := readRegistry env e.registry id a } id a =
      { e with registry := loadedRegistry env e.registry id a } := by
  simp only [overrideCompiled, loadedRegistry, h, if_true]
  cases env.overrides <;> rfl

theorem loadedRegistry_of_not_isCompiled {r : Registry}
    (h : ((readRegistry env r id a).module id).isCompiled = false) :
    loadedRegistry env r id a = readRegistry env r id a := by
  simp only [loadedRegistry, h, Bool.false_eq_true, if_false]
  cases env.overrides <;> rfl

theorem loadedRegistry_cases (env : Environment) (r : Registry) (id : ModuleId) (a : Artifact) :
    loadedRegistry env r id a = readRegistry env r id a ∨
      ∃ o, loadedRegistry env r id a =
        (readRegistry env r id a).overrideImports env.platform o id a.coordinates := by
  simp only [loadedRegistry]
  split
  · split
    · exact .inr ⟨_, rfl⟩
    · exact .inl rfl
  · exact .inl rfl

theorem load_fst :
    (e.load env a id i trail).1 =
      (if ((readRegistry env e.registry id a).module id).isCompiled then
        checkFormat env { e with registry := loadedRegistry env e.registry id a } i id trail
      else
        { e with registry := loadedRegistry env e.registry id a }).modifyModule id
          (·.markAvailable) := by
  cases h : ((readRegistry env e.registry id a).module id).isCompiled with
  | true =>
      rw [if_pos rfl, ← overrideCompiled_readRegistry h]
      simp only [readRegistry, inputRegistry] at h ⊢
      simp only [load, h, if_true]
  | false =>
      rw [if_neg Bool.false_ne_true, loadedRegistry_of_not_isCompiled h]
      simp only [readRegistry, inputRegistry] at h ⊢
      simp only [load, h, Bool.false_eq_true, if_false]

theorem load_registry :
    (e.load env a id i trail).1.registry =
      (loadedRegistry env e.registry id a).modify id (·.markAvailable) := by
  rw [load_fst]
  split
  · simp only [modifyModule, registry_checkFormat]
  · rfl

theorem size_inputRegistry (r : Registry) (a : Artifact) :
    (inputRegistry r id a).size = r.size := by
  simp [inputRegistry]

theorem module_inputRegistry {r : Registry} (a : Artifact) (hid : id < r.size) :
    (inputRegistry r id a).module id = (r.module id).markFromBinary := by
  rw [inputRegistry, Registry.module_modify_self (by simpa using hid),
    Registry.module_addBinaryInput]

theorem evolves_inputRegistry {r : Registry} (p : Platform) (a : Artifact) (hid : id < r.size) :
    Registry.Evolves p id r (inputRegistry r id a) where
  size_le := Nat.le_of_eq (size_inputRegistry r a).symm
  others := fun j _ hne => by
    rw [inputRegistry, Registry.module_modify_of_ne hne, Registry.module_addBinaryInput]
  self := fun _ => by
    rw [module_inputRegistry a hid]
    exact Module.grows_markFromBinary _
  created := fun j h k => absurd k (Nat.not_lt.mpr (by rwa [size_inputRegistry]))
  found := fun c j h => by
    rwa [inputRegistry, Registry.find?_eq,
      Registry.index_modify fun m => Module.grows_markFromBinary m, Registry.index_addBinaryInput,
      ← Registry.find?_eq]

theorem imports_inputRegistry (r : Registry) (id : ModuleId) (a : Artifact) (j : ModuleId) :
    ((inputRegistry r id a).module j).imports = (r.module j).imports := by
  by_cases hne : j = id
  · subst hne
    by_cases hj : j < r.size
    · rw [module_inputRegistry a hj]
      rfl
    · rw [Registry.module_of_size_le (Nat.le_of_not_lt hj),
        Registry.module_of_size_le (by rw [size_inputRegistry]; exact Nat.le_of_not_lt hj)]
  · rw [inputRegistry, Registry.module_modify_of_ne hne, Registry.module_addBinaryInput]

theorem linked_inputRegistry {r : Registry} (a : Artifact) (hid : id < r.size) (hr : r.Indexed)
    (hl : r.Linked) : (inputRegistry r id a).Linked := by
  intro j i hi
  rw [imports_inputRegistry] at hi
  exact (evolves_inputRegistry ⟨"", "", []⟩ a hid).canonical hr (hl j i hi)

section

variable {r : Registry} {f : Module → Module} {b : Option Backend}

theorem evolves_declaredRegistry (env : Environment) (a : Artifact)
    (hf : ∀ m : Module, m.Grows (f m)) (hid : id < r.size) :
    Registry.Evolves env.platform id r (declaredRegistry env r id a f b) := by
  have hinput := evolves_inputRegistry env.platform a hid
  have hlt := hinput.lt_size hid
  exact (hinput.trans hid (Registry.evolves_modify hf)).trans hid
    (Registry.evolves_declareDependencies (by simpa using hlt) a.dependencies)

theorem linked_declaredRegistry (hf : ∀ m : Module, m.Grows (f m))
    (hfi : ∀ m : Module, (f m).imports = m.imports) (hid : id < r.size) (hr : r.Indexed)
    (hl : r.Linked) : (declaredRegistry env r id a f b).Linked := by
  have hinput : (inputRegistry r id a).Linked := linked_inputRegistry a hid hr hl
  have hindexed := (evolves_inputRegistry env.platform a hid).indexed hr
  have hmodify : Registry.Evolves env.platform id (inputRegistry r id a)
      ((inputRegistry r id a).modify id f) := Registry.evolves_modify hf
  refine Registry.linked_declareDependencies (hmodify.indexed hindexed)
    (Registry.linked_modify hindexed hinput hf fun _ => ?_) a.dependencies
  rw [hfi]
  exact hinput id

theorem isDefault_inputRegistry (hid : id < r.size) :
    ((inputRegistry r id a).module id).isDefault = (r.module id).isDefault := by
  rw [module_inputRegistry a hid]
  rfl

theorem readRegistry_of_isDefault (env : Environment) (a : Artifact) (hid : id < r.size)
    (hdefault : (r.module id).isDefault = true) :
    readRegistry env r id a = inputRegistry r id a := by
  have hinput := (isDefault_inputRegistry (a := a) hid).trans hdefault
  simp [readRegistry, Registry.readArtifact, hinput]

theorem readRegistry_of_native (hid : id < r.size) (hdefault : (r.module id).isDefault = false)
    (hformat : env.descriptors.format? a.coordinates = none) :
    readRegistry env r id a =
      declaredRegistry env r id a (·.markFromPlatform.restrictTo .host) (some .host) := by
  have hinput := (isDefault_inputRegistry (a := a) hid).trans hdefault
  simp [readRegistry, declaredRegistry, Registry.readArtifact, hinput, hformat]

theorem readRegistry_of_compiled {v : BinaryVersion} (hid : id < r.size)
    (hdefault : (r.module id).isDefault = false)
    (hformat : env.descriptors.format? a.coordinates = some v) :
    readRegistry env r id a = declaredRegistry env r id a (·.setBinaryVersion v) none := by
  have hinput := (isDefault_inputRegistry (a := a) hid).trans hdefault
  simp [readRegistry, declaredRegistry, Registry.readArtifact, hinput, hformat]

theorem readRegistry_cases (env : Environment) (a : Artifact) (hid : id < r.size) :
    readRegistry env r id a = inputRegistry r id a ∨
      ∃ (f : Module → Module) (b : Option Backend), (∀ m : Module, m.Grows (f m)) ∧
        (∀ m : Module, (f m).imports = m.imports) ∧
          readRegistry env r id a = declaredRegistry env r id a f b := by
  cases hdefault : (r.module id).isDefault with
  | true => exact .inl (readRegistry_of_isDefault env a hid hdefault)
  | false =>
      cases hformat : env.descriptors.format? a.coordinates with
      | none =>
          exact .inr ⟨_, _, fun m => Module.grows_markNative m .host, fun _ => rfl,
            readRegistry_of_native hid hdefault hformat⟩
      | some v =>
          exact .inr ⟨_, _, fun m => Module.grows_setBinaryVersion m v, fun _ => rfl,
            readRegistry_of_compiled hid hdefault hformat⟩

theorem evolves_readRegistry (env : Environment) (a : Artifact) (hid : id < r.size) :
    Registry.Evolves env.platform id r (readRegistry env r id a) := by
  rcases readRegistry_cases env a hid with hread | ⟨f, b, hf, -, hread⟩
  · rw [hread]
    exact evolves_inputRegistry env.platform a hid
  · rw [hread]
    exact evolves_declaredRegistry env a hf hid

theorem linked_readRegistry (env : Environment) (a : Artifact) (hid : id < r.size)
    (hr : r.Indexed) (hl : r.Linked) : (readRegistry env r id a).Linked := by
  rcases readRegistry_cases env a hid with hread | ⟨f, b, hf, hfi, hread⟩
  · rw [hread]
    exact linked_inputRegistry a hid hr hl
  · rw [hread]
    exact linked_declaredRegistry hf hfi hid hr hl

end

theorem evolves_loadedRegistry {r : Registry} (env : Environment) (a : Artifact)
    (hid : id < r.size) :
    Registry.Evolves env.platform id r (loadedRegistry env r id a) := by
  have hread := evolves_readRegistry env a hid
  rcases loadedRegistry_cases env r id a with hloaded | ⟨o, hloaded⟩
  · rw [hloaded]
    exact hread
  · rw [hloaded]
    exact hread.trans hid (Registry.evolves_overrideImports (hread.lt_size hid) o a.coordinates)

theorem module_loadedRegistry {r : Registry} (env : Environment) (a : Artifact)
    (hid : id < r.size) :
    ∃ is, (loadedRegistry env r id a).module id =
      ((readRegistry env r id a).module id).setImports is := by
  have hread := evolves_readRegistry env a hid
  rcases loadedRegistry_cases env r id a with hloaded | ⟨o, hloaded⟩
  · rw [hloaded]
    exact ⟨_, rfl⟩
  · rw [hloaded]
    exact Registry.module_overrideImports (hread.lt_size hid) o a.coordinates

theorem evolves_load (hid : id < e.registry.size) (hload : e.load env a id i trail = (f, l)) :
    Registry.Evolves env.platform id e.registry f.registry := by
  obtain rfl : (e.load env a id i trail).1 = f := congrArg Prod.fst hload
  rw [load_registry]
  exact (evolves_loadedRegistry env a hid).trans hid
    (Registry.evolves_modify fun m => Module.grows_markAvailable m)

theorem linked_loadedRegistry {r : Registry} (env : Environment) (a : Artifact)
    (hid : id < r.size) (hr : r.Indexed) (hl : r.Linked) :
    (loadedRegistry env r id a).Linked := by
  have hread := linked_readRegistry env a hid hr hl
  rcases loadedRegistry_cases env r id a with hloaded | ⟨o, hloaded⟩
  · rw [hloaded]
    exact hread
  · rw [hloaded]
    exact Registry.linked_overrideImports ((evolves_readRegistry env a hid).indexed hr) hread o
      a.coordinates

theorem linked_load (hid : id < e.registry.size) (hload : e.load env a id i trail = (f, l))
    (hr : e.registry.Indexed) (hl : e.registry.Linked) : f.registry.Linked := by
  obtain rfl : (e.load env a id i trail).1 = f := congrArg Prod.fst hload
  rw [load_registry]
  have hloaded := linked_loadedRegistry env a hid hr hl
  exact Registry.linked_modify ((evolves_loadedRegistry env a hid).indexed hr) hloaded
    (fun m => Module.grows_markAvailable m) fun _ => hloaded id

theorem binaryInputs_load (hload : e.load env a id i trail = (f, l)) :
    f.registry.binaryInputs = (e.registry.addBinaryInput id a).binaryInputs := by
  obtain rfl : (e.load env a id i trail).1 = f := congrArg Prod.fst hload
  have hread : (readRegistry env e.registry id a).binaryInputs =
      (e.registry.addBinaryInput id a).binaryInputs := by
    rw [readRegistry, Registry.binaryInputs_readArtifact]
    rfl
  rw [load_registry]
  change (loadedRegistry env e.registry id a).binaryInputs = _
  rcases loadedRegistry_cases env e.registry id a with hloaded | ⟨o, hloaded⟩
  · rw [hloaded, hread]
  · rw [hloaded, Registry.binaryInputs_overrideImports, hread]

theorem inProgress_load (hload : e.load env a id i trail = (f, l)) :
    f.inProgress = e.inProgress := by
  obtain rfl : (e.load env a id i trail).1 = f := congrArg Prod.fst hload
  rw [load_fst]
  split
  · simp only [modifyModule, checkFormat]
    split <;> rfl
  · rfl

def formatIssues (env : Environment) (m : Module) : List Issue :=
  if m.isCompiled then
    ((Issue.ofBinaryVersion? m.binaryVersion env.config.binaryVersion).map
      (env.platform.reworded m.coordinates)).toList
  else
    []

theorem exists_of_mem_formatIssues {m : Module} {issue : Issue} (h : issue ∈ formatIssues env m) :
    ∃ v, env.platform.reworded m.coordinates (.binaryFormat v env.config.binaryVersion) =
      issue := by
  simp only [formatIssues] at h
  split at h
  · simp only [Option.mem_toList, Option.map_eq_some_iff] at h
    obtain ⟨found, hfound, rfl⟩ := h
    obtain ⟨v, rfl⟩ := Issue.eq_binaryFormat hfound
    exact ⟨v, rfl⟩
  · exact absurd h List.not_mem_nil

theorem formatIssues_not_conflict {m : Module} {issue : Issue}
    (h : issue ∈ formatIssues env m) : issue.isConflict = false := by
  obtain ⟨v, rfl⟩ := exists_of_mem_formatIssues h
  exact Platform.isConflict_reworded rfl

theorem diagnostics_load (hid : i.target < e.registry.size)
    (hload : e.load env a i.target i trail = (f, l)) :
    f.diagnostics = e.diagnostics ++
      (formatIssues env ((loadedRegistry env e.registry i.target a).module i.target)).map
        fun issue => ⟨.error, .declaration trail.root i.target, issue⟩ := by
  obtain rfl : (e.load env a i.target i trail).1 = f := congrArg Prod.fst hload
  obtain ⟨is, his⟩ := module_loadedRegistry env a hid
  have hcompiled : ((loadedRegistry env e.registry i.target a).module i.target).isCompiled =
      ((readRegistry env e.registry i.target a).module i.target).isCompiled := by
    rw [his]
    rfl
  rw [load_fst, formatIssues, hcompiled]
  split
  · simp only [modifyModule, checkFormat]
    split
    · rename_i issue hissue
      simp [reportAtRoot, report, hissue, Platform.reworded]
    · rename_i hissue
      simp [hissue]
  · simp [modifyModule]

theorem available_load (hid : id < e.registry.size) (hload : e.load env a id i trail = (f, l)) :
    (f.registry.module id).available = true := by
  obtain rfl : (e.load env a id i trail).1 = f := congrArg Prod.fst hload
  rw [load_registry, Registry.module_modify_self ((evolves_loadedRegistry env a hid).lt_size hid)]
  rfl

end Engine

end ModuleResolution
