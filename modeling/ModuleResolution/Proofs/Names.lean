import ModuleResolution.Proofs.Load

namespace ModuleResolution

structure NamedImport where
  target : Coordinates
  optional : Bool
  exported : Bool
  backend : Option Backend
  deriving DecidableEq, Repr

namespace NamedImport

def ofDependency (d : Dependency) : NamedImport :=
  ⟨d.coordinates, d.optional, d.exported, none⟩

def ofArtifact (b : Option Backend) (d : ArtifactDependency) : NamedImport :=
  ⟨d.coordinates, d.kind.isOptional, d.kind.isExported, b⟩

def asDependency (i : NamedImport) : Dependency :=
  ⟨i.target.name, i.target.version, i.optional, i.exported⟩

def add (imports : List NamedImport) (i : NamedImport) : List NamedImport :=
  if imports.any (·.target == i.target) then imports else imports ++ [i]

theorem add_of_any {is : List NamedImport} {i : NamedImport}
    (h : is.any (·.target == i.target) = true) : add is i = is :=
  if_pos h

theorem add_of_not_any {is : List NamedImport} {i : NamedImport}
    (h : is.any (·.target == i.target) = false) : add is i = is ++ [i] :=
  if_neg (Bool.not_eq_true _ ▸ h)

def addAll (imports : List NamedImport) (is : List NamedImport) : List NamedImport :=
  is.foldl add imports

theorem addAll_concat (imports is : List NamedImport) (i : NamedImport) :
    addAll imports (is ++ [i]) = add (addAll imports is) i :=
  List.foldl_append

end NamedImport

theorem Module.isCompiled_eq_of_face {m n : Module} (h : m.setImports [] = n.setImports []) :
    m.isCompiled = n.isCompiled := by
  have hface := congrArg Module.isCompiled h
  exact hface

namespace Registry

variable {r s : Registry} {p : Platform} {id j : ModuleId} {c : Coordinates}

def Distinct (r : Registry) : Prop :=
  ∀ i < r.size, ∀ j < r.size, (r.module i).coordinates = (r.module j).coordinates → i = j

def named (r : Registry) (i : Import) : NamedImport :=
  ⟨(r.module i.target).coordinates, i.optional, i.exported, i.backend⟩

def namedImports (r : Registry) (id : ModuleId) : List NamedImport :=
  (r.module id).imports.map r.named

theorem named_eq {i : Import}
    (h : (s.module i.target).coordinates = (r.module i.target).coordinates) :
    s.named i = r.named i := by
  simp only [named, h]

theorem map_named_eq {is : List Import}
    (h : ∀ i ∈ is, (s.module i.target).coordinates = (r.module i.target).coordinates) :
    is.map s.named = is.map r.named :=
  List.map_congr_left fun i hi => named_eq (h i hi)

theorem namedImports_eq (hr : r.Indexed) (hl : r.LinkedAt id)
    (hc : ∀ j < r.size, (s.module j).coordinates = (r.module j).coordinates)
    (hi : (s.module id).imports = (r.module id).imports) :
    s.namedImports id = r.namedImports id := by
  rw [namedImports, hi]
  exact map_named_eq fun i hmem => hc _ ((hl i hmem).lt_size hr)

theorem distinct_of_coordinates (h : r.Distinct) (hsize : s.size = r.size)
    (hc : ∀ j < r.size, (s.module j).coordinates = (r.module j).coordinates) : s.Distinct := by
  intro i hi j hj heq
  rw [hsize] at hi hj
  rw [hc i hi, hc j hj] at heq
  exact h i hi j hj heq

theorem Distinct.canonical (h : r.Distinct) (hr : r.Indexed) (hid : id < r.size) :
    r.Canonical id := by
  cases hf : r.find? (r.module id).coordinates with
  | none => exact absurd rfl (coordinates_ne_of_find? hf hid)
  | some j =>
      obtain ⟨hj, hc⟩ := lt_size_and_coordinates_of_find? hr hf
      rw [Canonical, hf, h j hj id hid hc]

theorem distinct_modify {f : Module → Module} (h : r.Distinct) (hf : ∀ m : Module, m.Grows (f m)) :
    (r.modify id f).Distinct := by
  have hev : Evolves ⟨"", "", []⟩ id r (r.modify id f) := evolves_modify hf
  exact distinct_of_coordinates h (size_modify r id f) fun j hj => hev.coordinates hj

theorem Distinct.append {d : Bool} (h : r.Distinct)
    (hnew : ∀ i < r.size, (r.module i).coordinates ≠ c) : (r.append c d).Distinct := by
  intro i hi j hj heq
  rw [size_append] at hi hj
  rcases Nat.lt_succ_iff_lt_or_eq.mp hi with hi | rfl
  · rw [module_append_of_lt hi] at heq
    rcases Nat.lt_succ_iff_lt_or_eq.mp hj with hj | rfl
    · rw [module_append_of_lt hj] at heq
      exact h i hi j hj heq
    · rw [module_append_size, Module.coordinates_fresh] at heq
      exact absurd heq (hnew i hi)
  · rw [module_append_size, Module.coordinates_fresh] at heq
    rcases Nat.lt_succ_iff_lt_or_eq.mp hj with hj | rfl
    · rw [module_append_of_lt hj] at heq
      exact absurd heq.symm (hnew j hj)
    · rfl

theorem distinct_init (hne : c ≠ defaultCoordinates) : (init c).Distinct := by
  have hempty : (⟨[], []⟩ : Registry).Distinct := fun i hi => absurd hi (Nat.not_lt_zero i)
  refine (hempty.append fun i hi => absurd hi (Nat.not_lt_zero i)).append fun i hi => ?_
  obtain rfl : i = 0 := Nat.lt_one_iff.mp hi
  have hfirst : (((⟨[], []⟩ : Registry).append c false).module 0).coordinates = c :=
    Module.coordinates_fresh _ _ _
  rwa [hfirst]

theorem distinct_ensure (h : r.Distinct) : (r.ensure p c).1.Distinct := by
  rcases ensure_cases r p c with ⟨id, -, he⟩ | ⟨hf, he⟩
  · rw [he]
    exact h
  · rw [he]
    exact distinct_modify (h.append fun i hi => coordinates_ne_of_find? hf hi)
      fun m => Module.grows_setUp p m

theorem any_target_eq (is : List Import) (his : ∀ i ∈ is, r.Canonical i.target)
    (hid : r.Canonical id) :
    is.any (fun i => i.target == id) =
      (is.map r.named).any fun i => i.target == (r.module id).coordinates := by
  rw [Bool.eq_iff_iff, List.any_map, List.any_eq_true, List.any_eq_true]
  refine exists_congr fun i => and_congr_right fun hi => ?_
  simp only [Function.comp_apply, named, beq_iff_eq]
  exact ⟨fun heq => heq ▸ rfl, (his i hi).eq hid⟩

theorem map_named_addImport {m : Module} {i : Import}
    (hm : ∀ k ∈ m.imports, r.Canonical k.target) (hi : r.Canonical i.target) :
    (m.addImport i).imports.map r.named = NamedImport.add (m.imports.map r.named) (r.named i) := by
  have hany : m.imports? i.target =
      (m.imports.map r.named).any (·.target == (r.named i).target) := by
    rw [Module.imports?, Module.import?, List.isSome_find?]
    exact any_target_eq _ hm hi
  rw [NamedImport.add, ← hany, Module.addImport_eq]
  split
  · rfl
  · rw [List.map_append]
    rfl

theorem namedImports_addEdge {o e : Bool} {b : Option Backend} (hr : r.Indexed)
    (hl : r.LinkedAt id) (hid : id < r.size) :
    ((r.ensure p c).1.modify id (·.addImport ⟨(r.ensure p c).2, o, e, b⟩)).namedImports id =
      NamedImport.add (r.namedImports id) ⟨c, o, e, b⟩ := by
  have hev := evolves_ensure p id r c
  have hlt : id < (r.ensure p c).1.size := hev.lt_size hid
  have hmodify : Evolves p id (r.ensure p c).1
      ((r.ensure p c).1.modify id (·.addImport ⟨(r.ensure p c).2, o, e, b⟩)) :=
    evolves_modify fun m => Module.grows_addImport m _
  have hindexed := hev.indexed hr
  have hlinked : (r.ensure p c).1.LinkedAt id := linkedAt_ensure hr hl
  have htarget := canonical_ensure (p := p) (c := c) hr
  have hnamed (is : List Import) (his : ∀ i ∈ is, i.target < (r.ensure p c).1.size) :
      is.map ((r.ensure p c).1.modify id (·.addImport ⟨(r.ensure p c).2, o, e, b⟩)).named =
        is.map (r.ensure p c).1.named :=
    map_named_eq fun i hi => hmodify.coordinates (his i hi)
  have hold : (r.ensure p c).1.namedImports id = r.namedImports id :=
    namedImports_eq hr hl (fun j hj => hev.coordinates hj) (imports_ensure r p c id)
  rw [namedImports, module_modify_self hlt, hnamed,
    map_named_addImport (i := ⟨(r.ensure p c).2, o, e, b⟩) hlinked htarget, ← hold,
    namedImports]
  · rw [named, coordinates_ensure hr]
  · intro i hi
    rcases Module.mem_addImport hi with hi | rfl
    · exact (hlinked i hi).lt_size hindexed
    · exact ensure_lt_size hr

theorem namedImports_declareDependencies {b : Option Backend} (hr : r.Indexed)
    (hl : r.LinkedAt id) (hid : id < r.size) (deps : List ArtifactDependency) :
    (r.declareDependencies p id b deps).namedImports id =
      NamedImport.addAll (r.namedImports id) (deps.map (.ofArtifact b)) := by
  induction deps generalizing r with
  | nil => rfl
  | cons d deps ih =>
      have hev := evolves_ensure p id r d.coordinates
      have hmodify : Evolves p id (r.ensure p d.coordinates).1
        ((r.ensure p d.coordinates).1.modify id
          (·.addImport ⟨(r.ensure p d.coordinates).2, d.kind.isOptional, d.kind.isExported, b⟩)) :=
        evolves_modify fun m => Module.grows_addImport m _
      have hlt := hev.lt_size hid
      rw [declareDependencies_cons, ih (hmodify.indexed (hev.indexed hr))
        (linkedAt_addImport (hev.indexed hr) (linkedAt_ensure hr hl) hlt (canonical_ensure hr))
        (by simpa using hlt), namedImports_addEdge hr hl hid]
      rfl

theorem namedImports_declareDependencies_modify {f : Module → Module} {b : Option Backend}
    (hf : ∀ m : Module, m.Grows (f m)) (hfi : ∀ m : Module, (f m).imports = m.imports)
    (hr : r.Indexed) (hid : id < r.size)
    (hnil : (r.module id).imports = []) (deps : List ArtifactDependency) :
    ((r.modify id f).declareDependencies p id b deps).namedImports id =
      NamedImport.addAll [] (deps.map (.ofArtifact b)) := by
  have hev : Evolves p id r (r.modify id f) := evolves_modify hf
  have hself : ((r.modify id f).module id).imports = [] := by
    rw [module_modify_self hid, hfi, hnil]
  have hnames : (r.modify id f).namedImports id = [] := by rw [namedImports, hself]; rfl
  rw [namedImports_declareDependencies (hev.indexed hr)
    (linkedAt_modify hr hf hid ?_) (by simpa using hid), hnames]
  rw [hfi, hnil]
  exact fun i hi => absurd hi List.not_mem_nil

theorem distinct_declareDependencies {b : Option Backend} (hd : r.Distinct)
    (deps : List ArtifactDependency) : (r.declareDependencies p id b deps).Distinct := by
  induction deps generalizing r with
  | nil => exact hd
  | cons d deps ih =>
      rw [declareDependencies_cons]
      exact ih (distinct_modify (distinct_ensure hd) fun m => Module.grows_addImport m _)

theorem map_named_link {built : Registry × List Import} (d : Dependency)
    (hr : built.1.Indexed) (hb : ∀ i ∈ built.2, built.1.Canonical i.target) :
    (link p built d).2.map (link p built d).1.named =
      NamedImport.add (built.2.map built.1.named) (.ofDependency d) := by
  have hev := evolves_ensure p 0 built.1 d.coordinates
  have hold : built.2.map (built.1.ensure p d.coordinates).1.named = built.2.map built.1.named :=
    map_named_eq fun i hi => hev.coordinates ((hb i hi).lt_size hr)
  have hcoordinates := coordinates_ensure (p := p) (c := d.coordinates) hr
  have hany := any_target_eq built.2 (fun i hi => hev.canonical hr (hb i hi))
    (canonical_ensure (p := p) (c := d.coordinates) hr)
  rw [hold, hcoordinates] at hany
  rw [link_fst]
  cases hmem : (built.2.map built.1.named).any fun i => i.target == d.coordinates with
  | true =>
      have hlink : (link p built d).2 = built.2 := by simp [link, hany.trans hmem]
      rw [hlink, hold]
      exact (NamedImport.add_of_any hmem).symm
  | false =>
      have hlink : (link p built d).2 =
          built.2 ++ [⟨(built.1.ensure p d.coordinates).2, d.optional, d.exported, none⟩] := by
        simp [link, hany.trans hmem]
      rw [hlink, List.map_append, hold, List.map_singleton, named, hcoordinates]
      exact (NamedImport.add_of_not_any hmem).symm

theorem distinct_foldl_link (ds : List Dependency) (built : Registry × List Import)
    (hd : built.1.Distinct) : (ds.foldl (link p) built).1.Distinct := by
  induction ds generalizing built with
  | nil => exact hd
  | cons d ds ih =>
      refine ih (link p built d) ?_
      rw [link_fst]
      exact distinct_ensure hd

theorem map_named_foldl_link (ds : List Dependency) (built : Registry × List Import)
    (hr : built.1.Indexed) (hb : ∀ i ∈ built.2, built.1.Canonical i.target) :
    (ds.foldl (link p) built).2.map (ds.foldl (link p) built).1.named =
      NamedImport.addAll (built.2.map built.1.named) (ds.map .ofDependency) := by
  induction ds generalizing built with
  | nil => rfl
  | cons d ds ih =>
      have hev := evolves_ensure p 0 built.1 d.coordinates
      rw [List.foldl_cons, ih (link p built d), map_named_link d hr hb]
      · rfl
      · rw [link_fst]
        exact hev.indexed hr
      · intro i hi
        rw [link_fst]
        rcases mem_link hi with hi | rfl
        · exact hev.canonical hr (hb i hi)
        · exact canonical_ensure hr

end Registry

def Overrides.named (o : Overrides) (c : Coordinates) (declared : List NamedImport) :
    List NamedImport :=
  if o.hasRule c then
    NamedImport.addAll [] <| (o.apply c (Ascending.ofList (declared.map (·.asDependency)))
      ).toList.map .ofDependency
  else
    declared

namespace Environment

def named (env : Environment) (a : Artifact) : List NamedImport :=
  match env.descriptors.format? a.coordinates with
  | some _ =>
      let declared := NamedImport.addAll [] (a.dependencies.map (.ofArtifact none))
      match env.overrides with
      | some o => o.named a.coordinates declared
      | none => declared
  | none => NamedImport.addAll [] (a.dependencies.map (.ofArtifact (some .host)))

def loadedFace (env : Environment) (m : Module) (a : Artifact) : Module :=
  if m.isDefault then
    m.markFromBinary.markAvailable
  else
    match env.descriptors.format? a.coordinates with
    | some v => (m.markFromBinary.setBinaryVersion v).markAvailable
    | none => (m.markFromBinary.markFromPlatform.restrictTo .host).markAvailable

end Environment

namespace Registry

variable {r : Registry} {p : Platform} {id : ModuleId} {env : Environment} {a : Artifact}

theorem declared_eq_ofList (r : Registry) (id : ModuleId) :
    r.declared id = Ascending.ofList ((r.namedImports id).map (·.asDependency)) := by
  rw [namedImports, List.map_map]
  rfl

theorem namedImports_overrideImports (o : Overrides) (c : Coordinates) (hr : r.Indexed)
    (hid : id < r.size) :
    (r.overrideImports p o id c).namedImports id = o.named c (r.namedImports id) := by
  cases h : o.hasRule c with
  | false => rw [overrideImports_of_not_hasRule h, Overrides.named, if_neg (by simp [h])]
  | true =>
      have hlinked := evolves_foldl_link (p := p) id (o.apply c (r.declared id)).toList (r, []) hid
      have hlt : id < (r.linkAll p (o.apply c (r.declared id))).1.size :=
        hlinked.lt_size hid
      have hnames := map_named_foldl_link (p := p) (o.apply c (r.declared id)).toList (r, []) hr
        fun i hi => absurd hi List.not_mem_nil
      rw [overrideImports_of_hasRule h, Overrides.named, if_pos h, namedImports,
        module_modify_self hlt, ← declared_eq_ofList]
      refine (map_named_eq fun i hi => ?_).trans hnames
      obtain ⟨hindexed, hlinks⟩ := canonical_foldl_link (p := p)
        (o.apply c (r.declared id)).toList (r, []) hr fun i hi => absurd hi List.not_mem_nil
      exact (evolves_modify (p := p) fun m => Module.grows_setImports m _).coordinates
        ((hlinks i hi).lt_size hindexed)

theorem distinct_overrideImports (o : Overrides) (c : Coordinates) (hd : r.Distinct) :
    (r.overrideImports p o id c).Distinct := by
  cases h : o.hasRule c with
  | false =>
      rw [overrideImports_of_not_hasRule h]
      exact hd
  | true =>
      rw [overrideImports_of_hasRule h]
      exact distinct_modify (distinct_foldl_link _ (r, []) hd) fun m => Module.grows_setImports m _

theorem face_declareDependencies {b : Option Backend} (hid : id < r.size)
    (deps : List ArtifactDependency) :
    ((r.declareDependencies p id b deps).module id).setImports [] =
      (r.module id).setImports [] := by
  induction deps generalizing r with
  | nil => rfl
  | cons d deps ih =>
      have hev := evolves_ensure p id r d.coordinates
      have hlt := hev.lt_size hid
      rw [declareDependencies_cons, ih (by simpa using hlt), module_modify_self hlt,
        module_ensure_of_lt hid, Module.addImport_eq]
      split <;> rfl

end Registry

namespace Engine

variable {r : Registry} {id : ModuleId} {env : Environment} {a : Artifact}

theorem distinct_inputRegistry (hd : r.Distinct) (hid : id < r.size) :
    (inputRegistry r id a).Distinct :=
  Registry.distinct_of_coordinates hd (size_inputRegistry r a)
    fun _ hj => (evolves_inputRegistry ⟨"", "", []⟩ a hid).coordinates hj

section

variable {f : Module → Module} {b : Option Backend}

theorem distinct_declaredRegistry (hf : ∀ m : Module, m.Grows (f m)) (hd : r.Distinct)
    (hid : id < r.size) : (declaredRegistry env r id a f b).Distinct :=
  Registry.distinct_declareDependencies
    (Registry.distinct_modify (distinct_inputRegistry hd hid) hf) a.dependencies

theorem namedImports_declaredRegistry (env : Environment) (a : Artifact)
    (hf : ∀ m : Module, m.Grows (f m)) (hfi : ∀ m : Module, (f m).imports = m.imports)
    (hr : r.Indexed) (hid : id < r.size) (hnil : (r.module id).imports = []) :
    (declaredRegistry env r id a f b).namedImports id =
      NamedImport.addAll [] (a.dependencies.map (.ofArtifact b)) := by
  have hev := evolves_inputRegistry env.platform a hid
  refine Registry.namedImports_declareDependencies_modify hf hfi (hev.indexed hr)
    (hev.lt_size hid) ?_ a.dependencies
  rw [imports_inputRegistry, hnil]

theorem face_declaredRegistry (env : Environment) (a : Artifact) (hid : id < r.size) :
    ((declaredRegistry env r id a f b).module id).setImports [] =
      (f ((r.module id).markFromBinary)).setImports [] := by
  have hlt := (evolves_inputRegistry env.platform a hid).lt_size hid
  rw [declaredRegistry, Registry.face_declareDependencies (by simpa using hlt),
    Registry.module_modify_self hlt, module_inputRegistry a hid]

end

theorem distinct_loadedRegistry (hd : r.Distinct) (hid : id < r.size) :
    (loadedRegistry env r id a).Distinct := by
  have hread : (readRegistry env r id a).Distinct := by
    rcases readRegistry_cases env a hid with hread | ⟨f, b, hf, -, hread⟩
    · rw [hread]
      exact distinct_inputRegistry hd hid
    · rw [hread]
      exact distinct_declaredRegistry hf hd hid
  rcases loadedRegistry_cases env r id a with hloaded | ⟨o, hloaded⟩
  · rw [hloaded]
    exact hread
  · rw [hloaded]
    exact Registry.distinct_overrideImports o a.coordinates hread

theorem loadedRegistry_of_isDefault (hid : id < r.size)
    (hdefault : (r.module id).isDefault = true) :
    loadedRegistry env r id a = inputRegistry r id a := by
  have hread := readRegistry_of_isDefault env a hid hdefault
  rw [loadedRegistry_of_not_isCompiled, hread]
  rw [hread, module_inputRegistry a hid]
  simp [Module.isCompiled, Module.markFromBinary, hdefault]

theorem loadedRegistry_of_native (hid : id < r.size)
    (hdefault : (r.module id).isDefault = false)
    (hformat : env.descriptors.format? a.coordinates = none) :
    loadedRegistry env r id a =
      declaredRegistry env r id a (·.markFromPlatform.restrictTo .host) (some .host) := by
  have hread := readRegistry_of_native hid hdefault hformat
  rw [loadedRegistry_of_not_isCompiled, hread]
  rw [hread, Module.isCompiled_eq_of_face (face_declaredRegistry env a hid)]
  rfl

theorem loadedRegistry_of_compiled {v : BinaryVersion} (hid : id < r.size)
    (hdefault : (r.module id).isDefault = false)
    (hplatform : (r.module id).fromPlatform = false)
    (hformat : env.descriptors.format? a.coordinates = some v) :
    loadedRegistry env r id a =
      let declared := declaredRegistry env r id a (·.setBinaryVersion v) none
      match env.overrides with
      | some o => declared.overrideImports env.platform o id a.coordinates
      | none => declared := by
  have hread := readRegistry_of_compiled hid hdefault hformat
  have hcompiled : ((readRegistry env r id a).module id).isCompiled = true := by
    rw [hread, Module.isCompiled_eq_of_face (face_declaredRegistry env a hid)]
    simp [Module.isCompiled, Module.setBinaryVersion, Module.markFromBinary, hplatform, hdefault]
  cases hoverrides : env.overrides with
  | none => simp only [loadedRegistry, hoverrides, hread]
  | some o =>
      rw [loadedRegistry, hoverrides]
      exact (if_pos hcompiled).trans (by rw [hread])

theorem namedImports_loadedRegistry (hr : r.Indexed) (hid : id < r.size)
    (hnil : (r.module id).imports = [])
    (hplatform : (r.module id).fromPlatform = false) :
    (loadedRegistry env r id a).namedImports id =
      if (r.module id).isDefault then [] else env.named a := by
  cases hdefault : (r.module id).isDefault with
  | true =>
      rw [loadedRegistry_of_isDefault hid hdefault, if_pos rfl, Registry.namedImports,
        imports_inputRegistry, hnil]
      rfl
  | false =>
      rw [if_neg Bool.false_ne_true, Environment.named]
      cases hformat : env.descriptors.format? a.coordinates with
      | none =>
          rw [loadedRegistry_of_native hid hdefault hformat]
          exact namedImports_declaredRegistry env a (fun m => Module.grows_markNative m .host)
            (fun _ => rfl) hr hid hnil
      | some v =>
          have hset (m : Module) : m.Grows (m.setBinaryVersion v) :=
            Module.grows_setBinaryVersion m v
          have hnames := namedImports_declaredRegistry env a (b := none) hset (fun _ => rfl) hr
            hid hnil
          rw [loadedRegistry_of_compiled hid hdefault hplatform hformat]
          cases env.overrides with
          | none => exact hnames
          | some o =>
              have hev := evolves_declaredRegistry env a (b := none) hset hid
              have hoverridden := Registry.namedImports_overrideImports (p := env.platform) o
                a.coordinates (hev.indexed hr) (hev.lt_size hid)
              exact hoverridden.trans (congrArg (o.named a.coordinates) hnames)

theorem face_loadedRegistry (env : Environment) (a : Artifact) (hid : id < r.size) :
    (((loadedRegistry env r id a).module id).setImports []).markAvailable =
      env.loadedFace ((r.module id).setImports []) a := by
  obtain ⟨is, his⟩ := module_loadedRegistry env a hid
  have hface : ((loadedRegistry env r id a).module id).setImports [] =
      ((readRegistry env r id a).module id).setImports [] := by rw [his]; rfl
  rw [hface]
  cases hdefault : (r.module id).isDefault with
  | true =>
      have hbare : ((r.module id).setImports []).isDefault = true := hdefault
      rw [readRegistry_of_isDefault env a hid hdefault, module_inputRegistry a hid,
        Environment.loadedFace, if_pos hbare]
      rfl
  | false =>
      have hbare : ¬ ((r.module id).setImports []).isDefault = true := by
        rw [show ((r.module id).setImports []).isDefault = false from hdefault]
        exact Bool.false_ne_true
      rw [Environment.loadedFace, if_neg hbare]
      cases hformat : env.descriptors.format? a.coordinates with
      | none =>
          rw [readRegistry_of_native hid hdefault hformat, face_declaredRegistry env a hid]
          rfl
      | some v =>
          rw [readRegistry_of_compiled hid hdefault hformat, face_declaredRegistry env a hid]
          rfl

variable {e : Engine} {i : Import} {trail : Trail}

theorem distinct_load (hd : e.registry.Distinct) (hid : id < e.registry.size) :
    (e.load env a id i trail).1.registry.Distinct := by
  rw [load_registry]
  exact Registry.distinct_modify (distinct_loadedRegistry hd hid)
    fun m => Module.grows_markAvailable m

theorem namedImports_load (hr : e.registry.Indexed) (hl : e.registry.Linked)
    (hid : id < e.registry.size)
    (hnil : (e.registry.module id).imports = [])
    (hplatform : (e.registry.module id).fromPlatform = false) :
    (e.load env a id i trail).1.registry.namedImports id =
      if (e.registry.module id).isDefault then [] else env.named a := by
  have hmark : Registry.Evolves env.platform id (loadedRegistry env e.registry id a)
      ((loadedRegistry env e.registry id a).modify id (·.markAvailable)) :=
    Registry.evolves_modify fun m => Module.grows_markAvailable m
  rw [load_registry, ← namedImports_loadedRegistry hr hid hnil hplatform]
  refine Registry.namedImports_eq ((evolves_loadedRegistry env a hid).indexed hr)
    (linked_loadedRegistry env a hid hr hl id) (fun j hj => hmark.coordinates hj) ?_
  rw [Registry.module_modify_self ((evolves_loadedRegistry env a hid).lt_size hid)]
  rfl

theorem face_load (hid : id < e.registry.size) :
    ((e.load env a id i trail).1.registry.module id).setImports [] =
      env.loadedFace ((e.registry.module id).setImports []) a := by
  rw [load_registry, Registry.module_modify_self
    ((evolves_loadedRegistry env a hid).lt_size hid)]
  exact face_loadedRegistry env a hid

end Engine

end ModuleResolution
