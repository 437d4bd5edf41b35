import ModuleResolution.Proofs.Names

namespace ModuleResolution

namespace NamedImport

theorem target_addAll {is js : List NamedImport} {c : Coordinates} :
    (∃ i ∈ addAll is js, i.target = c) ↔ (∃ i ∈ is, i.target = c) ∨ ∃ j ∈ js, j.target = c := by
  induction js generalizing is with
  | nil => simp [addAll]
  | cons j js ih =>
      rw [show addAll is (j :: js) = addAll (add is j) js from rfl, ih]
      cases hany : is.any (·.target == j.target) with
      | true =>
          obtain ⟨i, hi, htarget⟩ : ∃ i ∈ is, i.target = j.target := by simpa using hany
          rw [add_of_any hany]
          constructor
          · rintro (h | ⟨k, hk, hc⟩)
            · exact .inl h
            · exact .inr ⟨k, List.mem_cons_of_mem _ hk, hc⟩
          · rintro (h | ⟨k, hk, hc⟩)
            · exact .inl h
            · rcases List.mem_cons.mp hk with rfl | hk
              · exact .inl ⟨i, hi, htarget.trans hc⟩
              · exact .inr ⟨k, hk, hc⟩
      | false =>
          rw [add_of_not_any hany]
          simp only [List.mem_append, List.mem_cons, List.not_mem_nil, or_false, or_and_right,
            exists_or, exists_eq_left, or_assoc]

end NamedImport

namespace Registry

variable {r s : Registry} {p : Platform} {id : ModuleId} {c c' : Coordinates}

def Knows (r : Registry) (c : Coordinates) : Prop :=
  ∃ n < r.size, (r.module n).coordinates = c

theorem Knows.mono (h : r.Knows c) (hsize : r.size ≤ s.size)
    (hc : ∀ j < r.size, (s.module j).coordinates = (r.module j).coordinates) : s.Knows c := by
  obtain ⟨n, hn, rfl⟩ := h
  exact ⟨n, Nat.lt_of_lt_of_le hn hsize, hc n hn⟩

theorem knows_modify {f : Module → Module} (hf : ∀ m : Module, m.Grows (f m)) :
    (r.modify id f).Knows c ↔ r.Knows c := by
  have hev : Evolves ⟨"", "", []⟩ id r (r.modify id f) := evolves_modify hf
  refine exists_congr fun n => ?_
  rw [size_modify]
  exact and_congr_right fun hn => by rw [hev.coordinates hn]

theorem knows_ensure (hr : r.Indexed) : (r.ensure p c').1.Knows c ↔ r.Knows c ∨ c' = c := by
  have hev := evolves_ensure p 0 r c'
  constructor
  · rintro ⟨n, hn, hc⟩
    by_cases hlt : n < r.size
    · exact .inl ⟨n, hlt, (hev.coordinates hlt).symm.trans hc⟩
    · rcases ensure_cases r p c' with ⟨id, hf, he⟩ | ⟨hf, he⟩
      · rw [he] at hn
        exact absurd hn hlt
      · rw [he, size_modify, size_append] at hn
        obtain rfl : n = r.size := by omega
        have hnew := coordinates_ensure (p := p) (c := c') hr
        rw [he] at hnew hc
        exact .inr (hnew.symm.trans hc)
  · rintro (h | rfl)
    · exact h.mono hev.size_le fun j hj => hev.coordinates hj
    · exact ⟨_, ensure_lt_size hr, coordinates_ensure hr⟩

theorem knows_declareDependencies {b : Option Backend} (hr : r.Indexed)
    (deps : List ArtifactDependency) :
    (r.declareDependencies p id b deps).Knows c ↔
      r.Knows c ∨ ∃ d ∈ deps, d.coordinates = c := by
  induction deps generalizing r with
  | nil => simp [declareDependencies]
  | cons d deps ih =>
      have hev := evolves_ensure p id r d.coordinates
      have hmodify : Evolves p id (r.ensure p d.coordinates).1
          ((r.ensure p d.coordinates).1.modify id
            (·.addImport ⟨(r.ensure p d.coordinates).2, d.kind.isOptional, d.kind.isExported,
              b⟩)) :=
        evolves_modify fun m => Module.grows_addImport m _
      rw [declareDependencies_cons, ih (hmodify.indexed (hev.indexed hr)),
        knows_modify fun m => Module.grows_addImport m _, knows_ensure hr]
      simp only [List.mem_cons, or_and_right, exists_or, exists_eq_left, or_assoc]

theorem knows_foldl_link (ds : List Dependency) (built : Registry × List Import)
    (hr : built.1.Indexed) :
    (ds.foldl (link p) built).1.Knows c ↔ built.1.Knows c ∨ ∃ d ∈ ds, d.coordinates = c := by
  induction ds generalizing built with
  | nil => simp
  | cons d ds ih =>
      have hev := evolves_ensure p 0 built.1 d.coordinates
      rw [List.foldl_cons, ih _ (by rw [link_fst]; exact hev.indexed hr), link_fst, knows_ensure hr]
      simp only [List.mem_cons, or_and_right, exists_or, exists_eq_left, or_assoc]

end Registry

def Environment.Mentions (env : Environment) (a : Artifact) (c : Coordinates) : Prop :=
  (∃ d ∈ a.dependencies, d.coordinates = c) ∨ ∃ i ∈ env.named a, i.target = c

namespace Registry

variable {r : Registry} {p : Platform} {id : ModuleId} {c : Coordinates}

theorem knows_overrideImports {o : Overrides} {c' : Coordinates} (hr : r.Indexed) :
    (r.overrideImports p o id c').Knows c ↔ r.Knows c ∨
      o.hasRule c' = true ∧ ∃ i ∈ o.named c' (r.namedImports id), i.target = c := by
  cases h : o.hasRule c' with
  | false => simp [overrideImports_of_not_hasRule h]
  | true =>
      rw [overrideImports_of_hasRule h, knows_modify fun m => Module.grows_setImports m _,
        Overrides.named, if_pos h, NamedImport.target_addAll, ← declared_eq_ofList]
      refine (knows_foldl_link _ (r, []) hr).trans (or_congr_right ?_)
      constructor
      · rintro ⟨d, hd, rfl⟩
        exact ⟨rfl, .inr ⟨_, List.mem_map_of_mem hd, rfl⟩⟩
      · rintro ⟨-, ⟨i, hi, -⟩ | ⟨i, hi, rfl⟩⟩
        · cases hi
        · obtain ⟨d, hd, rfl⟩ := List.mem_map.mp hi
          exact ⟨d, hd, rfl⟩

end Registry

namespace Engine

variable {r : Registry} {e : Engine} {id : ModuleId} {env : Environment} {a : Artifact}
  {i : Import} {trail : Trail} {c : Coordinates}

theorem knows_inputRegistry (hid : id < r.size) :
    (inputRegistry r id a).Knows c ↔ r.Knows c := by
  have hev := evolves_inputRegistry ⟨"", "", []⟩ a hid
  refine exists_congr fun n => ?_
  rw [size_inputRegistry]
  exact and_congr_right fun hn => by rw [hev.coordinates hn]

theorem mentions_of_declared {b : Option Backend} {deps : List ArtifactDependency}
    {declared : List NamedImport}
    (h : declared = NamedImport.addAll [] (deps.map (.ofArtifact b))) :
    ((∃ d ∈ deps, d.coordinates = c) ∨ ∃ i ∈ declared, i.target = c) ↔
      ∃ d ∈ deps, d.coordinates = c := by
  refine or_iff_left_of_imp ?_
  rw [h, NamedImport.target_addAll]
  rintro (⟨i, hi, -⟩ | ⟨i, hi, rfl⟩)
  · cases hi
  · obtain ⟨d, hd, rfl⟩ := List.mem_map.mp hi
    exact ⟨d, hd, rfl⟩

theorem knows_declaredRegistry (env : Environment) (a : Artifact) {f : Module → Module}
    {b : Option Backend} (hf : ∀ m : Module, m.Grows (f m)) (hr : r.Indexed)
    (hid : id < r.size) :
    (declaredRegistry env r id a f b).Knows c ↔
      r.Knows c ∨ ∃ d ∈ a.dependencies, d.coordinates = c := by
  have hmodify : Registry.Evolves env.platform id (inputRegistry r id a)
      ((inputRegistry r id a).modify id f) := Registry.evolves_modify hf
  have hindexed := hmodify.indexed ((evolves_inputRegistry env.platform a hid).indexed hr)
  rw [declaredRegistry, Registry.knows_declareDependencies hindexed, Registry.knows_modify hf,
    knows_inputRegistry hid]

theorem knows_loadedRegistry (hr : r.Indexed) (hid : id < r.size)
    (hnil : (r.module id).imports = []) (hplatform : (r.module id).fromPlatform = false)
    (hdefault : (r.module id).isDefault = false) :
    (loadedRegistry env r id a).Knows c ↔ r.Knows c ∨ env.Mentions a c := by
  cases hformat : env.descriptors.format? a.coordinates with
  | none =>
      rw [loadedRegistry_of_native hid hdefault hformat,
        knows_declaredRegistry env a (fun m => Module.grows_markNative m .host) hr hid,
        Environment.Mentions]
      refine or_congr_right (mentions_of_declared (b := some .host) ?_).symm
      simp [Environment.named, hformat]
  | some v =>
      have hset (m : Module) : m.Grows (m.setBinaryVersion v) := Module.grows_setBinaryVersion m v
      have hknows := knows_declaredRegistry env a (c := c) (b := none) hset hr hid
      rw [loadedRegistry_of_compiled hid hdefault hplatform hformat, Environment.Mentions]
      cases hoverrides : env.overrides with
      | none =>
          refine hknows.trans (or_congr_right (mentions_of_declared (b := none) ?_).symm)
          simp [Environment.named, hformat, hoverrides]
      | some o =>
          have hnames := namedImports_declaredRegistry env a (b := none) hset (fun _ => rfl) hr
            hid hnil
          have hindexed := (evolves_declaredRegistry env a (b := none) hset hid).indexed hr
          have hnamed : env.named a = o.named a.coordinates
              (NamedImport.addAll [] (a.dependencies.map (.ofArtifact none))) := by
            simp [Environment.named, hformat, hoverrides]
          refine (Registry.knows_overrideImports hindexed).trans ?_
          rw [hnames, hknows, or_assoc, hnamed]
          refine or_congr_right ?_
          -- without a rule the edges stay, and they lead to nothing else
          cases hrule : o.hasRule a.coordinates with
          | true => simp
          | false =>
              simp only [Overrides.named, hrule, Bool.false_eq_true, if_false, false_and, or_false]
              exact (mentions_of_declared (b := none) rfl).symm

theorem knows_load (hr : e.registry.Indexed) (hid : id < e.registry.size)
    (hnil : (e.registry.module id).imports = [])
    (hplatform : (e.registry.module id).fromPlatform = false) :
    (e.load env a id i trail).1.registry.Knows c ↔ e.registry.Knows c ∨
      (e.registry.module id).isDefault = false ∧ env.Mentions a c := by
  rw [load_registry, Registry.knows_modify fun m => Module.grows_markAvailable m]
  cases hdefault : (e.registry.module id).isDefault with
  | true =>
      rw [loadedRegistry_of_isDefault hid hdefault, knows_inputRegistry hid]
      simp
  | false =>
      rw [knows_loadedRegistry hr hid hnil hplatform hdefault]
      simp

end Engine

end ModuleResolution
