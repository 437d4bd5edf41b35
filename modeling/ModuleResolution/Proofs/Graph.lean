import Mathlib.Data.List.Nodup
import ModuleResolution.Proofs.Marks

namespace ModuleResolution

structure Import.AreProper (size : Nat) (imports : List Import) : Prop where
  nodup : (imports.map (·.target)).Nodup
  lt_size : ∀ i ∈ imports, i.target < size

namespace Import.AreProper

variable {n m : Nat} {imports : List Import} {i : Import}

theorem nil (n : Nat) : AreProper n [] :=
  ⟨List.nodup_nil, fun _ h => absurd h List.not_mem_nil⟩

theorem mono (h : AreProper n imports) (hle : n ≤ m) : AreProper m imports :=
  ⟨h.nodup, fun i hi => Nat.lt_of_lt_of_le (h.lt_size i hi) hle⟩

theorem concat (h : AreProper n imports) (hi : i.target < n)
    (hnew : ∀ j ∈ imports, j.target ≠ i.target) : AreProper n (imports ++ [i]) where
  nodup := by
    have hnot : i.target ∉ imports.map (·.target) := by
      rintro hmem
      obtain ⟨j, hj, heq⟩ := List.mem_map.mp hmem
      exact hnew j hj heq
    rw [List.map_append, List.map_singleton, ← List.concat_eq_append]
    exact (List.nodup_concat _ _).mpr ⟨hnot, h.nodup⟩
  lt_size := by
    intro j hj
    rcases List.mem_append.mp hj with hj | hj
    · exact h.lt_size j hj
    · exact List.mem_singleton.mp hj ▸ hi

theorem addImport {m : Module} (h : AreProper n m.imports) (hi : i.target < n) :
    AreProper n (m.addImport i).imports := by
  cases hany : m.imports? i.target with
  | true => rwa [Module.addImport_of_imports? hany]
  | false =>
      rw [Module.imports_addImport_of_not hany]
      refine h.concat hi fun j hj heq => ?_
      have hfound : m.imports? i.target = true := by
        simp only [Module.imports?, Module.import?, List.find?_isSome, beq_iff_eq]
        exact ⟨j, hj, heq⟩
      exact Bool.false_ne_true (hany.symm.trans hfound)

end Import.AreProper

namespace Registry

variable {r s : Registry} {p : Platform} {id : ModuleId} {b : Option Backend}

def WellFormed (r : Registry) : Prop :=
  ∀ id, Import.AreProper r.size (r.module id).imports

theorem wellFormed_init (c : Coordinates) : (init c).WellFormed := by
  intro id
  rw [imports_init]
  exact .nil _

theorem WellFormed.modify {f : Module → Module} (h : r.WellFormed)
    (hf : Import.AreProper r.size (f (r.module id)).imports) : (r.modify id f).WellFormed := by
  intro j
  rw [size_modify]
  by_cases hlt : j < r.size
  · by_cases hne : j = id
    · subst hne
      rw [module_modify_self hlt]
      exact hf
    · rw [module_modify_of_ne hne]
      exact h j
  · rw [module_of_size_le (by simpa using hlt)]
    exact .nil _

theorem WellFormed.of_imports (h : r.WellFormed) (hsize : r.size ≤ s.size)
    (hi : ∀ j, (s.module j).imports = (r.module j).imports) : s.WellFormed := by
  intro j
  rw [hi]
  exact (h j).mono hsize

theorem WellFormed.ensure (h : r.WellFormed) (p : Platform) (c : Coordinates) :
    (r.ensure p c).1.WellFormed :=
  h.of_imports (evolves_ensure p 0 r c).size_le (imports_ensure r p c)

theorem WellFormed.addImport {i : Import} (h : r.WellFormed) (hi : i.target < r.size) :
    (r.modify id (·.addImport i)).WellFormed :=
  h.modify ((h id).addImport hi)

theorem WellFormed.withImplicitImports (h : r.WellFormed) (hr : r.Indexed) :
    r.withImplicitImports.WellFormed := by
  intro n
  rw [size_withImplicitImports]
  by_cases hn : n < r.size
  · rw [module_withImplicitImports hr hn]
    split
    · exact (h n).addImport (Nat.zero_lt_of_lt hn)
    · exact h n
  · rw [module_of_size_le (by simpa using hn)]
    exact .nil _

theorem WellFormed.declareDependencies (h : r.WellFormed) (hr : r.Indexed)
    (deps : List ArtifactDependency) : (r.declareDependencies p id b deps).WellFormed := by
  induction deps generalizing r with
  | nil => exact h
  | cons d deps ih =>
      have hindexed := (evolves_ensure p id r d.coordinates).indexed hr
      rw [declareDependencies_cons]
      refine ih ((h.ensure p d.coordinates).addImport (ensure_lt_size hr)) ?_
      exact (evolves_modify (p := p) fun m => Module.grows_addImport m _).indexed hindexed

theorem areProper_link {built : Registry × List Import} (d : Dependency)
    (hr : built.1.Indexed) (h : Import.AreProper built.1.size built.2) :
    Import.AreProper (link p built d).1.size (link p built d).2 := by
  have hold := h.mono (evolves_ensure p 0 built.1 d.coordinates).size_le
  rw [link_fst]
  cases hany : built.2.any (·.target == (built.1.ensure p d.coordinates).2) with
  | true =>
      rw [show (link p built d).2 = built.2 by simp [link, hany]]
      exact hold
  | false =>
      rw [show (link p built d).2 = built.2 ++ [⟨(built.1.ensure p d.coordinates).2,
        d.optional, d.exported, none⟩] by simp [link, hany]]
      exact hold.concat (ensure_lt_size hr) (by simpa using hany)

theorem wellFormed_foldl_link (ds : List Dependency) (built : Registry × List Import)
    (hr : built.1.Indexed) (hb : Import.AreProper built.1.size built.2)
    (h : built.1.WellFormed) :
    Import.AreProper (ds.foldl (link p) built).1.size (ds.foldl (link p) built).2 ∧
      (ds.foldl (link p) built).1.WellFormed := by
  induction ds generalizing built with
  | nil => exact ⟨hb, h⟩
  | cons d ds ih =>
      refine ih (link p built d) ?_ (areProper_link d hr hb) ?_
      · rw [link_fst]
        exact (evolves_ensure p 0 built.1 d.coordinates).indexed hr
      · rw [link_fst]
        exact h.ensure p d.coordinates

theorem WellFormed.overrideImports (h : r.WellFormed) (hr : r.Indexed) (o : Overrides)
    (id : ModuleId) (c : Coordinates) : (r.overrideImports p o id c).WellFormed := by
  cases hrule : o.hasRule c with
  | false =>
      rw [overrideImports_of_not_hasRule hrule]
      exact h
  | true =>
      obtain ⟨hlinked, hwell⟩ := wellFormed_foldl_link (p := p)
        (o.apply c (r.declared id)).toList (r, []) hr (.nil _) h
      rw [overrideImports_of_hasRule hrule]
      exact hwell.modify hlinked

end Registry

namespace Engine

variable {env : Environment} {e f : Engine} {a : Artifact} {id : ModuleId} {req : Request}
  {resolution : Resolution}

theorem wellFormed_readRegistry {r : Registry} (h : r.WellFormed) (hr : r.Indexed)
    (hid : id < r.size) : (readRegistry env r id a).WellFormed := by
  have hinput : (inputRegistry r id a).WellFormed :=
    h.of_imports (Nat.le_of_eq (size_inputRegistry r a).symm) (imports_inputRegistry r id a)
  have hindexed := (evolves_inputRegistry env.platform a hid).indexed hr
  rcases readRegistry_cases env a hid with hread | ⟨f, b, hf, hfi, hread⟩
  · rw [hread]
    exact hinput
  · have hmarked : ((inputRegistry r id a).modify id f).WellFormed :=
      hinput.modify (by rw [hfi]; exact hinput id)
    rw [hread]
    exact hmarked.declareDependencies
      ((Registry.evolves_modify (p := env.platform) hf).indexed hindexed) a.dependencies

theorem wellFormed_load {i : Import} {trail : Trail} {l : Loaded} (h : e.registry.WellFormed)
    (hr : e.registry.Indexed) (hid : id < e.registry.size)
    (hload : e.load env a id i trail = (f, l)) : f.registry.WellFormed := by
  have hread : (readRegistry env e.registry id a).WellFormed := wellFormed_readRegistry h hr hid
  have hloaded : (loadedRegistry env e.registry id a).WellFormed := by
    rcases loadedRegistry_cases env e.registry id a with hsame | ⟨o, hoverridden⟩
    · rw [hsame]
      exact hread
    · rw [hoverridden]
      exact hread.overrideImports ((evolves_readRegistry env a hid).indexed hr) o id a.coordinates
  obtain rfl : (e.load env a id i trail).1 = f := congrArg Prod.fst hload
  rw [load_registry]
  exact hloaded.modify (hloaded id)

theorem wellFormed_step (h : e.registry.WellFormed) (hr : e.registry.Indexed)
    (hid : req.module < e.registry.size) (hstep : e.step env req = .done f resolution) :
    f.registry.WellFormed := by
  have hdecides := decides_step env e req
  rw [hstep] at hdecides
  cases hdecides with
  | supplied => exact h.modify (by rw [Module.imports_setUp]; exact h req.module)
  | load => exact wellFormed_load h hr hid rfl
  | skipped | deferred => exact h

end Engine

theorem Operation.wellFormed_apply {env : Environment} {e : Engine} {op : Operation}
    (hfits : op.Fits e.registry) (h : e.registry.WellFormed) (hr : e.registry.Indexed) :
    (op.apply env e).registry.WellFormed := by
  cases op with
  | ensure c => exact h.ensure env.platform c
  | declareImport importer i =>
      rw [apply, Engine.registry_declareImport]
      exact h.addImport hfits.2
  | reportAtRoot => exact h
  | addImplicitImports => exact h.withImplicitImports hr
  | markAvailable id => exact h.modify (h id)
  | revise => cases hfits

namespace Usage

variable {env : Environment} {a b : Moment} {e : Engine} {c : Coordinates}

theorem Moves.wellFormed (h : proper.Moves env a b) (ha : a.engine.registry.WellFormed)
    (hr : a.engine.registry.Indexed) : b.engine.registry.WellFormed := by
  cases h with
  | acted hallows => exact Operation.wellFormed_apply hallows ha hr
  | answered hasks hstep => exact Engine.wellFormed_step ha hr hasks hstep
  | delegated | returned => exact ha

theorem Reaches.wellFormed (h : proper.Reaches env (.start c) e) : e.registry.WellFormed := by
  refine (h.induction (P := fun e => e.registry.Indexed ∧ e.registry.WellFormed) ?_ ?_).2
  · exact ⟨Registry.indexed_init c, Registry.wellFormed_init c⟩
  · rintro a b hm ⟨hr, hw⟩
    exact ⟨hm.indexed hr, hm.wellFormed hw hr⟩

theorem wellFormed_of_reaches (h : proper.Reaches env (.start c) e) :
    e.registry.WellFormed ∧
      ∀ {ω : Type} (source : Request → Script ω) (req : Request) (s : Session ω),
        s.engine = e → proper.Permits env source req s →
          (ResolveM.resolve env (fun req => (source req).run env) req s
            ).2.engine.registry.WellFormed := by
  refine ⟨h.wellFormed, ?_⟩
  rintro ω source req s rfl hpermits
  exact (h.tail hpermits.leads).wellFormed

def pinnedEnvironment : Environment :=
  ⟨.default, Config.default.platform, [(⟨"m", "1"⟩, ⟨3, 2⟩)],
    some ⟨[⟨"m", none, none, [⟨"n", "3", false, true⟩], []⟩], .ofList [("n", "2")]⟩, []⟩

def pinnedEngine : Engine :=
  ((Engine.start Config.default.foundational).ensure pinnedEnvironment ⟨"m", "1"⟩).1

def repetitiveArtifact : Artifact :=
  ⟨⟨"m", "1"⟩, [⟨⟨"n", "1"⟩, .exported⟩, ⟨⟨"n", "1"⟩, .optional⟩, ⟨⟨"n", "2"⟩, .optional⟩]⟩

def repetitiveCall : Except ResolveError Resolution × Session Unit :=
  ResolveM.resolve pinnedEnvironment (fun _ => Script.done.run pinnedEnvironment)
    (.needed repetitiveArtifact 2) ⟨pinnedEngine, ()⟩

theorem wellFormed_of_reaches_repetitiveArtifact :
    repetitiveCall.2.engine.registry.WellFormed ∧
      (repetitiveCall.2.engine.registry.module 2).imports = [⟨4, false, true, none⟩] := by
  have hmove : proper.Moves pinnedEnvironment ⟨Engine.start Config.default.foundational, []⟩
      ⟨(Operation.ensure ⟨"m", "1"⟩).apply pinnedEnvironment _, []⟩ := .acted trivial
  have hreach : proper.Reaches pinnedEnvironment (.start Config.default.foundational)
      pinnedEngine := ⟨[], .single hmove⟩
  have hsize : 2 < pinnedEngine.registry.size := by decide +kernel
  have hcall := (wellFormed_of_reaches hreach).2 (fun _ => Script.done)
    (.needed repetitiveArtifact 2) ⟨pinnedEngine, ()⟩ rfl ⟨hsize, fun _ => trivial⟩
  exact ⟨hcall, by decide +kernel⟩

end Usage

end ModuleResolution
