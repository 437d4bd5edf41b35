import Mathlib.Data.List.Infix
import ModuleResolution.Proofs.Calls
import ModuleResolution.Proofs.Names
import ModuleResolution.Proofs.Report

namespace ModuleResolution

structure Module.MarksAgree (m : Module) (input : Bool) : Prop where
  input_iff : input = true ↔ m.fromBinary = true
  available : m.fromBinary = true → m.available = true
  platform : m.fromPlatform = true → m.available = true ∧ m.backend = some .host
  version : m.binaryVersion.isSome = true → m.fromBinary = true

namespace Module.MarksAgree

variable {m : Module} {input : Bool}

theorem fresh (id : ModuleId) (c : Coordinates) (isDefault : Bool) :
    (Module.fresh id c isDefault).MarksAgree false := by
  constructor <;> simp [Module.fresh]

theorem setImports (h : m.MarksAgree input) (is : List Import) :
    (m.setImports is).MarksAgree input :=
  ⟨h.input_iff, h.available, h.platform, h.version⟩

theorem addImport (h : m.MarksAgree input) (i : Import) : (m.addImport i).MarksAgree input := by
  obtain ⟨is, his⟩ := exists_addImport_eq m i
  exact his ▸ h.setImports is

theorem markAvailable (h : m.MarksAgree input) : m.markAvailable.MarksAgree input :=
  ⟨h.input_iff, fun _ => rfl, fun hp => ⟨rfl, (h.platform hp).2⟩, h.version⟩

theorem setUp (h : m.MarksAgree input) (p : Platform) : (p.setUp m).MarksAgree input := by
  unfold Platform.setUp
  split
  · exact ⟨h.input_iff, fun _ => rfl, fun _ => ⟨rfl, rfl⟩, h.version⟩
  · exact h

theorem loadedFace (h : m.MarksAgree input) (env : Environment) (a : Artifact) :
    (env.loadedFace m a).MarksAgree true := by
  unfold Environment.loadedFace
  split
  · exact ⟨iff_of_true rfl rfl, fun _ => rfl, fun hp => ⟨rfl, (h.platform hp).2⟩, fun _ => rfl⟩
  · split
    · exact ⟨iff_of_true rfl rfl, fun _ => rfl, fun hp => ⟨rfl, (h.platform hp).2⟩, fun _ => rfl⟩
    · exact ⟨iff_of_true rfl rfl, fun _ => rfl, fun _ => ⟨rfl, rfl⟩, fun _ => rfl⟩

end Module.MarksAgree

namespace Registry

variable {r s t : Registry} {p : Platform} {id j : ModuleId}

def MarksAgree (r : Registry) : Prop :=
  ∀ id, (r.module id).MarksAgree (r.isBinaryInput id)

theorem marksAgree_init (c : Coordinates) : (init c).MarksAgree := by
  intro id
  match id with
  | 0 => exact .fresh 0 c false
  | 1 => exact .fresh 1 defaultCoordinates true
  | id + 2 => exact .fresh (id + 2) ⟨"", ""⟩ false

theorem MarksAgree.lt_size (h : r.MarksAgree) (hinput : r.isBinaryInput id = true) :
    id < r.size := by
  refine Nat.lt_of_not_le fun hle => ?_
  have hbinary := (h id).input_iff.mp hinput
  rw [module_of_size_le hle] at hbinary
  cases hbinary

theorem MarksAgree.modify {f : Module → Module} (h : r.MarksAgree)
    (hf : ∀ {m : Module} {input : Bool}, m.MarksAgree input → (f m).MarksAgree input) :
    (r.modify id f).MarksAgree := by
  intro j
  change ((r.modify id f).module j).MarksAgree (r.isBinaryInput j)
  by_cases hne : j = id
  · subst hne
    by_cases hlt : j < r.size
    · rw [module_modify_self hlt]
      exact hf (h j)
    · have hmodule : (r.modify j f).module j = r.module j := by
        rw [module_of_size_le (by simpa using hlt), module_of_size_le (Nat.le_of_not_lt hlt)]
      exact hmodule ▸ h j
  · rw [module_modify_of_ne hne]
    exact h j

theorem MarksAgree.append (h : r.MarksAgree) (c : Coordinates) (d : Bool) :
    (r.append c d).MarksAgree := by
  intro j
  change ((r.append c d).module j).MarksAgree (r.isBinaryInput j)
  rcases Nat.lt_trichotomy j r.size with hlt | rfl | hgt
  · rw [module_append_of_lt hlt]
    exact h j
  · have hnot : r.isBinaryInput r.size = false := by
      rw [← Bool.not_eq_true]
      exact fun hinput => Nat.lt_irrefl _ (h.lt_size hinput)
    rw [module_append_size, hnot]
    exact .fresh _ c d
  · have hmodule : (r.append c d).module j = r.module j := by
      rw [module_of_size_le (by simpa using Nat.succ_le_of_lt hgt),
        module_of_size_le (Nat.le_of_lt hgt)]
    exact hmodule ▸ h j

theorem MarksAgree.ensure (h : r.MarksAgree) (p : Platform) (c : Coordinates) :
    (r.ensure p c).1.MarksAgree := by
  rcases ensure_cases r p c with ⟨id, -, he⟩ | ⟨-, he⟩
  · rw [he]
    exact h
  · rw [he]
    exact (h.append c false).modify fun hm => hm.setUp p

theorem MarksAgree.withImplicitImports (h : r.MarksAgree) : r.withImplicitImports.MarksAgree := by
  rw [Registry.withImplicitImports_eq]
  generalize r.lackingFoundational = ids
  induction ids generalizing r with
  | nil => exact h
  | cons id ids ih => exact ih (h.modify fun hm => hm.addImport implicitImport)

theorem isBinaryInput_addBinaryInput (r : Registry) (id : ModuleId) (a : Artifact)
    (j : ModuleId) : (r.addBinaryInput id a).isBinaryInput j = (r.isBinaryInput j || id == j) := by
  cases h : r.isBinaryInput id with
  | true =>
      rw [addBinaryInput_eq, if_pos h]
      by_cases hj : id = j
      · rw [← hj, h]
        rfl
      · simp [hj]
  | false =>
      rw [addBinaryInput_eq, if_neg (by simp [h])]
      simp [isBinaryInput]

theorem binaryInputs_prefix_addBinaryInput (r : Registry) (id : ModuleId) (a : Artifact) :
    r.binaryInputs <+: (r.addBinaryInput id a).binaryInputs := by
  rw [addBinaryInput_eq]
  split
  · exact List.prefix_rfl
  · exact List.prefix_append _ _

theorem Later.refl (r : Registry) : r.Later r :=
  ⟨Nat.le_refl _, fun _ _ => .refl _⟩

theorem Later.trans (h : r.Later s) (k : s.Later t) : r.Later t :=
  ⟨Nat.le_trans h.size_le k.size_le, fun j hj => (h.grows j hj).trans (k.grows j (h.lt_size hj))⟩

theorem Evolves.marksAgree_of_ne (h : Evolves p id r s) (hr : r.MarksAgree) (hne : j ≠ id) :
    (s.module j).MarksAgree (r.isBinaryInput j) := by
  by_cases hlt : j < r.size
  · rw [h.others j hlt hne]
    exact hr j
  · have hnot : r.isBinaryInput j = false := by
      rw [← Bool.not_eq_true]
      exact fun hinput => hlt (hr.lt_size hinput)
    rw [hnot]
    by_cases hs : j < s.size
    · obtain ⟨c, hc, -⟩ := h.created j (Nat.le_of_not_lt hlt) hs
      rw [hc]
      exact (Module.MarksAgree.fresh j c false).setUp p
    · rw [module_of_size_le (Nat.le_of_not_lt hs)]
      exact .fresh j ⟨"", ""⟩ false

end Registry

namespace Engine

variable {env : Environment} {e f g : Engine} {a : Artifact} {id : ModuleId} {i : Import}
  {trail : Trail} {req : Request} {resolution : Resolution}

theorem marksAgree_load {l : Loaded} (h : e.registry.MarksAgree) (hid : id < e.registry.size)
    (hload : e.load env a id i trail = (f, l)) : f.registry.MarksAgree := by
  have hinput (j : ModuleId) :
      f.registry.isBinaryInput j = (e.registry.isBinaryInput j || id == j) := by
    rw [← Registry.isBinaryInput_addBinaryInput e.registry id a, Registry.isBinaryInput,
      binaryInputs_load hload]
    rfl
  intro j
  rw [hinput]
  by_cases hne : j = id
  · subst hne
    obtain rfl : (e.load env a j i trail).1 = f := congrArg Prod.fst hload
    have hface : ((e.load env a j i trail).1.registry.module j).setImports [] =
        env.loadedFace ((e.registry.module j).setImports []) a := face_load hid
    have hloaded := ((h j).setImports []).loadedFace env a
    rw [← hface] at hloaded
    rw [beq_self_eq_true, Bool.or_true]
    exact hloaded.setImports ((e.load env a j i trail).1.registry.module j).imports
  · rw [beq_false_of_ne (Ne.symm hne), Bool.or_false]
    exact (evolves_load hid hload).marksAgree_of_ne h hne

theorem diagnostics_prefix_load {l : Loaded} (hload : e.load env a id i trail = (f, l)) :
    e.diagnostics <+: f.diagnostics := by
  obtain rfl : (e.load env a id i trail).1 = f := congrArg Prod.fst hload
  rw [load_fst]
  split
  · simp only [modifyModule, checkFormat]
    split
    · exact List.prefix_append _ _
    · exact List.prefix_rfl
  · exact List.prefix_rfl

structure Precedes (e f : Engine) : Prop where
  modules : e.registry.Later f.registry
  inputs : e.registry.binaryInputs <+: f.registry.binaryInputs
  diagnostics : e.diagnostics <+: f.diagnostics

theorem Precedes.refl (e : Engine) : e.Precedes e :=
  ⟨.refl _, List.prefix_rfl, List.prefix_rfl⟩

theorem Precedes.trans (h : e.Precedes f) (k : f.Precedes g) : e.Precedes g :=
  ⟨h.modules.trans k.modules, h.inputs.trans k.inputs, h.diagnostics.trans k.diagnostics⟩

theorem precedes_modifyModule {f : Module → Module} (hf : ∀ m : Module, m.Grows (f m)) :
    e.Precedes (e.modifyModule id f) :=
  ⟨(Registry.evolves_modify (p := ⟨"", "", []⟩) hf).later, List.prefix_rfl, List.prefix_rfl⟩

theorem precedes_report (e : Engine) (d : Diagnostic) : e.Precedes (e.report d) :=
  ⟨.refl _, List.prefix_rfl, List.prefix_append _ _⟩

theorem precedes_load {l : Loaded} (hid : id < e.registry.size)
    (hload : e.load env a id i trail = (f, l)) : e.Precedes f where
  modules := (evolves_load hid hload).later
  inputs := by
    rw [binaryInputs_load hload]
    exact Registry.binaryInputs_prefix_addBinaryInput _ _ _
  diagnostics := diagnostics_prefix_load hload

theorem precedes_step (hid : req.module < e.registry.size)
    (h : e.step env req = .done f resolution) : e.Precedes f := by
  have hdecides := decides_step env e req
  rw [h] at hdecides
  cases hdecides with
  | supplied => exact precedes_modifyModule fun m => Module.grows_setUp env.platform m
  | skipped => exact precedes_report e _
  | load => exact precedes_load hid rfl
  | deferred => exact .refl e

theorem indexed_step (hr : e.registry.Indexed) (hid : req.module < e.registry.size)
    (h : e.step env req = .done f resolution) : f.registry.Indexed := by
  have hdecides := decides_step env e req
  rw [h] at hdecides
  cases hdecides with
  | supplied =>
      exact (Registry.evolves_modify (p := env.platform) fun m =>
        Module.grows_setUp env.platform m).indexed hr
  | load => exact (evolves_load hid rfl).indexed hr
  | skipped | deferred => exact hr

theorem marksAgree_step (hm : e.registry.MarksAgree) (hid : req.module < e.registry.size)
    (h : e.step env req = .done f resolution) : f.registry.MarksAgree := by
  have hdecides := decides_step env e req
  rw [h] at hdecides
  cases hdecides with
  | supplied => exact hm.modify fun hm => hm.setUp env.platform
  | load => exact marksAgree_load hm hid rfl
  | skipped | deferred => exact hm

end Engine

namespace Operation

variable {env : Environment} {e : Engine} {op : Operation}

theorem indexed_apply (hfits : op.Fits e.registry) (hr : e.registry.Indexed) :
    (op.apply env e).registry.Indexed := by
  cases op with
  | ensure c => exact (Registry.evolves_ensure env.platform 0 e.registry c).indexed hr
  | declareImport importer i =>
      rw [apply, Engine.registry_declareImport]
      exact (Registry.evolves_modify (p := env.platform) fun m =>
        Module.grows_addImport m i).indexed hr
  | reportAtRoot => exact hr
  | addImplicitImports =>
      intro n hn
      have hgrows := Registry.grows_withImplicitImports hr n
      exact hgrows.sameId.trans (hr n (by simpa [apply] using hn))
  | markAvailable id =>
      exact (Registry.evolves_modify (p := env.platform) fun m =>
        Module.grows_markAvailable m).indexed hr
  | revise => cases hfits

theorem precedes_apply (hfits : op.Fits e.registry) (hr : e.registry.Indexed) :
    e.Precedes (op.apply env e) := by
  cases op with
  | ensure c =>
      refine ⟨(Registry.evolves_ensure env.platform 0 e.registry c).later, ?_, List.prefix_rfl⟩
      exact (Registry.binaryInputs_ensure e.registry env.platform c).symm ▸ List.prefix_rfl
  | declareImport importer i =>
      refine ⟨?_, ?_, ?_⟩
      · rw [apply, Engine.registry_declareImport]
        exact (Registry.evolves_modify (p := env.platform) fun m =>
          Module.grows_addImport m i).later
      · rw [apply, Engine.registry_declareImport]
        exact List.prefix_rfl
      · rw [apply, Engine.diagnostics_declareImport]
        exact List.prefix_append _ _
  | reportAtRoot => exact e.precedes_report _
  | addImplicitImports =>
      refine ⟨⟨?_, fun n _ => Registry.grows_withImplicitImports hr n⟩, ?_, List.prefix_rfl⟩
      · exact Nat.le_of_eq (Registry.size_withImplicitImports _).symm
      · exact (Registry.binaryInputs_withImplicitImports e.registry).symm ▸ List.prefix_rfl
  | markAvailable id => exact Engine.precedes_modifyModule fun m => Module.grows_markAvailable m
  | revise => cases hfits

theorem marksAgree_apply (hfits : op.Fits e.registry) (hm : e.registry.MarksAgree) :
    (op.apply env e).registry.MarksAgree := by
  cases op with
  | ensure c => exact hm.ensure env.platform c
  | declareImport importer i =>
      rw [apply, Engine.registry_declareImport]
      exact hm.modify fun hm => hm.addImport i
  | reportAtRoot => exact hm
  | addImplicitImports => exact hm.withImplicitImports
  | markAvailable id => exact hm.modify fun hm => hm.markAvailable
  | revise => cases hfits

end Operation

namespace Usage

variable {env : Environment} {a b : Moment} {e f : Engine} {c : Coordinates}

theorem Moves.indexed (h : proper.Moves env a b) (ha : a.engine.registry.Indexed) :
    b.engine.registry.Indexed := by
  cases h with
  | acted hallows => exact Operation.indexed_apply hallows ha
  | answered hasks hstep => exact Engine.indexed_step ha hasks hstep
  | delegated | returned => exact ha

theorem Moves.precedes (h : proper.Moves env a b) (ha : a.engine.registry.Indexed) :
    a.engine.Precedes b.engine := by
  cases h with
  | acted hallows => exact Operation.precedes_apply hallows ha
  | answered hasks hstep => exact Engine.precedes_step hasks hstep
  | delegated | returned => exact ⟨.refl _, List.prefix_rfl, List.prefix_rfl⟩

theorem Moves.marksAgree (h : proper.Moves env a b) (ha : a.engine.registry.MarksAgree) :
    b.engine.registry.MarksAgree := by
  cases h with
  | acted hallows => exact Operation.marksAgree_apply hallows ha
  | answered hasks hstep => exact Engine.marksAgree_step ha hasks hstep
  | delegated | returned => exact ha

theorem Leads.indexed (h : proper.Leads env a b) (ha : a.engine.registry.Indexed) :
    b.engine.registry.Indexed := by
  induction h with
  | refl => exact ha
  | tail _ hm ih => exact hm.indexed ih

theorem Leads.precedes (h : proper.Leads env a b) (ha : a.engine.registry.Indexed) :
    a.engine.Precedes b.engine := by
  induction h with
  | refl => exact .refl _
  | tail hl hm ih => exact ih.trans (hm.precedes (Leads.indexed hl ha))

theorem Leads.marksAgree (h : proper.Leads env a b) (ha : a.engine.registry.MarksAgree) :
    b.engine.registry.MarksAgree := by
  induction h with
  | refl => exact ha
  | tail _ hm ih => exact hm.marksAgree ih

theorem Reaches.indexed (h : proper.Reaches env (.start c) e) : e.registry.Indexed := by
  obtain ⟨ids, hleads⟩ := h
  exact Leads.indexed hleads (Registry.indexed_init c)

theorem Reaches.marksAgree (h : proper.Reaches env (.start c) e) : e.registry.MarksAgree := by
  obtain ⟨ids, hleads⟩ := h
  exact Leads.marksAgree hleads (Registry.marksAgree_init c)

theorem precedes_and_marksAgree (start : proper.Leads env ⟨Engine.start c, []⟩ a)
    (later : proper.Leads env a b) :
    a.engine.Precedes b.engine ∧ a.engine.registry.MarksAgree ∧ b.engine.registry.MarksAgree ∧
      ∀ {ω : Type} (source : Request → Script ω) (req : Request) (s : Session ω),
        s.engine = a.engine → proper.Permits env source req s →
          let t := (ResolveM.resolve env (fun req => (source req).run env) req s).2
          a.engine.Precedes t.engine ∧ t.engine.registry.MarksAgree := by
  have hindexed := Leads.indexed start (Registry.indexed_init c)
  have hmarks := Leads.marksAgree start (Registry.marksAgree_init c)
  refine ⟨Leads.precedes later hindexed, hmarks, Leads.marksAgree later hmarks, ?_⟩
  intro ω source req s hs hpermits t
  rw [← hs] at hindexed hmarks ⊢
  have hcall : proper.Leads env ⟨s.engine, []⟩ ⟨t.engine, []⟩ := hpermits.leads
  exact ⟨Leads.precedes hcall hindexed, Leads.marksAgree hcall hmarks⟩

def libraryEnvironment : Environment :=
  ⟨.default, Config.default.platform, [(⟨"lib", "1"⟩, ⟨3, 2⟩)], none, ["app"]⟩

def libraryMoment : Moment :=
  ⟨((Engine.start Config.default.foundational).ensure libraryEnvironment ⟨"app", "1"⟩).1, []⟩

def libraryArtifact : Artifact :=
  ⟨⟨"lib", "1"⟩, [⟨⟨"util", "1"⟩, .normal⟩]⟩

def loadAndFail : Script Unit :=
  .act (.ensure ⟨"lib", "1"⟩) <| .resolve (.needed libraryArtifact 3) .done fun _ =>
    .fail (.source "app" "out of luck")

def loadAndFailCall : Except ResolveError Resolution × Session Unit :=
  ResolveM.resolve libraryEnvironment (fun _ => loadAndFail.run libraryEnvironment)
    (.needed (.bare ⟨"app", "1"⟩) 2) ⟨libraryMoment.engine, ()⟩

theorem precedes_and_marksAgree_loadAndFail :
    loadAndFailCall.1 = .error (.source "app" "out of luck") ∧
      libraryMoment.engine.Precedes loadAndFailCall.2.engine ∧
        loadAndFailCall.2.engine.registry.MarksAgree ∧
          (loadAndFailCall.2.engine.registry.module 3).available = true := by
  have hmove : proper.Moves libraryEnvironment ⟨Engine.start Config.default.foundational, []⟩
      ⟨(Operation.ensure ⟨"app", "1"⟩).apply libraryEnvironment _, []⟩ := .acted trivial
  have start : proper.Leads libraryEnvironment
      ⟨Engine.start Config.default.foundational, []⟩ libraryMoment := .single hmove
  have hsize : 2 < libraryMoment.engine.registry.size := by decide +kernel
  have hlibrary : 3 < (((libraryMoment.engine.enter 2).ensure libraryEnvironment
      ⟨"lib", "1"⟩).1).registry.size := by decide +kernel
  obtain ⟨hprecedes, hmarks⟩ := (precedes_and_marksAgree start .refl).2.2.2
    (fun _ => loadAndFail) (.needed (.bare ⟨"app", "1"⟩) 2) ⟨libraryMoment.engine, ()⟩ rfl
    ⟨hsize, fun _ => ⟨trivial, hlibrary, fun _ => trivial, trivial⟩⟩
  have hinput : loadAndFailCall.2.engine.registry.isBinaryInput 3 = true := by decide +kernel
  exact ⟨by decide +kernel, hprecedes, hmarks,
    (hmarks 3).available ((hmarks 3).input_iff.mp hinput)⟩

end Usage

end ModuleResolution
