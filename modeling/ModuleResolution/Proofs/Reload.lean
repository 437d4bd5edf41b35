import ModuleResolution.Proofs.Loads
import ModuleResolution.Proofs.Marks
import ModuleResolution.Proofs.Overridden
import ModuleResolution.Proofs.Redeclared

namespace ModuleResolution

namespace Module

variable {m : Module}

theorem markAvailable_eq_self (h : m.available = true) : m.markAvailable = m := by
  cases m
  cases h
  rfl

theorem markFromBinary_eq_self (h : m.fromBinary = true) : m.markFromBinary = m := by
  cases m
  cases h
  rfl

theorem setBinaryVersion_eq_self {v : BinaryVersion} (h : m.binaryVersion = some v) :
    m.setBinaryVersion v = m := by
  cases m
  cases h
  rfl

theorem markNative_eq_self {b : Backend} (hp : m.fromPlatform = true) (hb : m.backend = some b) :
    m.markFromPlatform.restrictTo b = m := by
  cases m
  cases hp
  cases hb
  rfl

end Module

namespace Environment

variable {env : Environment} {m n : Module} {a : Artifact} {o : Overrides}

theorem marks_loadedFace (env : Environment) (m : Module) (a : Artifact) :
    (env.loadedFace m a).isDefault = m.isDefault ∧ (env.loadedFace m a).fromBinary = true ∧
      (env.loadedFace m a).available = true := by
  unfold loadedFace
  split
  · exact ⟨rfl, rfl, rfl⟩
  · split <;> exact ⟨rfl, rfl, rfl⟩

theorem loadedFace_loadedFace (env : Environment) (m : Module) (a : Artifact) :
    env.loadedFace (env.loadedFace m a) a = env.loadedFace m a := by
  rw [loadedFace, (marks_loadedFace env m a).1]
  unfold loadedFace
  split
  · rfl
  · split <;> rfl

def Rules (env : Environment) (o : Overrides) (m : Module) (a : Artifact) : Prop :=
  env.overrides = some o ∧ m.isCompiled = true ∧ o.hasRule a.coordinates = true

theorem Rules.congr (h : env.Rules o m a) (hc : m.isCompiled = n.isCompiled) : env.Rules o n a :=
  ⟨h.1, hc ▸ h.2.1, h.2.2⟩

def Shifts (env : Environment) (a : Artifact) (r : Registry) (id : ModuleId) : Prop :=
  (r.module id).isCompiled = true ∧ ∃ o, env.overrides = some o ∧
    o.Shifts a.coordinates (a.dependencies.map (.ofArtifact none)) (r.namedImports id)

theorem Shifts.rules {r : Registry} {id : ModuleId} (h : env.Shifts a r id) :
    ∃ o, env.Rules o (r.module id) a := by
  obtain ⟨hcompiled, o, ho, rule, hrule, -⟩ := h
  exact ⟨o, ho, hcompiled, Option.isSome_of_eq_some hrule⟩

end Environment

namespace Engine

variable {env : Environment} {e f g : Engine} {r : Registry} {a : Artifact} {id : ModuleId}
  {i : Import} {trail : Trail} {l l' : Loaded} {o : Overrides}

theorem loadedRegistry_of_rules (h : env.Rules o ((readRegistry env r id a).module id) a) :
    loadedRegistry env r id a =
      (readRegistry env r id a).overrideImports env.platform o id a.coordinates := by
  simp only [loadedRegistry, h.1, h.2.1, if_true]

theorem loadedRegistry_of_not_rules
    (h : ∀ o, ¬ env.Rules o ((readRegistry env r id a).module id) a) :
    loadedRegistry env r id a = readRegistry env r id a := by
  unfold loadedRegistry
  split
  · next o ho =>
    split
    · next hcompiled =>
      refine Registry.overrideImports_of_not_hasRule ?_
      rw [← Bool.not_eq_true]
      exact fun hrule => h o ⟨ho, hcompiled, hrule⟩
    · rfl
  · rfl

theorem declares_readRegistry (env : Environment) (a : Artifact) (hr : r.Indexed)
    (hid : id < r.size) (hdefault : (r.module id).isDefault = false) :
    (readRegistry env r id a).Declares id a.dependencies := by
  have hindexed := (evolves_inputRegistry env.platform a hid).indexed hr
  have hlt := (evolves_inputRegistry env.platform a hid).lt_size hid
  have hdeclares {f : Module → Module} {b : Option Backend} (hf : ∀ m : Module, m.Grows (f m)) :
      (declaredRegistry env r id a f b).Declares id a.dependencies :=
    Registry.declares_declareDependencies
      ((Registry.evolves_modify (p := env.platform) hf).indexed hindexed) (by simpa using hlt)
  cases hformat : env.descriptors.format? a.coordinates with
  | none =>
      rw [readRegistry_of_native hid hdefault hformat]
      exact hdeclares fun m => Module.grows_markNative m .host
  | some v =>
      rw [readRegistry_of_compiled hid hdefault hformat]
      exact hdeclares fun m => Module.grows_setBinaryVersion m v

structure Holds (env : Environment) (r : Registry) (id : ModuleId) (a : Artifact) : Prop where
  input : r.isBinaryInput id = true
  face : env.loadedFace ((r.module id).setImports []) a = (r.module id).setImports []

theorem holds_load (hid : id < e.registry.size) (hload : e.load env a id i trail = (f, l)) :
    Holds env f.registry id a where
  input := by
    rw [Registry.isBinaryInput, binaryInputs_load hload]
    exact (Registry.isBinaryInput_addBinaryInput e.registry id a id).trans (by simp)
  face := by
    obtain rfl : (e.load env a id i trail).1 = f := congrArg Prod.fst hload
    rw [face_load hid, Environment.loadedFace_loadedFace]

namespace Holds

variable (h : Holds env r id a)

include h

theorem inputRegistry_eq : inputRegistry r id a = r := by
  have hbinary : _ = ((r.module id).setImports []).fromBinary :=
    congrArg Module.fromBinary h.face
  rw [(Environment.marks_loadedFace env _ a).2.1] at hbinary
  rw [inputRegistry, Registry.addBinaryInput_eq, if_pos h.input]
  exact Registry.modify_eq_self (Module.markFromBinary_eq_self hbinary.symm)

theorem modify_markAvailable : r.modify id (·.markAvailable) = r := by
  have havailable : _ = ((r.module id).setImports []).available :=
    congrArg Module.available h.face
  rw [(Environment.marks_loadedFace env _ a).2.2] at havailable
  exact Registry.modify_eq_self (Module.markAvailable_eq_self havailable.symm)

theorem readRegistry_of_isDefault (hid : id < r.size) (hdefault : (r.module id).isDefault = true) :
    readRegistry env r id a = r :=
  (Engine.readRegistry_of_isDefault env a hid hdefault).trans h.inputRegistry_eq

theorem readRegistry_eq (hid : id < r.size) (hdefault : (r.module id).isDefault = false) :
    readRegistry env r id a = r.declareDependencies env.platform id
      (if (env.descriptors.format? a.coordinates).isSome then none else some .host)
      a.dependencies := by
  have hbare : ((r.module id).setImports []).isDefault = false := hdefault
  cases hformat : env.descriptors.format? a.coordinates with
  | none =>
      have hface := h.face
      simp only [Environment.loadedFace, hbare, hformat] at hface
      have hplatform : true = (r.module id).fromPlatform := congrArg Module.fromPlatform hface
      have hbackend : some .host = (r.module id).backend := congrArg Module.backend hface
      rw [readRegistry_of_native hid hdefault hformat, declaredRegistry, h.inputRegistry_eq,
        Registry.modify_eq_self (Module.markNative_eq_self hplatform.symm hbackend.symm)]
      rfl
  | some v =>
      have hface := h.face
      simp only [Environment.loadedFace, hbare, hformat] at hface
      have hversion : some v = (r.module id).binaryVersion := congrArg Module.binaryVersion hface
      rw [readRegistry_of_compiled hid hdefault hformat, declaredRegistry, h.inputRegistry_eq,
        Registry.modify_eq_self (Module.setBinaryVersion_eq_self hversion.symm)]
      rfl

theorem isCompiled_readRegistry (hid : id < r.size) :
    ((readRegistry env r id a).module id).isCompiled = (r.module id).isCompiled := by
  cases hdefault : (r.module id).isDefault with
  | true => rw [h.readRegistry_of_isDefault hid hdefault]
  | false =>
      rw [h.readRegistry_eq hid hdefault]
      exact Module.isCompiled_eq_of_face (Registry.face_declareDependencies hid a.dependencies)

theorem readRegistry_of_declares (hid : id < r.size)
    (hdeclares : (r.module id).isDefault = false → r.Declares id a.dependencies) :
    readRegistry env r id a = r := by
  cases hdefault : (r.module id).isDefault with
  | true => exact h.readRegistry_of_isDefault hid hdefault
  | false =>
      rw [h.readRegistry_eq hid hdefault]
      exact Registry.declareDependencies_of_declares (hdeclares hdefault)

theorem isSome_format (hcompiled : (r.module id).isCompiled = true) :
    (env.descriptors.format? a.coordinates).isSome = true := by
  simp only [Module.isCompiled, Bool.and_eq_true, Bool.not_eq_true'] at hcompiled
  have hbare : ((r.module id).setImports []).isDefault = false := hcompiled.2
  cases hformat : env.descriptors.format? a.coordinates with
  | some v => rfl
  | none =>
      have hface := h.face
      simp only [Environment.loadedFace, hbare, hformat] at hface
      have hplatform : true = (r.module id).fromPlatform := congrArg Module.fromPlatform hface
      exact absurd (hplatform.trans hcompiled.1) (by simp)

end Holds

theorem isCompiled_load (hid : id < e.registry.size) (hload : e.load env a id i trail = (f, l)) :
    ((readRegistry env e.registry id a).module id).isCompiled =
      (f.registry.module id).isCompiled := by
  obtain rfl : (e.load env a id i trail).1 = f := congrArg Prod.fst hload
  obtain ⟨is, his⟩ := module_loadedRegistry env a hid
  rw [load_registry, Registry.module_modify_self ((evolves_loadedRegistry env a hid).lt_size hid),
    his]
  rfl

theorem load_again_of_not_rules (hr : e.registry.Indexed) (hid : id < e.registry.size)
    (hload : e.load env a id i trail = (f, l)) (hagain : f.load env a id i trail = (g, l'))
    (hplain : ∀ o, ¬ env.Rules o (f.registry.module id) a) : g.registry = f.registry := by
  have hev := evolves_load hid hload
  have hfid := hev.lt_size hid
  have hholds := holds_load hid hload
  have hcompiled := isCompiled_load hid hload
  have hread : f.registry = (readRegistry env e.registry id a).modify id (·.markAvailable) := by
    obtain rfl : (e.load env a id i trail).1 = f := congrArg Prod.fst hload
    rw [load_registry, loadedRegistry_of_not_rules fun o ho => hplain o (ho.congr hcompiled)]
  have hsame : readRegistry env f.registry id a = f.registry := by
    refine hholds.readRegistry_of_declares hfid fun hdefault d hd => ?_
    rw [(hev.grows hid).isDefault] at hdefault
    obtain ⟨j, hfind, himports⟩ := declares_readRegistry env a hr hid hdefault d hd
    refine ⟨j, ?_, ?_⟩
    · rw [hread, Registry.find?_modify fun m => Module.grows_markAvailable m, hfind]
    · rw [hread, Registry.module_modify_self ((evolves_readRegistry env a hid).lt_size hid)]
      exact himports
  obtain rfl : (f.load env a id i trail).1 = g := congrArg Prod.fst hagain
  rw [load_registry, loadedRegistry_of_not_rules, hsame, hholds.modify_markAvailable]
  rw [hsame]
  exact hplain

theorem evolves_of_readRegistry (hid : id < e.registry.size)
    (hload : e.load env a id i trail = (f, l)) :
    Registry.Evolves env.platform id (readRegistry env e.registry id a) f.registry := by
  have hlt := (evolves_readRegistry env a hid).lt_size hid
  have hloaded : Registry.Evolves env.platform id (readRegistry env e.registry id a)
      (loadedRegistry env e.registry id a) := by
    rcases loadedRegistry_cases env e.registry id a with hsame | ⟨o, hoverridden⟩
    · rw [hsame]
      exact .refl _ _ _
    · rw [hoverridden]
      exact Registry.evolves_overrideImports hlt o a.coordinates
  obtain rfl : (e.load env a id i trail).1 = f := congrArg Prod.fst hload
  rw [load_registry]
  exact hloaded.trans hlt (Registry.evolves_modify fun m => Module.grows_markAvailable m)

theorem load_of_rules (hr : e.registry.Indexed) (hid : id < e.registry.size)
    (hload : e.load env a id i trail = (f, l))
    (hrules : env.Rules o ((readRegistry env e.registry id a).module id) a) :
    f.registry.size = ((readRegistry env e.registry id a).overrideImports env.platform o id
        a.coordinates).size ∧
      f.registry.LinkedAt id ∧ f.registry.namedImports id =
        o.named a.coordinates ((readRegistry env e.registry id a).namedImports id) := by
  have hev := evolves_readRegistry env a hid
  have hread := hev.indexed hr
  have hlt := hev.lt_size hid
  have hoverridden := Registry.evolves_overrideImports (p := env.platform) hlt o a.coordinates
  have hlinked := Registry.linkedAt_overrideImports (p := env.platform) hread hlt hrules.2.2
  obtain rfl : (e.load env a id i trail).1 = f := congrArg Prod.fst hload
  rw [load_registry, loadedRegistry_of_rules hrules]
  refine ⟨Registry.size_modify _ _ _, ?_, ?_⟩
  · exact Registry.linkedAt_modify (hoverridden.indexed hread)
      (fun m => Module.grows_markAvailable m) (hoverridden.lt_size hlt) hlinked
  · rw [← Registry.namedImports_overrideImports (p := env.platform) o a.coordinates hread hlt]
    refine Registry.namedImports_eq (hoverridden.indexed hread) hlinked (fun j hj =>
      (Registry.evolves_modify (p := env.platform) fun m =>
        Module.grows_markAvailable m).coordinates hj) ?_
    rw [Registry.module_modify_self (hoverridden.lt_size hlt)]
    rfl

section

variable (hr : e.registry.Indexed) (hid : id < e.registry.size)
  (hload : e.load env a id i trail = (f, l)) (hrules : env.Rules o (f.registry.module id) a)

include hr hid hload hrules

theorem declares_of_rules : (f.registry.module id).isDefault = false ∧
    (readRegistry env e.registry id a).Declares id a.dependencies := by
  have hcompiled := hrules.2.1
  simp only [Module.isCompiled, Bool.and_eq_true, Bool.not_eq_true'] at hcompiled
  have hdefault := ((evolves_load hid hload).grows hid).isDefault
  exact ⟨hcompiled.2, declares_readRegistry env a hr hid (hdefault ▸ hcompiled.2)⟩

theorem namedImports_of_rules : f.registry.LinkedAt id ∧ f.registry.namedImports id =
    o.named a.coordinates ((readRegistry env e.registry id a).namedImports id) :=
  (load_of_rules hr hid hload (hrules.congr (isCompiled_load hid hload).symm)).2

theorem covers_of_rules : ∀ d ∈ a.dependencies.map (NamedImport.ofArtifact none),
    ∃ i ∈ (readRegistry env e.registry id a).namedImports id, i.target = d.target :=
  (declares_of_rules hr hid hload hrules).2.covers ((evolves_readRegistry env a hid).indexed hr)

theorem readRegistry_again :
    (readRegistry env f.registry id a).size = f.registry.size ∧
      (readRegistry env f.registry id a).namedImports id =
        NamedImport.addAll (f.registry.namedImports id)
          (a.dependencies.map (.ofArtifact none)) := by
  obtain ⟨hdefault, hdeclares⟩ := declares_of_rules hr hid hload hrules
  have hread := (evolves_readRegistry env a hid).indexed hr
  have hev := evolves_of_readRegistry hid hload
  have hindexed := hev.indexed hread
  have hlt := (evolves_load hid hload).lt_size hid
  have hholds := holds_load hid hload
  rw [hholds.readRegistry_eq hlt hdefault, hholds.isSome_format hrules.2.1]
  refine ⟨Registry.size_declareDependencies hindexed fun d hd => ?_,
    Registry.namedImports_declareDependencies hindexed
      (namedImports_of_rules hr hid hload hrules).1 hlt a.dependencies⟩
  exact (hdeclares.knows hread d hd).mono hev.size_le fun j hj => hev.coordinates hj

variable (hagain : f.load env a id i trail = (g, l'))

include hagain

theorem load_again_of_rules :
    g.registry.size = ((readRegistry env f.registry id a).overrideImports env.platform o id
        a.coordinates).size ∧
      g.registry.LinkedAt id ∧ g.registry.namedImports id = o.named a.coordinates
        (NamedImport.addAll (f.registry.namedImports id)
          (a.dependencies.map (.ofArtifact none))) := by
  have hev := evolves_load hid hload
  have hlt := hev.lt_size hid
  have hrules' : env.Rules o ((readRegistry env f.registry id a).module id) a :=
    hrules.congr ((holds_load hid hload).isCompiled_readRegistry hlt).symm
  rw [← (readRegistry_again hr hid hload hrules).2]
  exact load_of_rules (hev.indexed hr) hlt hagain hrules'

theorem size_load_again_of_rules : g.registry.size = f.registry.size := by
  have hev := evolves_load hid hload
  have hindexed := hev.indexed hr
  have hread := evolves_readRegistry env a (hev.lt_size hid)
  obtain ⟨hlinked, hnamed⟩ := namedImports_of_rules hr hid hload hrules
  obtain ⟨hsize, hedges⟩ := readRegistry_again hr hid hload hrules
  obtain ⟨rule, hrule⟩ := Option.isSome_iff_exists.mp hrules.2.2
  rw [(load_again_of_rules hr hid hload hrules hagain).1,
    Registry.size_overrideImports (hread.indexed hindexed), hsize]
  intro i hi
  rw [hedges, hnamed] at hi
  have htarget := List.mem_map_of_mem (f := (·.target)) hi
  rw [Overrides.map_target_named_addAll hrule (covers_of_rules hr hid hload hrules),
    ← hnamed] at htarget
  obtain ⟨j, hj, hc⟩ := List.mem_map.mp htarget
  obtain ⟨k, hk, rfl⟩ := List.mem_map.mp hj
  rw [← hc]
  exact Registry.Knows.mono ⟨k.target, (hlinked k hk).lt_size hindexed, rfl⟩ hread.size_le
    fun j hj => hread.coordinates hj

theorem edges_load_again_of_rules :
    (∀ i ∈ (f.registry.module id).imports, g.registry.Canonical i.target) ∧
      (f.registry.module id).imports.map g.registry.named = f.registry.namedImports id := by
  have hindexed := (evolves_load hid hload).indexed hr
  have hev := evolves_load ((evolves_load hid hload).lt_size hid) hagain
  obtain ⟨hlinked, -⟩ := namedImports_of_rules hr hid hload hrules
  exact ⟨fun i hi => hev.canonical hindexed (hlinked i hi),
    Registry.map_named_eq fun i hi => hev.coordinates ((hlinked i hi).lt_size hindexed)⟩

theorem imports_load_again_of_rules :
    (g.registry.module id).imports = (f.registry.module id).imports ↔
      ¬ o.Shifts a.coordinates (a.dependencies.map (.ofArtifact none))
        (f.registry.namedImports id) := by
  have hnamed := (namedImports_of_rules hr hid hload hrules).2
  obtain ⟨-, hlinked', hnamed'⟩ := load_again_of_rules hr hid hload hrules hagain
  obtain ⟨hcanonical, hkept⟩ := edges_load_again_of_rules hr hid hload hrules hagain
  obtain ⟨rule, hrule⟩ := Option.isSome_iff_exists.mp hrules.2.2
  have hsame : g.registry.namedImports id = f.registry.namedImports id ↔
      ¬ o.Shifts a.coordinates (a.dependencies.map (.ofArtifact none))
        (f.registry.namedImports id) := by
    rw [hnamed', hnamed]
    exact Overrides.named_addAll_eq_iff hrule (covers_of_rules hr hid hload hrules)
  rw [← hsame, ← hkept]
  -- the rule speaks of edges by name, and canonical edges of the same names are the same
  exact ⟨fun h => congrArg (List.map g.registry.named) h,
    fun h => Registry.eq_of_map_named_eq hlinked' hcanonical h⟩

theorem targets_load_again_of_rules : (g.registry.module id).imports.map (·.target) =
    (f.registry.module id).imports.map (·.target) := by
  have hnamed := (namedImports_of_rules hr hid hload hrules).2
  obtain ⟨-, hlinked', hnamed'⟩ := load_again_of_rules hr hid hload hrules hagain
  obtain ⟨hcanonical, hkept⟩ := edges_load_again_of_rules hr hid hload hrules hagain
  obtain ⟨rule, hrule⟩ := Option.isSome_iff_exists.mp hrules.2.2
  refine Registry.map_target_eq hlinked' hcanonical ?_
  change (g.registry.namedImports id).map (·.target) = _
  rw [hkept, hnamed', hnamed]
  exact Overrides.map_target_named_addAll hrule (covers_of_rules hr hid hload hrules)

end

section

variable (hr : e.registry.Indexed) (hid : id < e.registry.size)
  (hload : e.load env a id i trail = (f, l)) (hagain : f.load env a id i trail = (g, l'))

include hr hid hload hagain

theorem registry_load_again :
    g.registry = f.registry.modify id (·.setImports (g.registry.module id).imports) := by
  have hlt := (evolves_load hid hload).lt_size hid
  have hholds := holds_load hid hload
  have hsize : g.registry.size = f.registry.size := by
    by_cases hrules : ∃ o, env.Rules o (f.registry.module id) a
    · obtain ⟨o, hrules⟩ := hrules
      exact size_load_again_of_rules hr hid hload hrules hagain
    · rw [load_again_of_not_rules hr hid hload hagain (not_exists.mp hrules)]
  have hinputs : g.registry.binaryInputs = f.registry.binaryInputs := by
    rw [binaryInputs_load hagain, Registry.addBinaryInput_eq, if_pos hholds.input]
  have hface : (g.registry.module id).setImports [] = (f.registry.module id).setImports [] := by
    obtain rfl : (f.load env a id i trail).1 = g := congrArg Prod.fst hagain
    rw [face_load hlt, hholds.face]
  exact (evolves_load hlt hagain).eq_setImports hlt hsize hinputs hface

theorem load_again_eq_iff : g.registry = f.registry ↔ ¬ env.Shifts a f.registry id := by
  by_cases hrules : ∃ o, env.Rules o (f.registry.module id) a
  · obtain ⟨o, hrules⟩ := hrules
    have hshifts : env.Shifts a f.registry id ↔
        o.Shifts a.coordinates (a.dependencies.map (.ofArtifact none))
          (f.registry.namedImports id) := by
      refine ⟨fun ⟨_, o', ho', h⟩ => ?_, fun h => ⟨hrules.2.1, o, hrules.1, h⟩⟩
      obtain rfl := Option.some.inj (hrules.1.symm.trans ho')
      exact h
    rw [hshifts, ← imports_load_again_of_rules hr hid hload hrules hagain]
    refine ⟨fun h => h ▸ rfl, fun h => ?_⟩
    rw [registry_load_again hr hid hload hagain, h]
    exact Registry.modify_eq_self rfl
  · refine iff_of_true (load_again_of_not_rules hr hid hload hagain (not_exists.mp hrules)) ?_
    exact fun h => hrules h.rules

theorem targets_load_again : (g.registry.module id).imports.map (·.target) =
    (f.registry.module id).imports.map (·.target) := by
  by_cases hrules : ∃ o, env.Rules o (f.registry.module id) a
  · obtain ⟨o, hrules⟩ := hrules
    exact targets_load_again_of_rules hr hid hload hrules hagain
  · rw [load_again_of_not_rules hr hid hload hagain (not_exists.mp hrules)]

theorem load_again_of_nil (hnil : (e.registry.module id).imports = []) :
    g.registry = f.registry := by
  refine (load_again_eq_iff hr hid hload hagain).mpr fun hshifts => ?_
  obtain ⟨o, hrules⟩ := hshifts.rules
  obtain ⟨-, o', ho', hshifts⟩ := hshifts
  obtain rfl := Option.some.inj (hrules.1.symm.trans ho')
  have hdefault := (declares_of_rules hr hid hload hrules).1
  rw [((evolves_load hid hload).grows hid).isDefault] at hdefault
  have hsome := (holds_load hid hload).isSome_format hrules.2.1
  obtain ⟨v, hformat⟩ := Option.isSome_iff_exists.mp hsome
  rw [(namedImports_of_rules hr hid hload hrules).2, readRegistry_of_compiled hid hdefault hformat,
    namedImports_declaredRegistry env a (fun m => Module.grows_setBinaryVersion m v)
      (fun _ => rfl) hr hid hnil] at hshifts
  exact Overrides.not_shifts (fun _ hd => hd) hshifts

end

end Engine

end ModuleResolution
