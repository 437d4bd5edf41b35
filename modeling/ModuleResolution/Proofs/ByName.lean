import Mathlib.Data.List.Nodup
import ModuleResolution.Proofs.Final
import ModuleResolution.Proofs.Issues

namespace ModuleResolution

structure NamedModule where
  coordinates : Coordinates
  isDefault : Bool
  available : Bool
  fromPlatform : Bool
  fromBinary : Bool
  binaryVersion : Option BinaryVersion
  backend : Option Backend
  imports : List NamedImport
  deriving DecidableEq, Repr

namespace NamedModule

def ofModule (m : Module) (imports : List NamedImport) : NamedModule where
  coordinates := m.coordinates
  isDefault := m.isDefault
  available := m.available
  fromPlatform := m.fromPlatform
  fromBinary := m.fromBinary
  binaryVersion := m.binaryVersion
  backend := m.backend
  imports := imports

theorem ofModule_face (m : Module) (imports : List NamedImport) :
    ofModule m.face imports = ofModule m imports := rfl

def withImplicit (foundational : Coordinates) (m : NamedModule) : NamedModule :=
  if m.coordinates = foundational ∨ m.fromPlatform = true then m
  else { m with imports := NamedImport.add m.imports ⟨foundational, false, true, none⟩ }

end NamedModule

namespace Registry

variable {r : Registry} {n : ModuleId}

def namedModule (r : Registry) (n : ModuleId) : NamedModule :=
  .ofModule (r.module n) (r.namedImports n)

def namedModules (r : Registry) : List NamedModule :=
  (List.range r.size).map r.namedModule

def namedInputs (r : Registry) : List (Coordinates × Artifact) :=
  r.binaryInputs.map fun input => ((r.module input.1).coordinates, input.2)

theorem namedModule_of_face {m : Module} {imports : List NamedImport}
    (hface : (r.module n).face = m) (himports : r.namedImports n = imports) :
    r.namedModule n = .ofModule m imports := by
  rw [namedModule, ← NamedModule.ofModule_face, hface, himports]

theorem nodup_coordinates (h : r.Distinct) :
    (r.namedModules.map (·.coordinates)).Nodup := by
  rw [namedModules, List.map_map]
  refine List.Nodup.map_on ?_ List.nodup_range
  intro i hi j hj heq
  exact h i (List.mem_range.mp hi) j (List.mem_range.mp hj) heq

theorem namedModule_withImplicitImports (hr : r.Indexed) (hd : r.Distinct) (hl : r.Linked)
    (hn : n < r.size) :
    r.withImplicitImports.namedModule n =
      (r.namedModule n).withImplicit (r.module foundational).coordinates := by
  have hf : foundational < r.size := Nat.lt_of_le_of_lt (Nat.zero_le n) hn
  have hnames (is : List Import) :
      is.map r.withImplicitImports.named = is.map r.named :=
    map_named_eq fun i _ => (grows_withImplicitImports hr i.target).coordinates
  rw [namedModule, namedImports, hnames, module_withImplicitImports hr hn]
  by_cases hneeds : (r.module n).coordinates = (r.module foundational).coordinates ∨
      (r.module n).fromPlatform = true
  · have hnot : (r.module n).needsFoundational = false := by
      rcases hneeds with hsame | hplatform
      · obtain rfl : n = foundational := hd n hn foundational hf hsame
        simp [Module.needsFoundational, hr foundational hf]
      · simp [Module.needsFoundational, hplatform]
    rw [hnot]
    exact (if_pos hneeds).symm
  · obtain ⟨hne, hplatform⟩ := not_or.mp hneeds
    have hn0 : n ≠ foundational := fun h => hne (h ▸ rfl)
    have hadd : (if (r.module n).needsFoundational = true then
        (r.module n).addImport implicitImport else r.module n) =
          (r.module n).addImport implicitImport := by
      cases himports : (r.module n).imports? foundational with
      | true => rw [Module.addImport_of_imports? himports, ite_self]
      | false => simp [Module.needsFoundational, hr n hn, hn0, hplatform, himports]
    have himports : ((r.module n).addImport implicitImport).imports.map r.named =
        NamedImport.add (r.namedImports n)
          ⟨(r.module foundational).coordinates, false, true, none⟩ :=
      map_named_addImport (hl n) (hd.canonical hr hf)
    rw [hadd, himports]
    refine Eq.trans ?_ (if_neg hneeds).symm
    rw [Module.addImport_eq]
    split <;> rfl

theorem namedInputs_withImplicitImports (hr : r.Indexed) :
    r.withImplicitImports.namedInputs = r.namedInputs := by
  rw [namedInputs, binaryInputs_withImplicitImports]
  refine List.map_congr_left fun input _ => ?_
  rw [(grows_withImplicitImports hr input.1).coordinates]

end Registry

namespace Session

variable {p : Plan} {env : Environment} {s : Session Walk} {n : ModuleId}

theorem Faced.looks_idle (h : s.Faced p env) (hn : n < s.registry.size)
    (hidle : ¬ s.Entered n) :
    (s.registry.module n).face = if (s.registry.module n).available then
      env.platform.setUp (env.origin (s.coordinates n)) else env.origin (s.coordinates n) := by
  cases h.looks n hn with
  | untouched _ hlook =>
      have ha : (s.registry.module n).available = (env.origin (s.coordinates n)).available :=
        show (s.registry.module n).face.available = _ from hlook ▸ rfl
      rw [hlook]
      split
      · next havailable => exact (Environment.setUp_origin (ha ▸ havailable)).2.symm
      · rfl
  | served _ hserves hlook => rw [hlook, if_pos (Faced.available_of_served hserves hlook)]
  | inProgress hp => exact absurd (.inr hp) hidle
  | compiled hk => exact absurd (entered_of_done (.inr hk)) hidle
  | loaded hl => exact absurd (entered_of_done (.inl hl)) hidle

theorem Coherent.namedInputs_eq (h : s.Coherent p env) :
    s.registry.namedInputs =
      ((s.client.loaded.map s.coordinates).map fun c => (c, p.artifactAt c)).reverse := by
  have hinputs : s.registry.namedInputs = (s.registry.binaryInputs.map (·.1)).map
      fun n => (s.coordinates n, p.artifactAt (s.coordinates n)) := by
    rw [Registry.namedInputs, List.map_map]
    refine List.map_congr_left fun input hinput => ?_
    rw [Function.comp_apply, Plan.artifactAt_eq (h.artifacts input hinput)]
  rw [hinputs, h.inputs, List.map_reverse, List.map_map]
  rfl

end Session

end ModuleResolution
