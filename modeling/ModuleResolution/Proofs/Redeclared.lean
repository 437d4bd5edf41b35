import Mathlib.Data.List.Basic
import ModuleResolution.Proofs.Known
import ModuleResolution.Proofs.Report

namespace ModuleResolution

namespace Registry

variable {r s : Registry} {p : Platform} {id j : ModuleId} {c : Coordinates} {b : Option Backend}
  {deps : List ArtifactDependency}

theorem find?_isSome_iff (hr : r.Indexed) : (r.find? c).isSome = true ↔ r.Knows c := by
  constructor
  · intro h
    obtain ⟨id, hid⟩ := Option.isSome_iff_exists.mp h
    exact ⟨id, lt_size_and_coordinates_of_find? hr hid⟩
  · rintro ⟨id, hid, hc⟩
    rw [Option.isSome_iff_ne_none]
    exact fun hnone => coordinates_ne_of_find? hnone hid hc

theorem ensure_of_find? (h : r.find? c = some id) : r.ensure p c = (r, id) := by
  simp [ensure, intern, h]

theorem ensure_of_knows (hr : r.Indexed) (h : r.Knows c) : (r.ensure p c).1 = r := by
  obtain ⟨id, hid⟩ := Option.isSome_iff_exists.mp ((find?_isSome_iff hr).mpr h)
  rw [ensure_of_find? hid]

theorem size_declareDependencies (hr : r.Indexed) (hknown : ∀ d ∈ deps, r.Knows d.coordinates) :
    (r.declareDependencies p id b deps).size = r.size := by
  induction deps generalizing r with
  | nil => rfl
  | cons d deps ih =>
      have hgrows (i : Import) (m : Module) : m.Grows (m.addImport i) :=
        Module.grows_addImport m i
      rw [declareDependencies_cons, ensure_of_knows hr (hknown d List.mem_cons_self), ih,
        size_modify]
      · exact (evolves_modify (p := p) (hgrows _)).indexed hr
      · exact fun d' hd' => (knows_modify (hgrows _)).mpr (hknown d' (List.mem_cons_of_mem _ hd'))

def Declares (r : Registry) (id : ModuleId) (deps : List ArtifactDependency) : Prop :=
  ∀ d ∈ deps, ∃ j, r.find? d.coordinates = some j ∧ (r.module id).imports? j = true

theorem declareDependencies_of_declares (h : r.Declares id deps) :
    r.declareDependencies p id b deps = r := by
  induction deps with
  | nil => rfl
  | cons d deps ih =>
      obtain ⟨j, hfind, himports⟩ := h d List.mem_cons_self
      rw [declareDependencies_cons, ensure_of_find? hfind, modify_addImport_of_imports? himports]
      exact ih fun d' hd' => h d' (List.mem_cons_of_mem _ hd')

theorem imports?_declareDependencies (hid : id < r.size) (h : (r.module id).imports? j = true) :
    ((r.declareDependencies p id b deps).module id).imports? j = true := by
  induction deps generalizing r with
  | nil => exact h
  | cons d deps ih =>
      have hlt := (evolves_ensure p id r d.coordinates).lt_size hid
      rw [declareDependencies_cons]
      refine ih (by simpa using hlt) ?_
      rw [module_modify_self hlt, module_ensure_of_lt hid]
      simp only [Module.imports?, Module.import?, List.find?_isSome] at h ⊢
      obtain ⟨i, hi, htarget⟩ := h
      exact ⟨i, Module.imports_subset_addImport _ _ hi, htarget⟩

theorem declares_declareDependencies (hr : r.Indexed) (hid : id < r.size) :
    (r.declareDependencies p id b deps).Declares id deps := by
  induction deps generalizing r with
  | nil => exact fun d hd => absurd hd List.not_mem_nil
  | cons d deps ih =>
      have hev := evolves_ensure p id r d.coordinates
      have hlt := hev.lt_size hid
      have hmodify (i : Import) :
          Evolves p id (r.ensure p d.coordinates).1 ((r.ensure p d.coordinates).1.modify id
            (·.addImport i)) := evolves_modify fun m => Module.grows_addImport m i
      rw [declareDependencies_cons]
      intro d' hd'
      rcases List.mem_cons.mp hd' with rfl | hd'
      · refine ⟨_, (evolves_declareDependencies (by simpa using hlt) deps).found _ _
          ((hmodify _).found _ _ (find?_ensure_self hr)), ?_⟩
        refine imports?_declareDependencies (by simpa using hlt) ?_
        rw [module_modify_self hlt]
        exact Module.imports?_addImport _ _
      · exact ih ((hmodify _).indexed (hev.indexed hr)) (by simpa using hlt) d' hd'

theorem Declares.covers (h : r.Declares id deps) (hr : r.Indexed) :
    ∀ d ∈ deps.map (NamedImport.ofArtifact b), ∃ i ∈ r.namedImports id, i.target = d.target := by
  intro i hi
  obtain ⟨d, hd, rfl⟩ := List.mem_map.mp hi
  obtain ⟨j, hfind, himports⟩ := h d hd
  simp only [Module.imports?, Module.import?, List.find?_isSome, beq_iff_eq] at himports
  obtain ⟨i, hi, rfl⟩ := himports
  exact ⟨_, List.mem_map_of_mem hi, (lt_size_and_coordinates_of_find? hr hfind).2⟩

theorem Declares.knows (h : r.Declares id deps) (hr : r.Indexed) :
    ∀ d ∈ deps, r.Knows d.coordinates := by
  intro d hd
  obtain ⟨j, hfind, -⟩ := h d hd
  exact ⟨j, lt_size_and_coordinates_of_find? hr hfind⟩

theorem foldl_link_of_knows (ds : List Dependency) (js : List Import) (hr : r.Indexed)
    (hknown : ∀ d ∈ ds, r.Knows d.coordinates) : (ds.foldl (link p) (r, js)).1 = r := by
  induction ds generalizing js with
  | nil => rfl
  | cons d ds ih =>
      have hsame : (link p (r, js) d).1 = r := by
        rw [link_fst, ensure_of_knows hr (hknown d List.mem_cons_self)]
      rw [List.foldl_cons, ← Prod.eta (link p (r, js) d), hsame]
      exact ih _ fun d' hd' => hknown d' (List.mem_cons_of_mem _ hd')

theorem size_overrideImports (hr : r.Indexed) {o : Overrides}
    (hknown : ∀ i ∈ o.named c (r.namedImports id), r.Knows i.target) :
    (r.overrideImports p o id c).size = r.size := by
  cases hrule : o.hasRule c with
  | false => rw [overrideImports_of_not_hasRule hrule]
  | true =>
      rw [Overrides.named, if_pos hrule, ← declared_eq_ofList] at hknown
      rw [overrideImports_of_hasRule hrule, size_modify]
      refine congrArg size (foldl_link_of_knows _ [] hr fun d hd => ?_)
      obtain ⟨i, hi, htarget⟩ := NamedImport.target_addAll.mpr
        (.inr ⟨_, List.mem_map_of_mem hd, rfl⟩)
      have hk := hknown i hi
      rw [htarget] at hk
      exact hk

theorem linkedAt_overrideImports (hr : r.Indexed) (hid : id < r.size) {o : Overrides}
    (hrule : o.hasRule c = true) : (r.overrideImports p o id c).LinkedAt id := by
  obtain ⟨hindexed, hlinks⟩ := canonical_foldl_link (p := p)
    (o.apply c (r.declared id)).toList (r, []) hr fun i hi => absurd hi List.not_mem_nil
  rw [overrideImports_of_hasRule hrule]
  exact linkedAt_modify hindexed (fun m => Module.grows_setImports m _)
    ((evolves_foldl_link id _ (r, []) hid).lt_size hid) hlinks

theorem eq_of_map_named_eq {is js : List Import} (his : ∀ i ∈ is, r.Canonical i.target)
    (hjs : ∀ j ∈ js, r.Canonical j.target) (h : is.map r.named = js.map r.named) : is = js := by
  induction is generalizing js with
  | nil => exact (List.map_eq_nil_iff.mp h.symm).symm
  | cons i is ih =>
      cases js with
      | nil => cases h
      | cons j js =>
          simp only [List.map_cons, List.cons.injEq, named, NamedImport.mk.injEq] at h
          obtain ⟨⟨hc, hoptional, hexported, hbackend⟩, hrest⟩ := h
          have htarget : i.target = j.target :=
            (his i List.mem_cons_self).eq (hjs j List.mem_cons_self) hc
          rw [ih (fun k hk => his k (List.mem_cons_of_mem _ hk))
            (fun k hk => hjs k (List.mem_cons_of_mem _ hk)) hrest]
          cases i
          cases j
          simp_all

theorem map_target_eq {is js : List Import} (his : ∀ i ∈ is, r.Canonical i.target)
    (hjs : ∀ j ∈ js, r.Canonical j.target)
    (h : (is.map r.named).map (·.target) = (js.map r.named).map (·.target)) :
    is.map (·.target) = js.map (·.target) := by
  -- coordinates alone lead back to the module of a canonical edge
  have hfind {ks : List Import} (hks : ∀ k ∈ ks, r.Canonical k.target) :
      (ks.map (·.target)).map some = ((ks.map r.named).map (·.target)).map r.find? := by
    simp only [List.map_map]
    exact List.map_congr_left fun k hk => (hks k hk).symm
  refine List.map_injective_iff.mpr (fun _ _ => Option.some.inj) ?_
  rw [hfind his, hfind hjs, h]

theorem Evolves.eq_setImports (h : Evolves p id r s) (hid : id < r.size)
    (hsize : s.size = r.size) (hinputs : s.binaryInputs = r.binaryInputs)
    (hface : (s.module id).setImports [] = (r.module id).setImports []) :
    s = r.modify id (·.setImports (s.module id).imports) := by
  have hself : (r.module id).setImports (s.module id).imports = s.module id :=
    (congrArg (·.setImports (s.module id).imports) hface).symm
  refine ext_module (hsize.trans (size_modify _ _ _).symm) hinputs fun j hj => ?_
  by_cases hne : j = id
  · subst hne
    rw [module_modify_self hid, hself]
  · rw [module_modify_of_ne hne, h.others j (hsize ▸ hj) hne]

end Registry

end ModuleResolution
