import ModuleResolution.Proofs.Run

namespace ModuleResolution

namespace Module

variable {m : Module} {i : Import}

theorem imports?_addImport (m : Module) (i : Import) :
    (m.addImport i).imports? i.target = true := by
  obtain ⟨j, hj, htarget⟩ := exists_target_addImport m i
  simp only [imports?, import?, List.find?_isSome, beq_iff_eq]
  exact ⟨j, hj, htarget⟩

theorem addImport_of_imports? (h : m.imports? i.target = true) : m.addImport i = m := by
  simp [addImport_eq, h]

theorem imports_addImport_of_not (h : m.imports? i.target = false) :
    (m.addImport i).imports = m.imports ++ [i] := by
  simp [addImport_eq, h]

theorem addImport_addImport (m : Module) (i : Import) :
    (m.addImport i).addImport i = m.addImport i :=
  addImport_of_imports? (imports?_addImport m i)

theorem imports?_of_needsFoundational (h : m.needsFoundational = true) :
    m.imports? Registry.implicitImport.target = false := by
  rw [needsFoundational, Bool.and_eq_true, Bool.not_eq_true'] at h
  exact h.2

end Module

namespace Registry

variable {r : Registry} {n : ModuleId}

theorem module_foldl_addImport (i : Import) (ids : List ModuleId) (hn : n < r.size) :
    (ids.foldl (fun r id => r.modify id (·.addImport i)) r).module n =
      if n ∈ ids then (r.module n).addImport i else r.module n := by
  induction ids generalizing r with
  | nil => simp
  | cons id ids ih =>
      rw [List.foldl_cons, ih (by simpa using hn)]
      by_cases hid : n = id
      · subst hid
        rw [module_modify_self hn, if_pos List.mem_cons_self]
        split
        · exact Module.addImport_addImport _ i
        · rfl
      · rw [module_modify_of_ne hid]
        simp [hid]

theorem size_foldl_addImport (r : Registry) (i : Import) (ids : List ModuleId) :
    (ids.foldl (fun r id => r.modify id (·.addImport i)) r).size = r.size := by
  induction ids generalizing r with
  | nil => rfl
  | cons id ids ih => rw [List.foldl_cons, ih, size_modify]

theorem mem_lackingFoundational (h : r.Indexed) :
    n ∈ r.lackingFoundational ↔ n < r.size ∧ (r.module n).needsFoundational = true := by
  rw [lackingFoundational, ids_filter h, List.mem_filter, List.mem_range]

@[simp] theorem size_withImplicitImports (r : Registry) : r.withImplicitImports.size = r.size :=
  size_foldl_addImport r _ _

@[simp] theorem binaryInputs_withImplicitImports (r : Registry) :
    r.withImplicitImports.binaryInputs = r.binaryInputs := by
  rw [withImplicitImports_eq]
  generalize r.lackingFoundational = ids
  induction ids generalizing r with
  | nil => rfl
  | cons id ids ih => exact ih _

theorem module_withImplicitImports (h : r.Indexed) (hn : n < r.size) :
    r.withImplicitImports.module n =
      if (r.module n).needsFoundational then (r.module n).addImport implicitImport
      else r.module n := by
  rw [withImplicitImports_eq, module_foldl_addImport _ _ hn]
  simp [mem_lackingFoundational h, hn]

theorem module_withImplicitImports_cases (h : r.Indexed) (n : ModuleId) :
    r.withImplicitImports.module n = r.module n ∨
      r.withImplicitImports.module n = (r.module n).addImport implicitImport := by
  by_cases hn : n < r.size
  · rw [module_withImplicitImports h hn]
    split
    · exact .inr rfl
    · exact .inl rfl
  · rw [module_of_size_le (Nat.le_of_not_lt hn),
      module_of_size_le (by simpa using Nat.le_of_not_lt hn)]
    exact .inl rfl

theorem grows_withImplicitImports (h : r.Indexed) (n : ModuleId) :
    (r.module n).Grows (r.withImplicitImports.module n) := by
  rcases module_withImplicitImports_cases h n with hm | hm
  · exact hm.symm ▸ .refl _
  · exact hm.symm ▸ Module.grows_addImport _ _

theorem exists_module_withImplicitImports (h : r.Indexed) (n : ModuleId) :
    ∃ is, r.withImplicitImports.module n = (r.module n).setImports is := by
  rcases module_withImplicitImports_cases h n with hm | hm
  · exact ⟨_, hm⟩
  · exact hm.symm ▸ Module.exists_addImport_eq _ _

theorem eq_withImplicitImports {β : Type} {g : Module → β} (h : r.Indexed)
    (hg : ∀ (m : Module) (is : List Import), g (m.setImports is) = g m) (n : ModuleId) :
    g (r.withImplicitImports.module n) = g (r.module n) := by
  obtain ⟨is, his⟩ := exists_module_withImplicitImports h n
  rw [his, hg]

theorem find?_withImplicitImports (r : Registry) (c : Coordinates) :
    r.withImplicitImports.find? c = r.find? c := by
  have hindex : r.withImplicitImports.index = r.index := by
    rw [withImplicitImports_eq]
    generalize r.lackingFoundational = ids
    induction ids generalizing r with
    | nil => rfl
    | cons id ids ih =>
        rw [List.foldl_cons, ih, index_modify fun m => Module.grows_addImport m _]
  rw [find?_eq, find?_eq, hindex]

theorem needsFoundational_iff (h : r.Indexed) (hn : n < r.size) :
    (r.module n).needsFoundational = true ↔ n ≠ foundational ∧
      (r.module n).fromPlatform = false ∧ ∀ i ∈ (r.module n).imports, i.target ≠ foundational := by
  simp [Module.needsFoundational, Module.imports?, Module.import?, h n hn, and_assoc]

theorem imports_withImplicitImports_eq (h : r.Indexed) (hn : n < r.size) :
    (r.withImplicitImports.module n).imports = (r.module n).imports ++
      if n ≠ foundational ∧ (r.withImplicitImports.module n).fromPlatform = false ∧
          ∀ i ∈ (r.module n).imports, i.target ≠ foundational
        then [implicitImport] else [] := by
  have hplatform : (r.withImplicitImports.module n).fromPlatform = (r.module n).fromPlatform :=
    eq_withImplicitImports h (fun _ _ => rfl) n
  rw [hplatform, module_withImplicitImports h hn]
  by_cases hneeds : (r.module n).needsFoundational = true
  · rw [if_pos hneeds, if_pos ((needsFoundational_iff h hn).mp hneeds),
      Module.imports_addImport_of_not (Module.imports?_of_needsFoundational hneeds)]
  · rw [if_neg hneeds, if_neg (mt (needsFoundational_iff h hn).mpr hneeds), List.append_nil]

theorem imports_withImplicitImports (h : r.Indexed) (n : ModuleId) :
    (r.withImplicitImports.module n).imports = (r.module n).imports ∨
      (r.withImplicitImports.module n).imports = (r.module n).imports ++ [implicitImport] := by
  rcases module_withImplicitImports_cases h n with hm | hm
  · exact .inl (congrArg Module.imports hm)
  · rw [hm]
    cases himports : (r.module n).imports? implicitImport.target with
    | true => exact .inl (by rw [Module.addImport_of_imports? himports])
    | false => exact .inr (Module.imports_addImport_of_not himports)

theorem mem_imports_withImplicitImports {i : Import} (h : r.Indexed)
    (hi : i ∈ (r.withImplicitImports.module n).imports) :
    i ∈ (r.module n).imports ∨ i = implicitImport := by
  rcases imports_withImplicitImports h n with himports | himports
  · exact .inl (himports ▸ hi)
  · simpa [himports] using hi

theorem imports_subset_withImplicitImports (h : r.Indexed) (n : ModuleId) :
    (r.module n).imports ⊆ (r.withImplicitImports.module n).imports := by
  rcases imports_withImplicitImports h n with himports | himports
  · rw [himports]
    exact List.Subset.refl _
  · rw [himports]
    exact List.subset_append_left _ _

end Registry

namespace Plan

variable {p : Plan} {config : Config} {overrides : Option Overrides} {report : SessionReport}

theorem session_of_run (h : p.run config overrides = .ok report) :
    ∃ t, p.session config overrides = (.ok (), t) ∧
      report = .ofSession (t.onEngine Engine.withImplicitImports) := by
  rcases hs : p.session config overrides with ⟨result, t⟩
  simp only [run, hs] at h
  cases result with
  | error e => cases h
  | ok _ =>
      cases h
      exact ⟨t, rfl, rfl⟩

theorem reaches_of_run (h : p.run config overrides = .ok report) :
    ∃ t, p.Reaches config overrides ⟨t, []⟩ ∧
      report = .ofSession (t.onEngine Engine.withImplicitImports) := by
  obtain ⟨t, ht, rfl⟩ := session_of_run h
  exact ⟨t, reaches_of_session ht, rfl⟩

theorem run_eq_error {e : ResolveError} :
    p.run config overrides = .error e ↔ ∃ t, p.session config overrides = (.error e, t) := by
  rw [run]
  rcases p.session config overrides with ⟨result, t⟩
  cases result <;> simp [Except.map]

theorem run_eq_error_of_session {e : ResolveError}
    (h : (p.session config overrides).1 = .error e) : p.run config overrides = .error e :=
  run_eq_error.mpr ⟨_, Prod.ext h rfl⟩

theorem exists_report {f : SessionReport → Bool}
    (h : (p.run config overrides).toOption.any f = true) :
    ∃ report, p.run config overrides = .ok report ∧ f report = true := by
  cases hrun : p.run config overrides with
  | error e =>
      rw [hrun] at h
      cases h
  | ok report =>
      rw [hrun] at h
      exact ⟨report, rfl, h⟩

end Plan

end ModuleResolution
