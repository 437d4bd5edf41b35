import ModuleResolution.Proofs.Foundation

namespace ModuleResolution

namespace Module

variable {m : Module}

theorem needsFoundational_addImport (m : Module) :
    (m.addImport Registry.implicitImport).needsFoundational = false := by
  have himports : (m.addImport Registry.implicitImport).imports? Registry.foundational = true :=
    imports?_addImport m Registry.implicitImport
  simp [needsFoundational, himports]

theorem length_imports_of_needsFoundational (h : m.needsFoundational = true) :
    (m.addImport Registry.implicitImport).imports.length = m.imports.length + 1 := by
  rw [imports_addImport_of_not (imports?_of_needsFoundational h), List.length_append,
    List.length_singleton]

def completed (m : Module) : Module :=
  if m.needsFoundational then m.addImport Registry.implicitImport else m

theorem needsFoundational_completed (m : Module) : m.completed.needsFoundational = false := by
  cases h : m.needsFoundational with
  | true => simp [completed, h, needsFoundational_addImport]
  | false => simp [completed, h]

theorem length_imports_completed (m : Module) :
    m.completed.imports.length = m.imports.length + if m.needsFoundational then 1 else 0 := by
  cases h : m.needsFoundational with
  | true => simp [completed, h, length_imports_of_needsFoundational h]
  | false => simp [completed, h]

end Module

namespace Registry

variable {r : Registry} {n : ModuleId}

def edgeCount (r : Registry) : Nat :=
  (r.modules.map (·.imports.length)).sum

theorem modules_withImplicitImports (h : r.Indexed) :
    r.withImplicitImports.modules = r.modules.map Module.completed := by
  rw [modules_eq, modules_eq r, size_withImplicitImports, List.map_map]
  exact List.map_congr_left fun n hn => module_withImplicitImports h (List.mem_range.mp hn)

theorem sum_length_completed (ms : List Module) :
    (ms.map (·.completed.imports.length)).sum =
      (ms.map (·.imports.length)).sum + ms.countP Module.needsFoundational := by
  induction ms with
  | nil => rfl
  | cons m ms ih =>
      rw [List.map_cons, List.map_cons, List.sum_cons, List.sum_cons, List.countP_cons, ih,
        Module.length_imports_completed]
      omega

theorem edgeCount_withImplicitImports (h : r.Indexed) :
    r.withImplicitImports.edgeCount = r.edgeCount + r.addImplicitImports.2 := by
  rw [edgeCount, modules_withImplicitImports h, List.map_map, addImplicitImports,
    lackingFoundational, List.length_map, ← List.countP_eq_length_filter]
  exact sum_length_completed r.modules

theorem lackingFoundational_withImplicitImports (h : r.Indexed) :
    r.withImplicitImports.lackingFoundational = [] := by
  rw [lackingFoundational, modules_withImplicitImports h, List.map_eq_nil_iff,
    List.filter_eq_nil_iff]
  intro m hm
  obtain ⟨m, -, rfl⟩ := List.mem_map.mp hm
  simp [Module.needsFoundational_completed]

theorem addImplicitImports_of_nil (h : r.lackingFoundational = []) :
    r.addImplicitImports = (r, 0) := by
  rw [addImplicitImports, h]
  rfl

theorem module_withImplicitImports_eq (h : r.Indexed) (hn : n < r.size) :
    r.withImplicitImports.module n = (r.module n).setImports ((r.module n).imports ++
      if n ≠ foundational ∧ (r.module n).fromPlatform = false ∧
          ∀ i ∈ (r.module n).imports, i.target ≠ foundational
        then [implicitImport] else []) := by
  have hplatform : (r.withImplicitImports.module n).fromPlatform = (r.module n).fromPlatform :=
    eq_withImplicitImports h (fun _ _ => rfl) n
  have himports := imports_withImplicitImports_eq h hn
  obtain ⟨is, his⟩ := exists_module_withImplicitImports h n
  rw [hplatform] at himports
  rw [his] at himports ⊢
  rw [← himports]
  rfl

theorem completed_withImplicitImports (h : r.Indexed) :
    let s := r.addImplicitImports.1
    (∀ id < r.size, id ≠ foundational → (r.module id).fromPlatform = false →
      ∃ i ∈ (s.module id).imports, i.target = foundational) ∧
    (∀ id < r.size, s.module id = (r.module id).setImports ((r.module id).imports ++
      if id ≠ foundational ∧ (r.module id).fromPlatform = false ∧
          ∀ i ∈ (r.module id).imports, i.target ≠ foundational
        then [⟨foundational, false, true, none⟩] else [])) ∧
    (∀ id < r.size, id = foundational ∨ (r.module id).fromPlatform = true →
      s.module id = r.module id) ∧
    s.size = r.size ∧ s.binaryInputs = r.binaryInputs ∧
    s.edgeCount = r.edgeCount + r.addImplicitImports.2 ∧ s.lackingFoundational = [] ∧
    s.addImplicitImports = (s, 0) := by
  intro s
  have hlacking : s.lackingFoundational = [] := lackingFoundational_withImplicitImports h
  refine ⟨?_, fun id hid => module_withImplicitImports_eq h hid, ?_, size_withImplicitImports r,
    binaryInputs_withImplicitImports r, edgeCount_withImplicitImports h, hlacking,
    addImplicitImports_of_nil hlacking⟩
  · intro id hid hne hplatform
    refine exists_foundational_edge h hid hne ?_
    exact (eq_withImplicitImports h (fun _ _ => rfl) id).trans hplatform
  · intro id hid hexempt
    have hfull : ¬ (r.module id).needsFoundational = true := by
      rw [needsFoundational_iff h hid]
      rintro ⟨hne, hplatform, -⟩
      rcases hexempt with rfl | hnative
      · exact hne rfl
      · exact Bool.false_ne_true (hplatform.symm.trans hnative)
    exact (module_withImplicitImports h hid).trans (if_neg hfull)

def mixedRegistry : Registry :=
  let r := [⟨"app", "1"⟩, ⟨"lib", "1"⟩, ⟨"host", "11"⟩].foldl
    (fun r c => (r.ensure ⟨"11", "8", ["host"]⟩ c).1) (init ⟨"vela.lang", "1.0.0"⟩)
  (r.modify 2 (·.addImport ⟨3, false, false, none⟩)).modify 3
    (·.addImport ⟨foundational, true, false, none⟩)

theorem completed_withImplicitImports_mixed :
    let s := mixedRegistry.addImplicitImports.1
    mixedRegistry.Indexed ∧
      (s.module 2).imports = [⟨3, false, false, none⟩, ⟨foundational, false, true, none⟩] ∧
      (s.module 3).imports = [⟨foundational, true, false, none⟩] ∧
      s.module 4 = mixedRegistry.module 4 ∧ mixedRegistry.addImplicitImports.2 = 2 ∧
      s.edgeCount = 4 ∧ s.addImplicitImports = (s, 0) := by
  intro s
  have hindexed : mixedRegistry.Indexed := by
    unfold Indexed
    decide +kernel
  obtain ⟨-, hmodules, hexempt, -, -, hcount, -, hagain⟩ := completed_withImplicitImports hindexed
  have happ := congrArg Module.imports (hmodules 2 (by decide +kernel))
  have hlib := congrArg Module.imports (hmodules 3 (by decide +kernel))
  have hadded : mixedRegistry.addImplicitImports.2 = 2 := by decide +kernel
  have hedges : mixedRegistry.edgeCount = 2 := by decide +kernel
  exact ⟨hindexed, happ, hlib, hexempt 4 (by decide +kernel) (.inr (by decide +kernel)), hadded,
    by rw [hcount, hedges, hadded], hagain⟩

end Registry

end ModuleResolution
