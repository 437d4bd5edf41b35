import ModuleResolution.Proofs.Graph
import ModuleResolution.Proofs.Interning

namespace ModuleResolution

namespace Registry

variable {r : Registry} {c : Coordinates} {n : ModuleId}

theorem WellFormed.countP_target (h : r.WellFormed) (n k : ModuleId) :
    (r.module n).imports.countP (·.target == k) =
      if ∃ i ∈ (r.module n).imports, i.target = k then 1 else 0 := by
  have hcount : (r.module n).imports.countP (·.target == k) =
      ((r.module n).imports.map (·.target)).count k := by
    rw [List.count, List.countP_map]
    rfl
  rw [hcount, (h n).nodup.count]
  simp only [List.mem_map]

theorem exists_foundational_edge (hr : r.Indexed) (hn : n < r.size) (hne : n ≠ foundational)
    (hplatform : (r.withImplicitImports.module n).fromPlatform = false) :
    ∃ i ∈ (r.withImplicitImports.module n).imports, i.target = foundational := by
  by_cases hdeclared : ∃ i ∈ (r.module n).imports, i.target = foundational
  · obtain ⟨i, hi, htarget⟩ := hdeclared
    exact ⟨i, imports_subset_withImplicitImports hr n hi, htarget⟩
  · refine ⟨implicitImport, ?_, rfl⟩
    rw [imports_withImplicitImports_eq hr hn, if_pos ⟨hne, hplatform, by simpa using hdeclared⟩]
    exact List.mem_append_right _ (List.mem_singleton_self _)

theorem countP_declared {k : ModuleId} (hr : r.Indexed) (hl : r.Linked) (hw : r.WellFormed)
    (hk : r.find? c = some k) (n : ModuleId) :
    (r.module n).imports.countP (fun i => (r.module i.target).coordinates == c) =
      if ∃ i ∈ (r.module n).imports, i.target = k then 1 else 0 := by
  rw [← hw.countP_target]
  refine List.countP_congr fun i hi => ?_
  rw [beq_iff_eq, beq_iff_eq]
  constructor
  · rintro rfl
    exact Option.some.inj ((hl n i hi).symm.trans hk)
  · rintro rfl
    exact (lt_size_and_coordinates_of_find? hr hk).2

theorem countP_withImplicitImports {k : ModuleId} (hr : r.Indexed) (hl : r.Linked)
    (hw : r.WellFormed) (hk : r.find? c = some k) (hc : (r.module foundational).coordinates = c)
    (hn : n < r.size) (hne : n ≠ foundational)
    (hplatform : (r.withImplicitImports.module n).fromPlatform = false) :
    (r.withImplicitImports.module n).imports.countP
        (fun i => (r.withImplicitImports.module i.target).coordinates == c) =
      if k ≠ foundational ∧ ∃ i ∈ (r.withImplicitImports.module n).imports, i.target = k then 2
      else 1 := by
  have hcoordinates (j : ModuleId) : (r.withImplicitImports.module j).coordinates =
      (r.module j).coordinates := (grows_withImplicitImports hr j).coordinates
  simp only [hcoordinates]
  rw [imports_withImplicitImports_eq hr hn]
  by_cases hdeclared : ∃ i ∈ (r.module n).imports, i.target = foundational
  · obtain ⟨i, hi, htarget⟩ := hdeclared
    have hlinked := hl n i hi
    rw [Canonical, htarget, hc, hk] at hlinked
    obtain rfl := Option.some.inj hlinked
    rw [if_neg fun h => h.2.2 i hi htarget, List.append_nil, countP_declared hr hl hw hk,
      if_pos ⟨i, hi, htarget⟩, if_neg fun h => h.1 rfl]
  · have himplicit :
        [implicitImport].countP (fun i => (r.module i.target).coordinates == c) = 1 := by
      simp [implicitImport, hc]
    rw [if_pos ⟨hne, hplatform, by simpa using hdeclared⟩, List.countP_append,
      countP_declared hr hl hw hk, himplicit]
    by_cases hfoundational : k = foundational
    · rw [hfoundational, if_neg hdeclared, if_neg fun h => h.1 rfl]
    · have himplicit : implicitImport.target ≠ k := Ne.symm hfoundational
      simp only [List.mem_append, List.mem_singleton, or_and_right, exists_or, exists_eq_left,
        himplicit, or_false, hfoundational, ne_eq, not_false_eq_true, true_and]
      split <;> rfl

end Registry

namespace Agenda

variable {p : Plan} {env : Environment} {s t : Session Walk} {task : Task} {left rest : List Task}

theorem Coherent.wellFormed_step (h : Coherent p env ⟨s, task :: rest⟩)
    (hs : task.Step p env s t left) (hw : s.registry.WellFormed) : t.registry.WellFormed := by
  have hr := h.session.indexed
  have hensure {c : Coordinates} {e : Engine} {id : ModuleId}
      (he : s.engine.ensure env c = (e, id)) : e.registry.WellFormed := by
    obtain rfl : (s.engine.ensure env c).1 = e := congrArg Prod.fst he
    exact hw.ensure env.platform c
  cases hs with
  | done | missing | skipped | deferred | entered => exact hw
  | @supplied v =>
      exact hw.modify (by rw [Module.imports_setUp]; exact hw v.edge.target)
  | @loaded v a e l hdone hlocate hsource hsupplied hclear hneeded hload =>
      exact Engine.wellFormed_load hw hr (h.targets v List.mem_cons_self) hload
  | @declared importer trail d =>
      rw [Session.registry_declare]
      exact (hw.ensure env.platform d.coordinates).addImport (Registry.ensure_lt_size hr)
  | @finished id => exact hw.modify (hw id)
  | present he | refused he | opened he => exact (hensure he :)

end Agenda

namespace Plan

variable {p : Plan} {config : Config} {overrides : Option Overrides} {a : Agenda}
  {report : SessionReport}

theorem Reaches.wellFormed (h : p.Reaches config overrides a) :
    a.session.registry.WellFormed := by
  induction h using Reaches.induction with
  | start => exact Registry.wellFormed_init config.foundational
  | step hreach hs ih => exact hreach.coherent.wellFormed_step hs ih

theorem foundation_of_run (hrun : p.run config overrides = .ok report) :
    report.module? config.foundational =
        some (if config.foundational = Registry.defaultCoordinates then Registry.defaultModule
          else Registry.foundational) ∧
      ∀ n < report.registry.size, n ≠ Registry.foundational →
        (report.registry.module n).fromPlatform = false →
          (report.registry.module n).imports.countP (·.target == Registry.foundational) = 1 ∧
          (report.registry.module n).imports.countP
              (fun i => (report.registry.module i.target).coordinates == config.foundational) =
            if config.foundational = Registry.defaultCoordinates ∧
                ∃ i ∈ (report.registry.module n).imports, i.target = Registry.defaultModule
              then 2 else 1 := by
  obtain ⟨t, ht, rfl⟩ := reaches_of_run hrun
  have hc := ht.coherent.session
  have hfound := ht.find?_foundational
  refine ⟨(Registry.find?_withImplicitImports _ _).trans hfound, fun n hn hne hplatform => ?_⟩
  have hn : n < t.registry.size := by
    rwa [← Registry.size_withImplicitImports]
  constructor
  · have hcount := (ht.wellFormed.withImplicitImports hc.indexed).countP_target n
      Registry.foundational
    exact hcount.trans (if_pos (Registry.exists_foundational_edge hc.indexed hn hne hplatform))
  · have hcount := Registry.countP_withImplicitImports hc.indexed hc.linked ht.wellFormed hfound
      ht.coordinates_foundational hn hne hplatform
    refine hcount.trans (if_congr ?_ rfl rfl)
    by_cases hdefault : config.foundational = Registry.defaultCoordinates
    · rw [if_pos hdefault]
      exact and_congr_left fun _ => iff_of_true Nat.one_ne_zero hdefault
    · rw [if_neg hdefault]
      exact iff_of_false (fun h => h.1 rfl) fun h => hdefault h.1

def declaredFoundation : Plan where
  sources := [⟨⟨"app", "1"⟩, [⟨"vela.lang", "1.0.0", true, false⟩]⟩]
  artifacts := []

theorem foundation_of_run_declaredFoundation :
    ∃ report, declaredFoundation.run .default none = .ok report ∧
      report.module? ⟨"vela.lang", "1.0.0"⟩ = some Registry.foundational ∧
      2 < report.registry.size ∧ 2 ≠ Registry.foundational ∧
      (report.registry.module 2).fromPlatform = false ∧
      (report.registry.module 2).imports.countP
        (fun i => (report.registry.module i.target).coordinates == ⟨"vela.lang", "1.0.0"⟩) = 1 := by
  obtain ⟨report, hrun, hreport⟩ : ∃ report, declaredFoundation.run .default none = .ok report ∧
      (decide (2 < report.registry.size) && !(report.registry.module 2).fromPlatform) = true :=
    exists_report (by decide +kernel)
  simp only [Bool.and_eq_true, decide_eq_true_eq, Bool.not_eq_true'] at hreport
  obtain ⟨hsize, hplatform⟩ := hreport
  obtain ⟨hfound, hedges⟩ := foundation_of_run hrun
  have hcount := (hedges 2 hsize (by decide) hplatform).2
  have hdistinct : Config.default.foundational ≠ Registry.defaultCoordinates := by decide
  rw [if_neg hdistinct] at hfound
  rw [if_neg fun h => hdistinct h.1] at hcount
  exact ⟨report, hrun, hfound, hsize, by decide, hplatform, hcount⟩

def foundationalDefault : Config :=
  { Config.default with foundational := Registry.defaultCoordinates }

def importedDefault : Plan where
  sources := [⟨⟨"app", "1"⟩, [⟨"default", "unversioned", false, false⟩]⟩]
  artifacts := []

theorem split_foundation_importedDefault :
    importedDefault.validate = .ok () ∧ foundationalDefault.validate = .ok () ∧
      ∃ report, importedDefault.run foundationalDefault none = .ok report ∧
        report.module? foundationalDefault.foundational ≠ some Registry.foundational ∧
        2 < report.registry.size ∧ 2 ≠ Registry.foundational ∧
        (report.registry.module 2).fromPlatform = false ∧
        (report.registry.module 2).imports.countP
          (fun i => (report.registry.module i.target).coordinates ==
            foundationalDefault.foundational) = 2 := by
  obtain ⟨report, hrun, hreport⟩ : ∃ report,
      importedDefault.run foundationalDefault none = .ok report ∧
        (report.module? foundationalDefault.foundational != some Registry.foundational &&
          decide (2 < report.registry.size) && !(report.registry.module 2).fromPlatform &&
          (report.registry.module 2).imports.countP
            (fun i => (report.registry.module i.target).coordinates ==
              foundationalDefault.foundational) == 2) = true :=
    exists_report (by decide +kernel)
  simp only [Bool.and_eq_true, bne_iff_ne, decide_eq_true_eq, Bool.not_eq_true',
    beq_iff_eq] at hreport
  obtain ⟨⟨⟨hfound, hsize⟩, hplatform⟩, hcount⟩ := hreport
  exact ⟨by decide +kernel, by decide +kernel, report, hrun, hfound, hsize, by decide, hplatform,
    hcount⟩

end Plan

end ModuleResolution
